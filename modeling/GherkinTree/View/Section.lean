import GherkinTree.View.Step

/-!
Views of sections and of the document that holds them.
-/

namespace GherkinTree

abbrev TagsView := View .tags

namespace TagsView

def tokens (t : TagsView) : List PlacedToken := t.node.childTokens

/-- The names of the tags, without the sign in front. -/
def names (t : TagsView) : List Text :=
  t.tokens.map fun tag => (Text.after? ['@'] tag.token.text).getD tag.token.text

end TagsView

abbrev DescriptionView := View .description

def DescriptionView.lines (t : DescriptionView) : List Text := t.node.childTokens.map (·.token.value)

namespace View

variable {v : ViewType}

/-- The keyword of a section, perhaps a missing one. -/
def keyword? (s : View v) : Option PlacedToken := s.node.childTokens.find? (·.kind.isKeyword)

def role? (s : View v) : Option Role := s.keyword?.bind (·.kind.role?)

/-- The name behind the colon. -/
def name? (s : View v) : Option Text := (childOf? .text s.node).map TextView.value

def description? (s : View v) : Option DescriptionView := childOf? .description s.node

def descriptionLines (s : View v) : List Text := (s.description?.map DescriptionView.lines).getD []

def tags? (s : View v) : Option TagsView := childOf? .tags s.node

def tagNames (s : View v) : List Text := (s.tags?.map TagsView.names).getD []

end View

abbrev ExamplesView := View .examples

def ExamplesView.table? (e : ExamplesView) : Option TableView := View.childOf? .table e.node

abbrev BackgroundView := View .background

def BackgroundView.steps (b : BackgroundView) : List StepView := View.childrenOf .step b.node

abbrev ScenarioView := View .scenario

namespace ScenarioView

def steps (s : ScenarioView) : List StepView := View.childrenOf .step s.node

def examples (s : ScenarioView) : List ExamplesView := View.childrenOf .examples s.node

/-- Whether a scenario is an outline, by its keyword or because it has examples. -/
def isOutline (s : ScenarioView) : Bool :=
  s.role? == some .scenarioOutline || !s.examples.isEmpty

end ScenarioView

abbrev RuleView := View .rule

namespace RuleView

def background? (r : RuleView) : Option BackgroundView := View.childOf? .background r.node

def scenarios (r : RuleView) : List ScenarioView := View.childrenOf .scenario r.node

end RuleView

abbrev FeatureView := View .feature

namespace FeatureView

def background? (f : FeatureView) : Option BackgroundView := View.childOf? .background f.node

def scenarios (f : FeatureView) : List ScenarioView := View.childrenOf .scenario f.node

def rules (f : FeatureView) : List RuleView := View.childrenOf .rule f.node

end FeatureView

abbrev DocumentView := View .document

namespace DocumentView

/-- The feature, which a document of nothing but trivia lacks. -/
def feature? (d : DocumentView) : Option FeatureView := View.childOf? .feature d.node

/-- The token that carries the trivia at the end. -/
def endOfFile? (d : DocumentView) : Option PlacedToken := d.node.childToken? .endOfFileToken

end DocumentView

end GherkinTree
