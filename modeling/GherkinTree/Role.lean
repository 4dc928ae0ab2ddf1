import GherkinTree.Text

/-!
The role of a keyword is what it does in the grammar, whatever the language it is written in.
Structural roles open a section and are followed by a colon; step roles open a step.
-/

namespace GherkinTree

/-- What a keyword does, listed in the order that settles ties between equal spellings. -/
inductive Role where
  | feature
  | rule
  | background
  | scenarioOutline
  | scenario
  | examples
  | givenStep
  | whenStep
  | thenStep
  | andStep
  | butStep
  | wildcard
  deriving DecidableEq, Repr

namespace Role

def structural : List Role := [feature, rule, background, scenarioOutline, scenario, examples]

def steps : List Role := [givenStep, whenStep, thenStep, andStep, butStep, wildcard]

/-- Every role, in order. -/
def all : List Role := structural ++ steps

/-- The place of a role in `all`. -/
def rank : Role → Nat
  | feature => 0
  | rule => 1
  | background => 2
  | scenarioOutline => 3
  | scenario => 4
  | examples => 5
  | givenStep => 6
  | whenStep => 7
  | thenStep => 8
  | andStep => 9
  | butStep => 10
  | wildcard => 11

theorem mem_all (r : Role) : r ∈ all := by cases r <;> decide

def isStep : Role → Bool
  | givenStep | whenStep | thenStep | andStep | butStep | wildcard => true
  | _ => false

def isStructural (r : Role) : Bool := !r.isStep

/-- The English name. -/
def name : Role → String
  | feature => "Feature"
  | rule => "Rule"
  | background => "Background"
  | scenarioOutline => "Scenario Outline"
  | scenario => "Scenario"
  | examples => "Examples"
  | givenStep => "Given"
  | whenStep => "When"
  | thenStep => "Then"
  | andStep => "And"
  | butStep => "But"
  | wildcard => "*"

/-- The name in letters only. -/
def label : Role → String
  | scenarioOutline => "ScenarioOutline"
  | wildcard => "Wildcard"
  | r => r.name

/-- The name as one word, under which keyword tables list the spellings of the role. -/
def key : Role → String
  | scenarioOutline => "scenarioOutline"
  | r => r.name

/-- The role a text names, blanks around it and the case of ASCII letters left aside. -/
def ofText? (t : Text) : Option Role :=
  let word := (Text.trim t).lowerAscii
  all.find? fun r => Text.lowerAscii r.name.toList == word || Text.lowerAscii r.key.toList == word

/-- The primary role of a step after the primary step `previous`, and the primary step that the
next one follows. A conjunction repeats the previous primary step, or stands for `givenStep` at
the start; a structural role is no step and changes nothing. -/
def resolve (r : Role) (previous : Option Role) : Role × Option Role :=
  match r with
  | andStep | butStep | wildcard => (previous.getD givenStep, previous)
  | givenStep | whenStep | thenStep => (r, some r)
  | _ => (r, previous)

end Role

end GherkinTree
