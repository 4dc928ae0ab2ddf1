import GherkinTree.Line
import GherkinTree.View.Basic

/-!
Views of texts, tables, doc strings and steps.
-/

namespace GherkinTree

/-- The text of a name, a step, a cell or a doc string. -/
abbrev TextView := View .text

namespace TextView

def isInterpolated (t : TextView) : Bool := t.node.kind == .interpolatedText

/-- The decoded text, in which a placeholder is its name between angle brackets. -/
def value (t : TextView) : Text := t.node.descendantTokens.flatMap (·.token.value)

def placeholders (t : TextView) : List Text := View.placeholdersUnder t.node

/-- Whether all of the text is lacking. -/
def isMissing (t : TextView) : Bool := t.node.descendantTokens.all (·.token.missing)

end TextView

abbrev CellView := View .tableCell

namespace CellView

def text? (c : CellView) : Option TextView := View.childOf? .text c.node

/-- The decoded text of a cell, empty for an empty cell. -/
def value (c : CellView) : Text :=
  match c.text? with
  | some t => t.value
  | none => (c.node.firstToken?.map (·.token.value)).getD []

def isEmpty (c : CellView) : Bool := c.node.firstToken?.any (·.token.missing)

def placeholders (c : CellView) : List Text := (c.text?.map TextView.placeholders).getD []

end CellView

abbrev RowView := View .tableRow

namespace RowView

def cells (r : RowView) : List CellView := View.childrenOf .tableCell r.node

def values (r : RowView) : List Text := r.cells.map CellView.value

/-- Whether the row ends with a bar. -/
def isClosed (r : RowView) : Bool :=
  r.node.lastToken?.any fun t => t.kind == .verticalBarToken && !t.token.missing

end RowView

abbrev TableView := View .table

namespace TableView

def rows (t : TableView) : List RowView := View.childrenOf .tableRow t.node

def values (t : TableView) : List (List Text) := t.rows.map RowView.values

end TableView

abbrev DocStringView := View .docString

namespace DocStringView

/-- The fence that opens the doc string. -/
def fence? (d : DocStringView) : Option Fence :=
  d.node.firstToken?.bind fun t => Fence.atStart? t.token.text

def contentType? (d : DocStringView) : Option Text :=
  ((d.node.childNode? .docStringContentType).bind (·.firstToken?)).map (·.token.text)

/-- The decoded content, indentation and line breaks included. -/
def content (d : DocStringView) : Text := ((View.childOf? .text d.node).map TextView.value).getD []

/-- Whether the closing fence is present. -/
def isClosed (d : DocStringView) : Bool :=
  (d.node.childTokens.filter (·.kind == .docStringDelimiterToken))[1]?.any (!·.token.missing)

end DocStringView

abbrev StepView := View .step

namespace StepView

def keyword? (s : StepView) : Option PlacedToken :=
  s.node.firstToken?.filter (·.kind.isStepKeyword)

def role? (s : StepView) : Option Role := s.keyword?.bind (·.kind.role?)

/-- The primary role of the step after the primary step `previous`, and the primary step that the
next one follows. -/
def resolve (s : StepView) (previous : Option Role) : Option Role × Option Role :=
  match s.role? with
  | some r => let (role, next) := r.resolve previous; (some role, next)
  | none => (none, previous)

def textNode? (s : StepView) : Option TextView := View.childOf? .text s.node

/-- The decoded text of a step, empty if it is lacking. -/
def text (s : StepView) : Text := (s.textNode?.map TextView.value).getD []

/-- The placeholders in the text and in the argument. -/
def placeholders (s : StepView) : List Text := View.placeholdersUnder s.node

def table? (s : StepView) : Option TableView := View.childOf? .table s.node

def docString? (s : StepView) : Option DocStringView := View.childOf? .docString s.node

end StepView

end GherkinTree
