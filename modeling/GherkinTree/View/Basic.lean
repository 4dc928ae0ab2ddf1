import GherkinTree.Tree.Placed

/-!
Typed views of a tree. A view is a placed node of a kind that it accepts; its accessors read the
parts of that kind of node.
-/

namespace GherkinTree

/-- The types of views. -/
inductive ViewType where
  | document
  | feature
  | rule
  | background
  | scenario
  | examples
  | step
  | table
  | tableRow
  | tableCell
  | docString
  | text
  | tags
  | description
  deriving DecidableEq, Repr

namespace ViewType

def all : List ViewType :=
  [document, feature, rule, background, scenario, examples, step, table, tableRow, tableCell,
    docString, text, tags, description]

def name : ViewType → String
  | document => "Document"
  | feature => "Feature"
  | rule => "Rule"
  | background => "Background"
  | scenario => "Scenario"
  | examples => "Examples"
  | step => "Step"
  | table => "Table"
  | tableRow => "TableRow"
  | tableCell => "TableCell"
  | docString => "DocString"
  | text => "Text"
  | tags => "Tags"
  | description => "Description"

/-- The kinds of nodes that a view can be of. -/
def accepts : ViewType → Kind → Bool
  | document, .document | feature, .feature | rule, .rule | background, .background
  | scenario, .scenario | examples, .examples | step, .step | table, .table
  | tableRow, .tableRow | tableCell, .tableCell | docString, .docString
  | text, .literalText | text, .interpolatedText | tags, .tags | description, .description => true
  | _, _ => false

end ViewType

/-- A node seen as what its kind says it is. -/
structure View (v : ViewType) where
  node : PlacedNode
  fits : v.accepts node.kind = true

namespace View

/-- The node as a view of the type, if its kind fits. -/
def cast? (v : ViewType) (n : PlacedNode) : Option (View v) :=
  if h : v.accepts n.kind = true then some ⟨n, h⟩ else none

/-- The child nodes that fit a type. -/
def childrenOf (v : ViewType) (n : PlacedNode) : List (View v) := n.childNodes.filterMap (cast? v)

/-- The first child node that fits a type. -/
def childOf? (v : ViewType) (n : PlacedNode) : Option (View v) := (childrenOf v n).head?

/-- The names of all placeholders under a node. -/
def placeholdersUnder (n : PlacedNode) : List Text :=
  (n.descendantTokens.filter (·.kind == .identifierToken)).map (·.token.text)

end View

end GherkinTree
