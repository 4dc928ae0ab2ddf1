import GherkinTree.Diagnostic
import GherkinTree.Text.Quoted
import GherkinTree.Tree.Placed

/-!
Debugging forms: labels of nodes and tokens, the indented outline of a tree, and the nested form of
trees and diagnostics that spells out every field.
-/

namespace GherkinTree

/-- A record with its fields, each given by its name and its value. -/
def debugRecord (name : String) (fields : List (String × Text)) : Text :=
  name.toList ++ " \x7b ".toList ++
    List.intercalate ", ".toList (fields.map fun f => f.1.toList ++ ": ".toList ++ f.2) ++
    " \x7d".toList

def debugList (items : List Text) : Text :=
  '[' :: List.intercalate ", ".toList items ++ [']']

def Trivia.label (t : Trivia) : Text :=
  t.kind.name.toList ++ '(' :: Quoted.text t.text ++ [')']

/-- The kind and the text of a token. -/
def Token.label (t : Token) : Text :=
  t.kind.name.toList ++ if t.missing then " (missing)".toList else ' ' :: Quoted.text t.text

/-- The kind, the place, the text and the trivia of a token. -/
def PlacedToken.label (t : PlacedToken) : Text :=
  t.kind.name.toList ++ '@' :: t.span.render.toList ++
    (if t.token.missing then " (missing)".toList else ' ' :: Quoted.text t.token.text) ++
    (t.token.leading.flatMap fun p => " <".toList ++ p.label) ++
    (t.token.trailing.flatMap fun p => " >".toList ++ p.label)

/-- The kind of a node and the place of the node with its trivia. -/
def PlacedNode.label (n : PlacedNode) : Text :=
  n.kind.name.toList ++ '@' :: n.fullSpan.render.toList

/-- A tree as an indented outline, one element a line. -/
def PlacedNode.outline (depth : Nat) (n : PlacedNode) : Text :=
  List.replicate (2 * depth) ' ' ++ n.label ++ '\n' ::
    n.children.attach.flatMap fun
      | ⟨.node m, _⟩ => m.outline (depth + 1)
      | ⟨.token t, _⟩ => List.replicate (2 * (depth + 1)) ' ' ++ t.label ++ ['\n']
termination_by n.size
decreasing_by exact PlacedNode.size_lt_of_mem (by assumption)

mutual

/-- The nested form of an element. -/
def Element.debug : Element → Text
  | .token t => "Token(".toList ++ t.label ++ [')']
  | .node kind children =>
    "Node(".toList ++
      debugRecord "GreenNode" [("kind", kind.name.toList),
        ("full_width", (toString (Element.fullWidthAll children)).toList),
        ("children", debugList (Element.debugAll children))] ++ [')']

def Element.debugAll : List Element → List Text
  | [] => []
  | e :: es => e.debug :: Element.debugAll es

end

/-- The nested form of a tree. -/
def Node.debug (n : Node) : Text :=
  debugRecord "GreenNode" [("kind", n.kind.name.toList),
    ("full_width", (toString n.fullWidth).toList),
    ("children", debugList (Element.debugAll n.children))]

def Span.debug (s : Span) : Text :=
  debugRecord "Span" [("start", (toString s.start).toList), ("end", (toString s.stop).toList)]

def Problem.debug : Problem → Text
  | missingToken k => debugRecord "MissingToken" [("expected", k.name.toList)]
  | unexpectedContent found =>
    debugRecord "UnexpectedContent" [("found", Quoted.text found.toList)]
  | unknownLanguage code => debugRecord "UnknownLanguage" [("code", Quoted.text code.toList)]

def Diagnostic.debug (d : Diagnostic) : Text :=
  debugRecord "Diagnostic" [("span", d.span.debug), ("severity", d.severity.label.toList),
    ("kind", d.problem.debug)]

end GherkinTree
