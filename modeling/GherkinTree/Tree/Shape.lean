import GherkinTree.Tree.Basic

/-!
The shapes of the grammar: each kind of node is put together from named parts, and the parts fix
the order of the children.
-/

namespace GherkinTree

/-- The parts that the header of every section has. -/
structure Header where
  tags : Option Node
  keyword : Token
  colon : Token
  name : Option Node
  description : Option Node

namespace Node

/-- An optional node as a list of children. -/
def optional (n : Option Node) : List Element := n.toList.map toElement

end Node

def Header.elements (h : Header) : List Element :=
  Node.optional h.tags ++ [.token h.keyword, .token h.colon] ++ Node.optional h.name ++
    Node.optional h.description

namespace Node

def ofDocument (feature : Option Node) (eof : Token) : Node :=
  ⟨.document, optional feature ++ [.token eof]⟩

def ofFeature (h : Header) (background : Option Node) (scenarios rules : List Node) : Node :=
  ⟨.feature,
    h.elements ++ optional background ++ scenarios.map toElement ++ rules.map toElement⟩

def ofRule (h : Header) (background : Option Node) (scenarios : List Node) : Node :=
  ⟨.rule, h.elements ++ optional background ++ scenarios.map toElement⟩

def ofBackground (h : Header) (steps : List Node) : Node :=
  ⟨.background, h.elements ++ steps.map toElement⟩

def ofScenario (h : Header) (steps examples : List Node) : Node :=
  ⟨.scenario, h.elements ++ steps.map toElement ++ examples.map toElement⟩

def ofExamples (h : Header) (table : Option Node) : Node :=
  ⟨.examples, h.elements ++ optional table⟩

def ofTags (tags : List Token) : Node := ⟨.tags, tags.map .token⟩

def ofDescription (lines : List Token) : Node := ⟨.description, lines.map .token⟩

def ofStep (keyword : Token) (text : Node) (argument : Option Node) : Node :=
  ⟨.step, .token keyword :: text.toElement :: optional argument⟩

def ofTable (rows : List Node) : Node := ⟨.table, rows.map toElement⟩

/-- A row is its first bar and, for each cell, the cell and the bar behind it. -/
def ofRow (bar : Token) (cells : List (Node × Token)) : Node :=
  ⟨.tableRow, .token bar :: cells.flatMap fun c => [c.1.toElement, .token c.2]⟩

def ofCell (content : Element) : Node := ⟨.tableCell, [content]⟩

def ofDocString (first : Token) (contentType content : Option Node) (last : Token) : Node :=
  ⟨.docString, .token first :: optional contentType ++ optional content ++ [.token last]⟩

def ofContentType (t : Token) : Node := ⟨.docStringContentType, [.token t]⟩

def ofLiterals (tokens : List Token) : Node := ⟨.literalText, tokens.map .token⟩

def ofParts (parts : List Element) : Node := ⟨.interpolatedText, parts⟩

def ofPlaceholder (less name greater : Token) : Node :=
  ⟨.interpolation, [.token less, .token name, .token greater]⟩

end Node

end GherkinTree
