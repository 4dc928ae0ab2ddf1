import GherkinTree.Source
import GherkinTree.Tree.Basic

/-!
Trees with positions. A placed node knows its byte offset, its index among the children of its
parent, and its ancestors; children are placed one behind the other from the offset of their
parent on. Two placed nodes count as the same if they hold equal trees at equal offsets.
-/

namespace GherkinTree

/-- A node of a tree, where it begins and which child it is. -/
structure Site where
  node : Node
  offset : Nat
  index : Nat

/-- A site together with the sites above it, the nearest first. -/
structure PlacedNode extends Site where
  above : List Site

/-- A token with the node that holds it. -/
structure PlacedToken where
  token : Token
  offset : Nat
  index : Nat
  parent : PlacedNode

inductive PlacedElement where
  | node (n : PlacedNode)
  | token (t : PlacedToken)

namespace PlacedToken

def kind (t : PlacedToken) : Kind := t.token.kind

/-- The bytes of the token and its trivia. -/
def fullSpan (t : PlacedToken) : Span := .ofWidth t.offset t.token.fullWidth

/-- The bytes of the text alone. -/
def span (t : PlacedToken) : Span := .ofWidth (t.offset + t.token.leadingWidth) t.token.width

/-- The spans of pieces that stand one behind the other. -/
def triviaSpans (offset : Nat) : List Trivia → List Span
  | [] => []
  | p :: ps => .ofWidth offset p.width :: triviaSpans (offset + p.width) ps

def leadingSpans (t : PlacedToken) : List Span := triviaSpans t.offset t.token.leading

def trailingSpans (t : PlacedToken) : List Span := triviaSpans t.span.stop t.token.trailing

/-- Whether two tokens are equal and begin at the same offset. -/
def same (a b : PlacedToken) : Bool := a.offset == b.offset && a.token == b.token

end PlacedToken

namespace PlacedNode

/-- A tree that begins at offset zero. -/
def root (n : Node) : PlacedNode := ⟨⟨n, 0, 0⟩, []⟩

def kind (n : PlacedNode) : Kind := n.node.kind

def size (n : PlacedNode) : Nat := n.node.size

def parent? (n : PlacedNode) : Option PlacedNode :=
  match n.above with
  | [] => none
  | s :: ss => some ⟨s, ss⟩

/-- The parent, its parent and so on up to the root. -/
def ancestors (n : PlacedNode) : List PlacedNode := chain n.above
where
  chain : List Site → List PlacedNode
    | [] => []
    | s :: ss => ⟨s, ss⟩ :: chain ss

/-- The bytes of the node, the trivia at both ends included. -/
def fullSpan (n : PlacedNode) : Span := .ofWidth n.offset n.node.fullWidth

/-- A child that begins at an offset. -/
def child (n : PlacedNode) (offset index : Nat) : Element → PlacedElement
  | .token t => .token ⟨t, offset, index, n⟩
  | .node kind children => .node ⟨⟨⟨kind, children⟩, offset, index⟩, n.toSite :: n.above⟩

/-- Children from an offset and an index on. -/
def childrenFrom (n : PlacedNode) (offset index : Nat) : List Element → List PlacedElement
  | [] => []
  | e :: es => n.child offset index e :: n.childrenFrom (offset + e.fullWidth) (index + 1) es

/-- The children in source order. -/
def children (n : PlacedNode) : List PlacedElement := n.childrenFrom n.offset 0 n.node.children

end PlacedNode

namespace PlacedElement

def kind : PlacedElement → Kind
  | node n => n.kind
  | token t => t.kind

def fullSpan : PlacedElement → Span
  | node n => n.fullSpan
  | token t => t.fullSpan

def size : PlacedElement → Nat
  | node n => n.size
  | token _ => 1

def node? : PlacedElement → Option PlacedNode
  | node n => some n
  | token _ => none

def token? : PlacedElement → Option PlacedToken
  | token t => some t
  | node _ => none

/-- The number of elements of several trees. -/
def sizeSum : List PlacedElement → Nat
  | [] => 0
  | e :: es => e.size + sizeSum es

@[simp] theorem sizeSum_nil : sizeSum [] = 0 := rfl
@[simp] theorem sizeSum_cons (e : PlacedElement) (es : List PlacedElement) :
    sizeSum (e :: es) = e.size + sizeSum es := rfl
@[simp] theorem sizeSum_append (as bs : List PlacedElement) :
    sizeSum (as ++ bs) = sizeSum as + sizeSum bs := by
  induction as with
  | nil => simp
  | cons a as ih => simp [ih, Nat.add_assoc]

theorem size_le_sizeSum {e : PlacedElement} {es : List PlacedElement} (h : e ∈ es) :
    e.size ≤ sizeSum es := by
  induction es with
  | nil => cases h
  | cons a as ih =>
    rcases List.mem_cons.1 h with rfl | h
    · simp
    · have := ih h
      simp
      omega

end PlacedElement

namespace PlacedNode

open PlacedElement (sizeSum size_le_sizeSum)

@[simp] theorem size_child (n : PlacedNode) (o i : Nat) (e : Element) :
    (n.child o i e).size = e.size := by
  cases e <;> simp [child, PlacedElement.size, size, Node.size]

theorem sizeSum_childrenFrom (n : PlacedNode) (o i : Nat) (es : List Element) :
    sizeSum (n.childrenFrom o i es) = Element.sizeAll es := by
  induction es generalizing o i with
  | nil => simp [childrenFrom]
  | cons e es ih => simp [childrenFrom, ih]

/-- A node has one element more than its children. -/
theorem size_eq (n : PlacedNode) : n.size = 1 + sizeSum n.children := by
  simp [children, sizeSum_childrenFrom, size, Node.size]

theorem size_lt_of_mem {n m : PlacedNode} (h : .node m ∈ n.children) : m.size < n.size := by
  have := size_le_sizeSum h
  simp only [PlacedElement.size] at this
  have := n.size_eq
  omega

/-- The children that are nodes. -/
def childNodes (n : PlacedNode) : List PlacedNode := n.children.filterMap PlacedElement.node?

/-- The children that are tokens. -/
def childTokens (n : PlacedNode) : List PlacedToken := n.children.filterMap PlacedElement.token?

theorem mem_children_of_mem_childNodes {n m : PlacedNode} (h : m ∈ n.childNodes) :
    .node m ∈ n.children := by
  obtain ⟨e, he, hm⟩ := List.mem_filterMap.1 h
  cases e with
  | node _ => cases hm; exact he
  | token _ => cases hm

/-- The first child node of a kind. -/
def childNode? (n : PlacedNode) (k : Kind) : Option PlacedNode := n.childNodes.find? (·.kind == k)

/-- The first child token of a kind. -/
def childToken? (n : PlacedNode) (k : Kind) : Option PlacedToken :=
  n.childTokens.find? (·.kind == k)

/-- The number of elements of several trees. -/
def sizeSumNodes : List PlacedNode → Nat
  | [] => 0
  | n :: ns => n.size + sizeSumNodes ns

theorem sizeSumNodes_append (as bs : List PlacedNode) :
    sizeSumNodes (as ++ bs) = sizeSumNodes as + sizeSumNodes bs := by
  induction as with
  | nil => simp [sizeSumNodes]
  | cons a as ih => simp [sizeSumNodes, ih, Nat.add_assoc]

theorem sizeSumNodes_filterMap_le (es : List PlacedElement) :
    sizeSumNodes (es.filterMap PlacedElement.node?) ≤ sizeSum es := by
  induction es with
  | nil => simp [sizeSumNodes]
  | cons e es ih =>
    cases e with
    | node m =>
      simp [sizeSumNodes, PlacedElement.node?, PlacedElement.size] at ih ⊢
      omega
    | token t =>
      simp [List.filterMap_cons, PlacedElement.node?, PlacedElement.size]
      omega

theorem sizeSumNodes_childNodes_lt (n : PlacedNode) : sizeSumNodes n.childNodes < n.size := by
  have := sizeSumNodes_filterMap_le n.children
  have := n.size_eq
  unfold childNodes
  omega

/-- The nodes under the nodes of a stack, each before what is under it. -/
def walkNodes : List PlacedNode → List PlacedNode
  | [] => []
  | n :: stack => n :: walkNodes (n.childNodes ++ stack)
termination_by stack => sizeSumNodes stack
decreasing_by
  have := sizeSumNodes_childNodes_lt n
  simp only [sizeSumNodes_append, sizeSumNodes]
  omega

/-- The node and all nodes under it, each before what is under it. -/
def descendants (n : PlacedNode) : List PlacedNode := walkNodes [n]

/-- The tokens under the elements of a stack, in source order. -/
def walkTokens : List PlacedElement → List PlacedToken
  | [] => []
  | .token t :: stack => t :: walkTokens stack
  | .node n :: stack => walkTokens (n.children ++ stack)
termination_by stack => sizeSum stack
decreasing_by
  · simp [PlacedElement.size]
  · have := n.size_eq
    simp [PlacedElement.size]
    omega

/-- The tokens under the node, in source order. -/
def descendantTokens (n : PlacedNode) : List PlacedToken := walkTokens [.node n]

/-- The token reached by going to the first child as long as there is one. -/
def firstToken? (n : PlacedNode) : Option PlacedToken :=
  match _h : n.children.head? with
  | none => none
  | some (.token t) => some t
  | some (.node m) => m.firstToken?
termination_by n.size
decreasing_by exact size_lt_of_mem (List.mem_of_mem_head? _h)

/-- The token reached by going to the last child as long as there is one. -/
def lastToken? (n : PlacedNode) : Option PlacedToken :=
  match _h : n.children.getLast? with
  | none => none
  | some (.token t) => some t
  | some (.node m) => m.lastToken?
termination_by n.size
decreasing_by exact size_lt_of_mem (List.mem_of_getLast? _h)

/-- The bytes from the text of the first token to the text of the last. -/
def span (n : PlacedNode) : Span :=
  let start := (n.firstToken?.map (·.span.start)).getD n.fullSpan.start
  let stop := (n.lastToken?.map (·.span.stop)).getD n.fullSpan.stop
  ⟨start, max stop start, Nat.le_max_right ..⟩

/-- The text of the node with all its trivia. -/
def fullText (n : PlacedNode) : Text := n.node.render

/-- The text of the node without the trivia at its ends. -/
def text (n : PlacedNode) : Text :=
  (do Text.takeBytes? (← n.fullText.dropBytes? (n.span.start - n.offset)) n.span.width).getD []

/-- The token whose full span contains an offset. The end of the node belongs to its last
token. -/
def tokenAt? (n : PlacedNode) (offset : Nat) : Option PlacedToken :=
  if offset = n.fullSpan.stop then n.lastToken?
  else if n.fullSpan.contains offset then
    match _h : n.children.find? (·.fullSpan.contains offset) with
    | none => none
    | some (.token t) => some t
    | some (.node m) => m.tokenAt? offset
  else none
termination_by n.size
decreasing_by exact size_lt_of_mem (List.mem_of_find?_eq_some _h)

/-- The deepest node under this one whose full span contains a span. -/
def covering (n : PlacedNode) (s : Span) : PlacedNode :=
  match _h : n.childNodes.find? fun m => m.fullSpan.containsSpan s && !m.fullSpan.isEmpty with
  | none => n
  | some m => m.covering s
termination_by n.size
decreasing_by exact size_lt_of_mem (mem_children_of_mem_childNodes (List.mem_of_find?_eq_some _h))

/-- Whether two nodes hold equal trees and begin at the same offset. -/
def same (a b : PlacedNode) : Bool := a.offset == b.offset && a.node == b.node

end PlacedNode

namespace PlacedElement

def span : PlacedElement → Span
  | node n => n.span
  | token t => t.span

end PlacedElement

end GherkinTree
