import GherkinTree.Kind
import GherkinTree.Trivia

/-!
Trees without positions. A token carries its text and the trivia on both sides of it, and a tree
is its tokens under inner nodes, so that writing all tokens in order gives back the source. A
token that the grammar requires and the source lacks is present as a missing token without text.
-/

namespace GherkinTree

/-- A leaf. `decoded` is the value of the text where escapes make it differ from the text. -/
structure Token where
  kind : Kind
  text : Text
  decoded : Option Text
  leading : List Trivia
  trailing : List Trivia
  missing : Bool
  deriving DecidableEq, Repr

namespace Token

/-- A token that stands for its own text. -/
def plain (kind : Kind) (text : Text) (leading trailing : List Trivia) : Token :=
  ⟨kind, text, none, leading, trailing, false⟩

/-- A token that stands for a value; the value is kept only where it differs from the text. -/
def literal (kind : Kind) (text value : Text) (leading trailing : List Trivia) : Token :=
  ⟨kind, text, if value = text then none else some value, leading, trailing, false⟩

/-- A token that the source lacks. -/
def absent (kind : Kind) (leading trailing : List Trivia) : Token :=
  ⟨kind, [], none, leading, trailing, true⟩

/-- What the token stands for. -/
def value (t : Token) : Text := t.decoded.getD t.text

@[simp] theorem value_plain (k : Kind) (t : Text) (l r : List Trivia) :
    (plain k t l r).value = t := rfl

@[simp] theorem value_literal (k : Kind) (t v : Text) (l r : List Trivia) :
    (literal k t v l r).value = v := by
  by_cases h : v = t <;> simp [literal, value, h]

def width (t : Token) : Nat := Text.width t.text

def leadingWidth (t : Token) : Nat := Trivia.widthOf t.leading

def trailingWidth (t : Token) : Nat := Trivia.widthOf t.trailing

def fullWidth (t : Token) : Nat := t.leadingWidth + t.width + t.trailingWidth

/-- The text of the token and its trivia. -/
def render (t : Token) : Text := Trivia.render t.leading ++ t.text ++ Trivia.render t.trailing

@[simp] theorem width_render (t : Token) : Text.width t.render = t.fullWidth := by
  simp [render, fullWidth, leadingWidth, width, trailingWidth, Nat.add_assoc]

end Token

/-- A leaf or an inner node with its children in source order. -/
inductive Element where
  | token (t : Token)
  | node (kind : Kind) (children : List Element)
  deriving Repr

/-- An inner node. -/
structure Node where
  kind : Kind
  children : List Element
  deriving Repr

namespace Element

mutual

/-- Equality of trees is decidable. -/
def decEq : (a b : Element) → Decidable (a = b)
  | token t, token u =>
    if h : t = u then isTrue (h ▸ rfl) else isFalse fun e => h (Element.token.inj e)
  | node k cs, node l ds =>
    if h : k = l then
      match decEqs cs ds with
      | isTrue hc => isTrue (h ▸ hc ▸ rfl)
      | isFalse hc => isFalse fun e => hc (Element.node.inj e).2
    else isFalse fun e => h (Element.node.inj e).1
  | token _, node .. => isFalse nofun
  | node .., token _ => isFalse nofun

def decEqs : (as bs : List Element) → Decidable (as = bs)
  | [], [] => isTrue rfl
  | [], _ :: _ => isFalse nofun
  | _ :: _, [] => isFalse nofun
  | a :: as, b :: bs =>
    match decEq a b with
    | isFalse h => isFalse fun e => h (List.cons.inj e).1
    | isTrue h =>
      match decEqs as bs with
      | isFalse hs => isFalse fun e => hs (List.cons.inj e).2
      | isTrue hs => isTrue (h ▸ hs ▸ rfl)

end

instance : DecidableEq Element := decEq

mutual

/-- The text of all tokens under the element and of their trivia. -/
def render : Element → Text
  | token t => t.render
  | node _ cs => renderAll cs

def renderAll : List Element → Text
  | [] => []
  | e :: es => e.render ++ renderAll es

end

mutual

/-- The number of bytes of `render`. -/
def fullWidth : Element → Nat
  | token t => t.fullWidth
  | node _ cs => fullWidthAll cs

def fullWidthAll : List Element → Nat
  | [] => 0
  | e :: es => e.fullWidth + fullWidthAll es

end

mutual

/-- The number of elements of the tree, itself included. -/
def size : Element → Nat
  | token _ => 1
  | node _ cs => 1 + sizeAll cs

def sizeAll : List Element → Nat
  | [] => 0
  | e :: es => e.size + sizeAll es

end

attribute [simp] render renderAll fullWidth fullWidthAll size sizeAll

mutual

theorem width_render : (e : Element) → Text.width e.render = e.fullWidth
  | token t => by simp
  | node _ cs => by simpa using width_renderAll cs

theorem width_renderAll : (es : List Element) → Text.width (renderAll es) = fullWidthAll es
  | [] => by simp
  | e :: es => by simp [width_render e, width_renderAll es]

end

def kind : Element → Kind
  | token t => t.kind
  | node k _ => k

end Element

namespace Node

instance : DecidableEq Node := fun a b =>
  decidable_of_iff (a.kind = b.kind ∧ a.children = b.children)
    ⟨fun h => by cases a; cases b; simp_all, fun h => h ▸ ⟨rfl, rfl⟩⟩

def toElement (n : Node) : Element := .node n.kind n.children

def render (n : Node) : Text := Element.renderAll n.children

def fullWidth (n : Node) : Nat := Element.fullWidthAll n.children

def size (n : Node) : Nat := 1 + Element.sizeAll n.children

@[simp] theorem width_render (n : Node) : Text.width n.render = n.fullWidth :=
  Element.width_renderAll n.children

@[simp] theorem render_toElement (n : Node) : n.toElement.render = n.render := by
  simp [toElement, render]

end Node

end GherkinTree
