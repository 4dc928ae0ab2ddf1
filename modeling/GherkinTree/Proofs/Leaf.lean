import GherkinTree.FeatureFile

/-!
The leaves of a tree in source order. A leaf is a token, or the whole text between the fences of a
doc string, which holds several tokens in an outline. Main statements: the tokens that a walk of a
placed node finds are the tokens of its leaves, one behind the other from the offset of the node
on, and the bodies of doc strings that it finds are those of its leaves.
-/

namespace GherkinTree

namespace Token

/-- The text of several tokens and of their trivia. -/
def renderAll (ts : List Token) : Text := ts.flatMap render

@[simp] theorem renderAll_nil : renderAll [] = [] := rfl
@[simp] theorem renderAll_cons (t : Token) (ts : List Token) :
    renderAll (t :: ts) = t.render ++ renderAll ts := rfl
@[simp] theorem renderAll_append (ts us : List Token) :
    renderAll (ts ++ us) = renderAll ts ++ renderAll us := List.flatMap_append

/-- The number of bytes of several tokens and of their trivia. -/
def widthAll (ts : List Token) : Nat := Text.width (renderAll ts)

@[simp] theorem widthAll_nil : widthAll [] = 0 := rfl
@[simp] theorem widthAll_cons (t : Token) (ts : List Token) :
    widthAll (t :: ts) = t.fullWidth + widthAll ts := by simp [widthAll]
@[simp] theorem widthAll_append (ts us : List Token) :
    widthAll (ts ++ us) = widthAll ts + widthAll us := by simp [widthAll]

/-- Tokens that stand one behind the other, each with the offset at which it begins. -/
def sites (offset : Nat) : List Token → List (Nat × Token)
  | [] => []
  | t :: ts => (offset, t) :: sites (offset + t.fullWidth) ts

@[simp] theorem sites_nil (o : Nat) : sites o [] = [] := rfl
@[simp] theorem sites_cons (o : Nat) (t : Token) (ts : List Token) :
    sites o (t :: ts) = (o, t) :: sites (o + t.fullWidth) ts := rfl

theorem sites_append (o : Nat) (ts us : List Token) :
    sites o (ts ++ us) = sites o ts ++ sites (o + widthAll ts) us := by
  induction ts generalizing o with
  | nil => simp
  | cons t ts ih => simp [ih, Nat.add_assoc]

theorem renderAll_sites (o : Nat) (ts : List Token) :
    (sites o ts).flatMap (fun x => x.2.render) = renderAll ts := by
  induction ts generalizing o with
  | nil => rfl
  | cons t ts ih => simp [ih]

theorem mem_of_mem_sites {o : Nat} {ts : List Token} {x : Nat × Token} (h : x ∈ sites o ts) :
    x.2 ∈ ts := by
  induction ts generalizing o with
  | nil => cases h
  | cons t ts ih =>
    rcases List.mem_cons.1 h with rfl | h
    · exact List.mem_cons_self
    · exact List.mem_cons_of_mem t (ih h)

/-- A token lies within the bytes of the tokens it stands among. -/
theorem bounds_of_mem_sites {o : Nat} {ts : List Token} {x : Nat × Token} (h : x ∈ sites o ts) :
    o ≤ x.1 ∧ x.1 + x.2.fullWidth ≤ o + widthAll ts := by
  induction ts generalizing o with
  | nil => cases h
  | cons t ts ih =>
    rw [widthAll_cons]
    rcases List.mem_cons.1 h with rfl | h
    · dsimp only
      omega
    · have := ih h
      omega

end Token

namespace Element

mutual

/-- The tokens under an element, in source order. -/
def tokens : Element → List Token
  | token t => [t]
  | node _ cs => tokensAll cs

def tokensAll : List Element → List Token
  | [] => []
  | e :: es => e.tokens ++ tokensAll es

end

@[simp] theorem tokens_token (t : Token) : (token t).tokens = [t] := by simp [tokens]
@[simp] theorem tokens_node (k : Kind) (cs : List Element) :
    (node k cs).tokens = tokensAll cs := by simp [tokens]
@[simp] theorem tokensAll_nil : tokensAll [] = [] := by simp [tokensAll]
@[simp] theorem tokensAll_cons (e : Element) (es : List Element) :
    tokensAll (e :: es) = e.tokens ++ tokensAll es := by simp [tokensAll]

theorem tokensAll_append (as bs : List Element) :
    tokensAll (as ++ bs) = tokensAll as ++ tokensAll bs := by
  induction as with
  | nil => simp
  | cons a as ih => simp [ih]

mutual

theorem renderAll_tokens : (e : Element) → Token.renderAll e.tokens = e.render
  | token t => by simp
  | node _ cs => by simpa using renderAll_tokensAll cs

theorem renderAll_tokensAll : (es : List Element) → Token.renderAll (tokensAll es) = renderAll es
  | [] => by simp
  | e :: es => by simp [renderAll_tokens e, renderAll_tokensAll es]

end

theorem widthAll_tokens (e : Element) : Token.widthAll e.tokens = e.fullWidth := by
  rw [Token.widthAll, renderAll_tokens, width_render]

theorem widthAll_tokensAll (es : List Element) :
    Token.widthAll (tokensAll es) = fullWidthAll es := by
  rw [Token.widthAll, renderAll_tokensAll, width_renderAll]

/-- Whether an element is a node of text. -/
def isText : Element → Bool
  | token _ => false
  | node k _ => ViewType.text.accepts k

@[simp] theorem isText_token (t : Token) : (token t).isText = false := rfl

/-- The spans of the text nodes among children that begin at an offset. -/
def textSpans (offset : Nat) : List Element → List Span
  | [] => []
  | e :: es =>
    (if e.isText then [Span.ofWidth offset e.fullWidth] else []) ++
      textSpans (offset + e.fullWidth) es

mutual

/-- The spans between the fences of the doc strings of an element that begins at an offset, those
of an outer doc string first. -/
def bodies (offset : Nat) : Element → List Span
  | token _ => []
  | node k cs => (if k = .docString then textSpans offset cs else []) ++ bodiesAll offset cs

def bodiesAll (offset : Nat) : List Element → List Span
  | [] => []
  | e :: es => e.bodies offset ++ bodiesAll (offset + e.fullWidth) es

end

@[simp] theorem bodies_token (o : Nat) (t : Token) : (token t).bodies o = [] := by simp [bodies]
@[simp] theorem bodiesAll_nil (o : Nat) : bodiesAll o [] = [] := by simp [bodiesAll]
@[simp] theorem bodiesAll_cons (o : Nat) (e : Element) (es : List Element) :
    bodiesAll o (e :: es) = e.bodies o ++ bodiesAll (o + e.fullWidth) es := by simp [bodiesAll]

theorem bodies_node (o : Nat) (k : Kind) (cs : List Element) :
    (node k cs).bodies o =
      (if k = .docString then textSpans o cs else []) ++ bodiesAll o cs := by
  simp only [bodies]

theorem bodiesAll_append (o : Nat) (as bs : List Element) :
    bodiesAll o (as ++ bs) = bodiesAll o as ++ bodiesAll (o + fullWidthAll as) bs := by
  induction as generalizing o with
  | nil => simp [fullWidthAll]
  | cons a as ih => simp [fullWidthAll, ih, Nat.add_assoc]

end Element

namespace DocStringView

/-- The bytes between the fences, if there are any. -/
def contentSpans (d : DocStringView) : List Span :=
  (View.childrenOf .text d.node).map (·.node.fullSpan)

end DocStringView

/-- The bytes between the fences of each doc string of the document. -/
def FeatureFile.bodies (f : FeatureFile) : List Span :=
  (f.root.descendants.filterMap (View.cast? .docString)).flatMap DocStringView.contentSpans

namespace PlacedToken

/-- A token and the offset at which it begins. -/
def site (t : PlacedToken) : Nat × Token := (t.offset, t.token)

end PlacedToken

namespace PlacedElement

/-- The tokens under an element. -/
def sites : PlacedElement → List (Nat × Token)
  | node n => Token.sites n.offset (Element.tokensAll n.node.children)
  | token t => [t.site]

end PlacedElement

namespace PlacedNode

theorem sites_childrenFrom (n : PlacedNode) (o i : Nat) (es : List Element) :
    (n.childrenFrom o i es).flatMap PlacedElement.sites = Token.sites o (Element.tokensAll es) := by
  induction es generalizing o i with
  | nil => simp [childrenFrom]
  | cons e es ih =>
    have he : (n.child o i e).sites = Token.sites o e.tokens := by
      cases e <;> simp [child, PlacedElement.sites, PlacedToken.site]
    simp [childrenFrom, ih, he, Token.sites_append, Element.widthAll_tokens]

theorem sites_walkTokens (stack : List PlacedElement) :
    (walkTokens stack).map PlacedToken.site = stack.flatMap PlacedElement.sites := by
  fun_induction walkTokens stack with
  | case1 => rfl
  | case2 t stack ih => simp [ih, PlacedElement.sites]
  | case3 n stack ih =>
    rw [ih, List.flatMap_append, List.flatMap_cons]
    congr 1
    exact sites_childrenFrom n n.offset 0 n.node.children

/-- The tokens under a node stand one behind the other from its offset on. -/
theorem sites_descendantTokens (n : PlacedNode) :
    n.descendantTokens.map PlacedToken.site =
      Token.sites n.offset (Element.tokensAll n.node.children) := by
  simp [descendantTokens, sites_walkTokens, PlacedElement.sites]

/-- The bodies of the doc string that a node is. -/
def ownBodies (n : PlacedNode) : List Span :=
  ((View.cast? .docString n).map DocStringView.contentSpans).getD []

theorem textSpans_childrenFrom (n : PlacedNode) (o i : Nat) (es : List Element) :
    (((n.childrenFrom o i es).filterMap PlacedElement.node?).filterMap (View.cast? .text)).map
      (·.node.fullSpan) = Element.textSpans o es := by
  induction es generalizing o i with
  | nil => simp [childrenFrom, Element.textSpans]
  | cons e es ih =>
    cases e with
    | token t =>
      simpa [childrenFrom, child, PlacedElement.node?, List.filterMap_cons, Element.textSpans,
        Element.isText] using ih _ _
    | node k cs =>
      by_cases h : ViewType.text.accepts k = true
      · simpa [childrenFrom, child, PlacedElement.node?, Element.textSpans, Element.isText, h,
          View.cast?, kind, fullSpan, Node.fullWidth] using ih _ _
      · simpa [childrenFrom, child, PlacedElement.node?, Element.textSpans, Element.isText, h,
          View.cast?, kind, List.filterMap_cons] using ih _ _

theorem ownBodies_eq (n : PlacedNode) :
    n.ownBodies =
      if n.node.kind = .docString then Element.textSpans n.offset n.node.children else [] := by
  have hk : ViewType.docString.accepts n.kind = true ↔ n.node.kind = .docString := by
    unfold kind
    cases n.node.kind <;> simp [ViewType.accepts]
  by_cases h : n.node.kind = .docString
  · rw [if_pos h, ← textSpans_childrenFrom n n.offset 0]
    simp [ownBodies, View.cast?, hk.2 h, DocStringView.contentSpans, View.childrenOf, childNodes,
      children]
  · simp [ownBodies, View.cast?, hk, h]

theorem bodies_childrenFrom (n : PlacedNode) (o i : Nat) (es : List Element) :
    ((n.childrenFrom o i es).filterMap PlacedElement.node?).flatMap
      (fun m => m.node.toElement.bodies m.offset) = Element.bodiesAll o es := by
  induction es generalizing o i with
  | nil => simp [childrenFrom]
  | cons e es ih =>
    cases e with
    | token t =>
      simpa [childrenFrom, child, PlacedElement.node?, List.filterMap_cons] using ih _ _
    | node k cs =>
      simpa [childrenFrom, child, PlacedElement.node?, Node.toElement] using ih _ _

theorem bodies_walkNodes (stack : List PlacedNode) :
    (walkNodes stack).flatMap ownBodies =
      stack.flatMap fun n => n.node.toElement.bodies n.offset := by
  fun_induction walkNodes stack with
  | case1 => rfl
  | case2 n stack ih =>
    rw [List.flatMap_cons, ih, List.flatMap_append, List.flatMap_cons, ← List.append_assoc]
    congr 1
    rw [Node.toElement, Element.bodies_node, ownBodies_eq, childNodes, children,
      bodies_childrenFrom]

end PlacedNode

theorem FeatureFile.bodies_eq_flatMap (f : FeatureFile) :
    f.bodies = f.root.descendants.flatMap PlacedNode.ownBodies := by
  rw [bodies, PlacedNode.descendants]
  induction PlacedNode.walkNodes [f.root] with
  | nil => rfl
  | cons n ns ih =>
    rw [List.flatMap_cons, ← ih, PlacedNode.ownBodies]
    cases hn : View.cast? .docString n <;> simp [hn]

/-- The bodies of a document are those of its tree from offset zero on. -/
theorem FeatureFile.bodies_eq (f : FeatureFile) : f.bodies = f.tree.toElement.bodies 0 := by
  rw [f.bodies_eq_flatMap, PlacedNode.descendants, PlacedNode.bodies_walkNodes]
  simp [root, PlacedNode.root]

/-- A leaf of a tree: a token, or the text between the fences of a doc string. -/
inductive Leaf where
  | token (t : Token)
  | content (e : Element)

namespace Leaf

def tokens : Leaf → List Token
  | token t => [t]
  | content e => e.tokens

/-- The tokens of several leaves. -/
def tokensAll (ls : List Leaf) : List Token := ls.flatMap tokens

@[simp] theorem tokensAll_nil : tokensAll [] = [] := rfl
@[simp] theorem tokensAll_cons (l : Leaf) (ls : List Leaf) :
    tokensAll (l :: ls) = l.tokens ++ tokensAll ls := rfl
@[simp] theorem tokensAll_append (ls ms : List Leaf) :
    tokensAll (ls ++ ms) = tokensAll ls ++ tokensAll ms := List.flatMap_append
@[simp] theorem tokensAll_map_token (ts : List Token) : tokensAll (ts.map token) = ts := by
  induction ts with
  | nil => rfl
  | cons t ts ih => simp [ih, tokens]

/-- The spans of the doc string bodies among leaves that begin at an offset. -/
def bodies (offset : Nat) : List Leaf → List Span
  | [] => []
  | token t :: ls => bodies (offset + t.fullWidth) ls
  | content e :: ls =>
    Span.ofWidth offset e.fullWidth :: e.bodies offset ++ bodies (offset + e.fullWidth) ls

@[simp] theorem bodies_nil (o : Nat) : bodies o [] = [] := rfl

theorem bodies_append (o : Nat) (ls ms : List Leaf) :
    bodies o (ls ++ ms) = bodies o ls ++ bodies (o + Token.widthAll (tokensAll ls)) ms := by
  induction ls generalizing o with
  | nil => simp
  | cons l ls ih =>
    cases l <;> simp [bodies, ih, tokens, Element.widthAll_tokens, Nat.add_assoc]

@[simp] theorem bodies_map_token (o : Nat) (ts : List Token) : bodies o (ts.map token) = [] := by
  induction ts generalizing o with
  | nil => rfl
  | cons t ts ih => simp [bodies, ih]

end Leaf

namespace Element

mutual

/-- The leaves of an element, in source order. -/
def leaves : Element → List Leaf
  | token t => [.token t]
  | node k cs => leavesAll (k == .docString) cs

/-- The leaves of elements, which may be the children of a doc string. -/
def leavesAll (inside : Bool) : List Element → List Leaf
  | [] => []
  | e :: es => (if inside && e.isText then [.content e] else e.leaves) ++ leavesAll inside es

end

@[simp] theorem leaves_token (t : Token) : (token t).leaves = [.token t] := by simp [leaves]
@[simp] theorem leavesAll_nil (b : Bool) : leavesAll b [] = [] := by simp [leavesAll]
@[simp] theorem leavesAll_cons (b : Bool) (e : Element) (es : List Element) :
    leavesAll b (e :: es) = (if b && e.isText then [.content e] else e.leaves) ++ leavesAll b es := by
  simp only [leavesAll]

theorem leaves_node (k : Kind) (cs : List Element) :
    (node k cs).leaves = leavesAll (k == .docString) cs := by simp only [leaves]

@[simp] theorem leavesAll_append (b : Bool) (as bs : List Element) :
    leavesAll b (as ++ bs) = leavesAll b as ++ leavesAll b bs := by
  induction as with
  | nil => simp
  | cons a as ih => simp [ih]

@[simp] theorem leavesAll_map_token (b : Bool) (ts : List Token) :
    leavesAll b (ts.map token) = ts.map .token := by
  induction ts with
  | nil => simp
  | cons t ts ih => simp [ih, isText]

mutual

theorem tokensAll_leaves : (e : Element) → Leaf.tokensAll e.leaves = e.tokens
  | token t => by simp [Leaf.tokens]
  | node k cs => by rw [leaves_node, tokens_node, tokensAll_leavesAll]

theorem tokensAll_leavesAll (b : Bool) :
    (es : List Element) → Leaf.tokensAll (leavesAll b es) = tokensAll es
  | [] => by simp
  | e :: es => by
    rw [leavesAll_cons, Leaf.tokensAll_append, tokensAll_cons, tokensAll_leavesAll b es]
    split
    · simp [Leaf.tokens]
    · rw [tokensAll_leaves e]

end

mutual

/-- The bodies of an element are those of its leaves. -/
theorem mem_bodies_leaves (s : Span) (o : Nat) :
    (e : Element) → (s ∈ Leaf.bodies o e.leaves ↔ s ∈ e.bodies o)
  | token t => by simp [Leaf.bodies]
  | node k cs => by
    rw [leaves_node, bodies_node, mem_bodies_leavesAll]
    by_cases h : k = .docString <;> simp [h]

theorem mem_bodies_leavesAll (s : Span) (o : Nat) (b : Bool) :
    (es : List Element) →
      (s ∈ Leaf.bodies o (leavesAll b es) ↔
        s ∈ (if b then textSpans o es else []) ++ bodiesAll o es)
  | [] => by cases b <;> simp [textSpans]
  | e :: es => by
    have he := mem_bodies_leaves s o e
    have hs := mem_bodies_leavesAll s (o + e.fullWidth) b es
    have hw : Token.widthAll (Leaf.tokensAll e.leaves) = e.fullWidth := by
      rw [tokensAll_leaves, widthAll_tokens]
    rw [leavesAll_cons, Leaf.bodies_append, List.mem_append]
    -- the text of a doc string is a leaf of its own; other children keep their leaves
    cases b with
    | false => simp_all
    | true =>
      cases ht : e.isText with
      | false => simp_all [textSpans, or_left_comm]
      | true =>
        simp_all [textSpans, Leaf.bodies, Leaf.tokens, widthAll_tokens, or_assoc, or_left_comm]

end

end Element

namespace Node

def leaves (n : Node) : List Leaf := n.toElement.leaves

theorem leaves_of_ne {n : Node} (h : n.kind ≠ .docString) :
    n.leaves = Element.leavesAll false n.children := by
  rw [leaves, toElement, Element.leaves_node, beq_false_of_ne h]

/-- The leaves of a node that may be absent. -/
def optionalLeaves (n : Option Node) : List Leaf := n.toList.flatMap leaves

@[simp] theorem optionalLeaves_none : optionalLeaves none = [] := rfl
@[simp] theorem optionalLeaves_some (n : Node) : optionalLeaves (some n) = n.leaves := by
  simp [optionalLeaves]

/-- A node for tokens, if there are any, has them as its leaves. -/
theorem optionalLeaves_tokens {k : Kind} (hk : k ≠ .docString) (ts : List Token) :
    optionalLeaves (if ts.isEmpty then none else some ⟨k, ts.map .token⟩) = ts.map .token := by
  cases ts with
  | nil => rfl
  | cons t ts =>
    rw [if_neg (by simp), optionalLeaves_some, leaves_of_ne hk]
    exact Element.leavesAll_map_token false (t :: ts)

theorem leavesAll_map_toElement (ns : List Node) :
    Element.leavesAll false (ns.map toElement) = ns.flatMap leaves := by
  induction ns with
  | nil => simp
  | cons n ns ih => simp [ih, leaves]

theorem leavesAll_optional (n : Option Node) :
    Element.leavesAll false (optional n) = optionalLeaves n := leavesAll_map_toElement n.toList

end Node

end GherkinTree
