import GherkinTree.Proofs.RoundTrip
import Mathlib

/-!
Positions are faithful. Offsets are found level by level from the widths of what stands in front;
this module relates them to the text that a tree writes. Main statement: whatever navigation reaches
from the root of a tree, the text of a node or a token is the slice of the text of the tree at its
span, and the tokens of a node and the trivia of a token stand one behind the other without a gap.
-/

namespace GherkinTree

namespace Text

theorem dropBytes?_eq_some_iff {t r : Text} {n : Nat} :
    dropBytes? t n = some r ↔ ∃ a, t = a ++ r ∧ width a = n := by
  fun_induction dropBytes? t n with
  | case1 t =>
    constructor
    · rintro ⟨⟩
      exact ⟨[], rfl, rfl⟩
    · rintro ⟨a, rfl, ha⟩
      rw [(width_eq_zero_iff a).1 ha, List.nil_append]
  | case2 n => simp
  | case3 c t n hc ih =>
    rw [ih]
    constructor
    · rintro ⟨a, ht, ha⟩
      refine ⟨c :: a, by rw [ht, List.cons_append], ?_⟩
      rw [width_cons]
      omega
    · rintro ⟨a, ht, ha⟩
      cases a with
      | nil => cases ha
      | cons d a =>
        obtain ⟨rfl, rfl⟩ := List.cons.inj ht
        rw [width_cons] at ha
        exact ⟨a, rfl, by omega⟩
  | case4 c t n hc =>
    refine ⟨nofun, ?_⟩
    rintro ⟨a, ht, ha⟩
    cases a with
    | nil => cases ha
    | cons d a =>
      obtain ⟨rfl, rfl⟩ := List.cons.inj ht
      rw [width_cons] at ha
      omega

theorem takeBytes?_eq_some_iff {t a : Text} {n : Nat} :
    takeBytes? t n = some a ↔ (∃ r, t = a ++ r) ∧ width a = n := by
  fun_induction takeBytes? t n generalizing a with
  | case1 t =>
    constructor
    · rintro ⟨⟩
      exact ⟨⟨t, rfl⟩, rfl⟩
    · rintro ⟨-, ha⟩
      rw [(width_eq_zero_iff a).1 ha]
  | case2 n =>
    refine ⟨nofun, ?_⟩
    rintro ⟨⟨r, hr⟩, ha⟩
    rw [(List.append_eq_nil_iff.1 hr.symm).1] at ha
    cases ha
  | case3 c t n hc ih =>
    rw [Option.map_eq_some_iff]
    constructor
    · rintro ⟨b, hb, rfl⟩
      obtain ⟨⟨r, rfl⟩, hw⟩ := ih.1 hb
      exact ⟨⟨r, rfl⟩, by rw [width_cons]; omega⟩
    · rintro ⟨⟨r, ht⟩, ha⟩
      cases a with
      | nil => cases ha
      | cons d b =>
        obtain ⟨rfl, rfl⟩ := List.cons.inj ht
        rw [width_cons] at ha
        exact ⟨b, ih.2 ⟨⟨r, rfl⟩, by omega⟩, rfl⟩
  | case4 c t n hc =>
    refine ⟨nofun, ?_⟩
    rintro ⟨⟨r, ht⟩, ha⟩
    cases a with
    | nil => cases ha
    | cons d b =>
      obtain ⟨rfl, rfl⟩ := List.cons.inj ht
      rw [width_cons] at ha
      omega

/-- Of two texts with which a text begins, the narrower begins the other. -/
theorem append_of_width_le {a b p q : Text} (h : a ++ b = p ++ q) (hw : width a ≤ width p) :
    ∃ u, p = a ++ u ∧ b = u ++ q := by
  rcases List.append_eq_append_iff.1 h with ⟨u, hp, hb⟩ | ⟨u, ha, hq⟩
  · exact ⟨u, hp, hb⟩
  · rw [ha, width_append] at hw
    obtain rfl : u = [] := (width_eq_zero_iff u).1 (by omega)
    exact ⟨[], by rw [ha, List.append_nil, List.append_nil], by simpa using hq.symm⟩

end Text

/-- A text is the slice of a source at a span exactly if the source holds it there. -/
theorem Source.slice?_eq_some_iff {s : Source} {span : Span} {x : Text} :
    s.slice? span = some x ↔
      ∃ a b, s.text = a ++ x ++ b ∧ Text.width a = span.start ∧ Text.width x = span.width := by
  unfold slice?
  rw [Option.bind_eq_bind, Option.bind_eq_some_iff]
  constructor
  · rintro ⟨r, hr, hx⟩
    obtain ⟨a, ha, hw⟩ := Text.dropBytes?_eq_some_iff.1 hr
    obtain ⟨⟨b, rfl⟩, hwx⟩ := Text.takeBytes?_eq_some_iff.1 hx
    exact ⟨a, b, by rw [ha, List.append_assoc], hw, hwx⟩
  · rintro ⟨a, b, ht, ha, hx⟩
    exact ⟨x ++ b, Text.dropBytes?_eq_some_iff.2 ⟨a, by rw [ht, List.append_assoc], ha⟩,
      Text.takeBytes?_eq_some_iff.2 ⟨⟨b, rfl⟩, hx⟩⟩

/-- Spans that stand one behind the other, from an offset to another, without a gap. -/
def Span.Tiles : Nat → List Span → Nat → Prop
  | a, [], b => a = b
  | a, s :: ss, b => s.start = a ∧ Tiles s.stop ss b

namespace PlacedElement

/-- What navigation reaches from the root of a tree: children and parents, again and again. -/
inductive Reachable (g : Node) : PlacedElement → Prop where
  | root : Reachable g (.node (.root g))
  | child {n : PlacedNode} {e : PlacedElement} (h : Reachable g (.node n)) (he : e ∈ n.children) :
      Reachable g e
  | parent {n m : PlacedNode} (h : Reachable g (.node n)) (hm : n.parent? = some m) :
      Reachable g (.node m)
  | holder {t : PlacedToken} (h : Reachable g (.token t)) : Reachable g (.node t.parent)

def offset : PlacedElement → Nat
  | node n => n.offset
  | token t => t.offset

/-- The text of all tokens of the element and of their trivia. -/
def render : PlacedElement → Text
  | node n => n.fullText
  | token t => t.token.render

/-- The text `t`, which begins at an offset, holds the element where the element says it is. -/
def Within (t : Text) (offset : Nat) (e : PlacedElement) : Prop :=
  ∃ a b, t = a ++ e.render ++ b ∧ e.offset = offset + Text.width a

theorem Within.trans {t : Text} {o : Nat} {n : PlacedNode} {e : PlacedElement}
    (h : Within t o (.node n)) (he : Within n.fullText n.offset e) : Within t o e := by
  obtain ⟨a, b, rfl, ha⟩ := h
  obtain ⟨a', b', hn, ha'⟩ := he
  refine ⟨a ++ a', b' ++ b, ?_, ?_⟩
  · rw [render, hn]
    simp
  · rw [ha', Text.width_append, ← Nat.add_assoc]
    exact congrArg (· + _) ha

end PlacedElement

open PlacedElement

namespace PlacedNode

/-- The positions of a node agree with a source. -/
structure Faithful (n : PlacedNode) (source : Source) : Prop where
  width : n.node.fullWidth = Text.width n.fullText
  full : source.slice? n.fullSpan = some n.fullText
  inner : source.slice? n.span = some n.text
  tokens : Span.Tiles n.fullSpan.start (n.descendantTokens.map PlacedToken.fullSpan) n.fullSpan.stop

end PlacedNode

namespace PlacedToken

/-- The positions of a token and of its trivia agree with a source. -/
structure Faithful (t : PlacedToken) (source : Source) : Prop where
  width : t.token.fullWidth = Text.width t.token.render
  full : source.slice? t.fullSpan = some t.token.render
  inner : source.slice? t.span = some t.token.text
  leading : t.leadingSpans.map source.slice? = t.token.leading.map fun p => some p.text
  trailing : t.trailingSpans.map source.slice? = t.token.trailing.map fun p => some p.text
  before : Span.Tiles t.fullSpan.start t.leadingSpans t.span.start
  behind : Span.Tiles t.span.stop t.trailingSpans t.fullSpan.stop

end PlacedToken

/-- The positions of an element agree with a source. -/
def PlacedElement.Faithful (source : Source) : PlacedElement → Prop
  | node n => n.Faithful source
  | token t => t.Faithful source

namespace PlacedToken

theorem tiles_triviaSpans (o : Nat) (ps : List Trivia) :
    Span.Tiles o (triviaSpans o ps) (o + Trivia.widthOf ps) := by
  induction ps generalizing o with
  | nil => rfl
  | cons p ps ih =>
    rw [Trivia.widthOf_cons, ← Nat.add_assoc]
    exact ⟨rfl, ih (o + p.width)⟩

/-- Pieces of trivia are the slices at their spans. -/
theorem slices_triviaSpans {s : Source} {ps : List Trivia} {a b : Text}
    (h : s.text = a ++ Trivia.render ps ++ b) :
    (triviaSpans (Text.width a) ps).map s.slice? = ps.map fun p => some p.text := by
  induction ps generalizing a with
  | nil => rfl
  | cons p ps ih =>
    have hp : s.slice? (.ofWidth (Text.width a) p.width) = some p.text := by
      refine Source.slice?_eq_some_iff.2 ⟨a, Trivia.render ps ++ b, ?_, rfl, ?_⟩
      · rw [h]
        simp [Trivia.render]
      · simp [Span.width, Trivia.width]
    have htail := @ih (a ++ p.text) (by rw [h]; simp [Trivia.render])
    rw [Text.width_append] at htail
    rw [triviaSpans, List.map_cons, List.map_cons, hp]
    exact congrArg _ htail

/-- A token that a source holds where the token says has faithful positions. -/
theorem faithful_of_within {t : PlacedToken} {s : Source} (h : Within s.text 0 (.token t)) :
    t.Faithful s := by
  obtain ⟨a, b, hs, ho⟩ := h
  change s.text = a ++ t.token.render ++ b at hs
  change t.offset = 0 + Text.width a at ho
  rw [Nat.zero_add] at ho
  have hparts : s.text = a ++ Trivia.render t.token.leading ++ t.token.text ++
      Trivia.render t.token.trailing ++ b := by
    rw [hs, Token.render]
    simp
  have hstart : t.span.start = t.fullSpan.start + Trivia.widthOf t.token.leading := rfl
  have hstop : t.fullSpan.stop = t.span.stop + Trivia.widthOf t.token.trailing := by
    simp [fullSpan, span, Token.fullWidth, Token.trailingWidth, Nat.add_assoc]
  constructor
  · exact (Token.width_render t.token).symm
  · refine Source.slice?_eq_some_iff.2 ⟨a, b, hs, ho.symm, ?_⟩
    simp [fullSpan, Span.width]
  · refine Source.slice?_eq_some_iff.2 ⟨a ++ Trivia.render t.token.leading,
      Trivia.render t.token.trailing ++ b, ?_, ?_, ?_⟩
    · rw [hparts]
      simp
    · rw [hstart, Text.width_append, Trivia.width_render]
      exact congrArg (· + _) ho.symm
    · simp [span, Span.width, Token.width]
  · rw [leadingSpans, ho]
    refine slices_triviaSpans (b := t.token.text ++ Trivia.render t.token.trailing ++ b) ?_
    rw [hparts]
    simp
  · have hw : t.span.stop = Text.width (a ++ Trivia.render t.token.leading ++ t.token.text) := by
      simp [span, ho, Token.leadingWidth, Token.width, Nat.add_assoc]
    rw [trailingSpans, hw]
    exact slices_triviaSpans (b := b) hparts
  · rw [hstart]
    exact tiles_triviaSpans t.offset t.token.leading
  · rw [hstop]
    exact tiles_triviaSpans t.span.stop t.token.trailing

end PlacedToken

theorem Token.tiles_sites (o : Nat) (ts : List Token) :
    Span.Tiles o ((sites o ts).map fun x => Span.ofWidth x.1 x.2.fullWidth) (o + widthAll ts) := by
  induction ts generalizing o with
  | nil => rfl
  | cons t ts ih =>
    rw [widthAll_cons, ← Nat.add_assoc]
    exact ⟨rfl, ih (o + t.fullWidth)⟩

namespace PlacedNode

/-- The full spans of the tokens of a node tile its full span. -/
theorem tiles_descendantTokens (n : PlacedNode) :
    Span.Tiles n.fullSpan.start (n.descendantTokens.map PlacedToken.fullSpan) n.fullSpan.stop := by
  have hspans : n.descendantTokens.map PlacedToken.fullSpan =
      (n.descendantTokens.map PlacedToken.site).map fun x => Span.ofWidth x.1 x.2.fullWidth := by
    rw [List.map_map]
    rfl
  have hwidth : n.fullSpan.stop = n.offset + Token.widthAll (Element.tokensAll n.node.children) := by
    rw [Token.widthAll, Element.renderAll_tokensAll, Element.width_renderAll]
    rfl
  rw [hspans, sites_descendantTokens, hwidth]
  exact Token.tiles_sites n.offset _

/-- The children of a node stand one behind the other in its text. -/
theorem within_of_mem_childrenFrom (n : PlacedNode) {o i : Nat} {es : List Element}
    {e : PlacedElement} (h : e ∈ n.childrenFrom o i es) : Within (Element.renderAll es) o e := by
  induction es generalizing o i with
  | nil => cases h
  | cons x xs ih =>
    rcases List.mem_cons.1 h with rfl | h
    · refine ⟨[], Element.renderAll xs, ?_, ?_⟩
      · cases x <;> simp [child, PlacedElement.render, fullText, Node.render]
      · cases x <;> rfl
    · obtain ⟨a, b, hxs, ho⟩ := ih h
      refine ⟨x.render ++ a, b, ?_, ?_⟩
      · rw [Element.renderAll, hxs]
        simp
      · rw [ho, Text.width_append, Element.width_render, Nat.add_assoc]

theorem within_of_mem_children {n : PlacedNode} {e : PlacedElement} (h : e ∈ n.children) :
    Within n.fullText n.offset e := n.within_of_mem_childrenFrom h

theorem within_firstToken? {n : PlacedNode} {t : PlacedToken} (h : n.firstToken? = some t) :
    Within n.fullText n.offset (.token t) := by
  fun_induction firstToken? n with
  | case1 n hc => cases h
  | case2 n u hc =>
    cases h
    exact within_of_mem_children (List.mem_of_mem_head? hc)
  | case3 n m hc ih => exact (within_of_mem_children (List.mem_of_mem_head? hc)).trans (ih h)

theorem within_lastToken? {n : PlacedNode} {t : PlacedToken} (h : n.lastToken? = some t) :
    Within n.fullText n.offset (.token t) := by
  fun_induction lastToken? n with
  | case1 n hc => cases h
  | case2 n u hc =>
    cases h
    exact within_of_mem_children (List.mem_of_getLast? hc)
  | case3 n m hc ih => exact (within_of_mem_children (List.mem_of_getLast? hc)).trans (ih h)

/-- An offset at which the text of a node can be cut. -/
def Boundary (n : PlacedNode) (p : Nat) : Prop :=
  ∃ a b, n.fullText = a ++ b ∧ p = n.offset + Text.width a

theorem boundary_start (n : PlacedNode) : n.Boundary n.fullSpan.start := ⟨[], _, rfl, rfl⟩

theorem boundary_stop (n : PlacedNode) : n.Boundary n.fullSpan.stop :=
  ⟨n.fullText, [], by simp, congrArg (n.offset + ·) (Node.width_render n.node).symm⟩

/-- Both ends of the text of a token are boundaries of the nodes above it. -/
theorem boundary_of_within {n : PlacedNode} {t : PlacedToken}
    (h : Within n.fullText n.offset (.token t)) :
    n.Boundary t.span.start ∧ n.Boundary t.span.stop := by
  obtain ⟨a, b, hn, ho⟩ := h
  change n.fullText = a ++ t.token.render ++ b at hn
  change t.offset = n.offset + Text.width a at ho
  constructor
  · refine ⟨a ++ Trivia.render t.token.leading,
      t.token.text ++ Trivia.render t.token.trailing ++ b, ?_, ?_⟩
    · rw [hn, Token.render]
      simp
    · simp [PlacedToken.span, Token.leadingWidth, ho, Nat.add_assoc]
  · refine ⟨a ++ Trivia.render t.token.leading ++ t.token.text,
      Trivia.render t.token.trailing ++ b, ?_, ?_⟩
    · rw [hn, Token.render]
      simp
    · simp [PlacedToken.span, Token.leadingWidth, Token.width, ho, Nat.add_assoc]

theorem boundary_span (n : PlacedNode) : n.Boundary n.span.start ∧ n.Boundary n.span.stop := by
  have hstart : n.Boundary n.span.start := by
    unfold span
    cases h : n.firstToken? with
    | none => exact n.boundary_start
    | some t => exact (boundary_of_within (within_firstToken? h)).1
  have hstop : n.Boundary ((n.lastToken?.map (·.span.stop)).getD n.fullSpan.stop) := by
    cases h : n.lastToken? with
    | none => exact n.boundary_stop
    | some t => exact (boundary_of_within (within_lastToken? h)).2
  refine ⟨hstart, ?_⟩
  change n.Boundary (max _ n.span.start)
  rcases Nat.le_total ((n.lastToken?.map (·.span.stop)).getD n.fullSpan.stop) n.span.start with h | h
  · rwa [Nat.max_eq_right h]
  · rwa [Nat.max_eq_left h]

/-- The span of a node cuts its text in three, and the middle is the text without outer trivia. -/
theorem text_between (n : PlacedNode) :
    ∃ a b, n.fullText = a ++ n.text ++ b ∧ n.span.start = n.offset + Text.width a ∧
      Text.width n.text = n.span.width := by
  obtain ⟨⟨a, r, hr, ha⟩, ⟨a', b, hb, ha'⟩⟩ := n.boundary_span
  have hle : Text.width a ≤ Text.width a' := by
    have := n.span.ordered
    omega
  obtain ⟨x, rfl, -⟩ := Text.append_of_width_le (hr.symm.trans hb) hle
  have hw : Text.width x = n.span.width := by
    rw [Text.width_append] at ha'
    unfold Span.width
    omega
  have htext : n.text = x := by
    have hdrop : n.fullText.dropBytes? (n.span.start - n.offset) = some (x ++ b) :=
      Text.dropBytes?_eq_some_iff.2 ⟨a, by rw [hb, List.append_assoc], by omega⟩
    have htake : (x ++ b).takeBytes? n.span.width = some x :=
      Text.takeBytes?_eq_some_iff.2 ⟨⟨b, rfl⟩, hw⟩
    simp only [text, hdrop, Option.bind_eq_bind, Option.bind_some, htake, Option.getD_some]
  exact ⟨a, b, by rw [htext, hb], ha, by rw [htext, hw]⟩

/-- A node that a source holds where the node says has faithful positions. -/
theorem faithful_of_within {n : PlacedNode} {s : Source} (h : Within s.text 0 (.node n)) :
    n.Faithful s := by
  obtain ⟨a, b, hs, ho⟩ := h
  change s.text = a ++ n.fullText ++ b at hs
  change n.offset = 0 + Text.width a at ho
  rw [Nat.zero_add] at ho
  constructor
  · exact (Node.width_render n.node).symm
  · refine Source.slice?_eq_some_iff.2 ⟨a, b, hs, ho.symm, ?_⟩
    simp [fullSpan, fullText, Span.width]
  · obtain ⟨a', b', hn, hstart, hw⟩ := n.text_between
    refine Source.slice?_eq_some_iff.2 ⟨a ++ a', b' ++ b, ?_, ?_, hw⟩
    · rw [hs, hn]
      simp
    · rw [hstart, ho, Text.width_append]
  · exact n.tiles_descendantTokens

end PlacedNode

namespace PlacedElement

/-- A text holds an element and all nodes above it where they say they are. -/
def Anchored (t : Text) : PlacedElement → Prop
  | node n => Within t 0 (.node n) ∧ ∀ m ∈ n.ancestors, Within t 0 (.node m)
  | token u => Within t 0 (.token u) ∧ Within t 0 (.node u.parent) ∧
      ∀ m ∈ u.parent.ancestors, Within t 0 (.node m)

theorem Anchored.within {t : Text} {e : PlacedElement} (h : e.Anchored t) : Within t 0 e := by
  cases e with
  | node n => exact h.1
  | token u => exact h.1

/-- The nodes above a child are its parent and the nodes above that. -/
theorem above_of_mem_childrenFrom {n : PlacedNode} {o i : Nat} {es : List Element}
    {e : PlacedElement} (h : e ∈ n.childrenFrom o i es) :
    (∃ m, e = .node m ∧ m.ancestors = n :: n.ancestors) ∨ ∃ u, e = .token u ∧ u.parent = n := by
  induction es generalizing o i with
  | nil => cases h
  | cons x xs ih =>
    rcases List.mem_cons.1 h with rfl | h
    · cases x with
      | token t => exact .inr ⟨_, rfl, rfl⟩
      | node k cs => exact .inl ⟨_, rfl, rfl⟩
    · exact ih h

/-- Moving to a child or to a parent keeps the anchor. -/
theorem Reachable.anchored {g : Node} {e : PlacedElement} (h : e.Reachable g) :
    e.Anchored g.render := by
  induction h with
  | root => exact ⟨⟨[], [], by simp [render, PlacedNode.fullText, PlacedNode.root], rfl⟩, nofun⟩
  | @child n e h he ih =>
    have hwithin := ih.1.trans (PlacedNode.within_of_mem_children he)
    rcases above_of_mem_childrenFrom he with ⟨m, rfl, hm⟩ | ⟨u, rfl, hu⟩
    · refine ⟨hwithin, fun x hx => ?_⟩
      rw [hm, List.mem_cons] at hx
      rcases hx with rfl | hx
      · exact ih.1
      · exact ih.2 x hx
    · exact ⟨hwithin, hu ▸ ih⟩
  | @parent n m h hm ih =>
    obtain ⟨site, above⟩ := n
    cases above with
    | nil => cases hm
    | cons s ss =>
      cases hm
      exact ⟨ih.2 _ List.mem_cons_self, fun x hx => ih.2 x (List.mem_cons_of_mem _ hx)⟩
  | holder h ih => exact ih.2

/-- Walks find nothing but what navigation reaches. -/
theorem reachable_of_mem_walkTokens {g : Node} {stack : List PlacedElement}
    (h : ∀ e ∈ stack, e.Reachable g) :
    ∀ t ∈ PlacedNode.walkTokens stack, Reachable g (.token t) := by
  fun_induction PlacedNode.walkTokens stack with
  | case1 => exact List.forall_mem_nil _
  | case2 t stack ih =>
    exact List.forall_mem_cons.2 ⟨h _ List.mem_cons_self,
      ih fun e he => h e (List.mem_cons_of_mem _ he)⟩
  | case3 n stack ih =>
    have hn := h _ List.mem_cons_self
    exact ih (List.forall_mem_append.2 ⟨fun e he => hn.child he, fun e he =>
      h e (List.mem_cons_of_mem _ he)⟩)

end PlacedElement

/-- The tree of a document writes the document. -/
theorem FeatureFile.render_tree_parse (o : Options) (text : Text) :
    (parse o text).tree.render = text := by
  have h := render_root_parse o.dialect text
  rw [Node.leaves, Element.tokensAll_leaves, Element.renderAll_tokens, Node.render_toElement] at h
  exact h

/-- Wherever navigation leads in a tree, widths count the bytes of what is written, spans slice the
text that the tree writes, and trivia and tokens tile what they are part of; the tree of a document
writes the document. -/
theorem PlacedElement.faithful_of_reachable :
    (∀ (g : Node) (e : PlacedElement), e.Reachable g → e.Faithful ⟨g.render⟩) ∧
      ∀ (o : Options) (text : Text) (e : PlacedElement),
        e.Reachable (FeatureFile.parse o text).tree → e.Faithful (FeatureFile.parse o text).source := by
  have hfaithful (g : Node) (e : PlacedElement) (h : e.Reachable g) : e.Faithful ⟨g.render⟩ := by
    have hwithin := h.anchored.within
    cases e with
    | node n => exact PlacedNode.faithful_of_within hwithin
    | token t => exact PlacedToken.faithful_of_within hwithin
  refine ⟨hfaithful, fun o text e h => ?_⟩
  have he := hfaithful _ e h
  rw [FeatureFile.render_tree_parse] at he
  exact he

/-- Missing tokens have empty spans, and a name of two bytes takes two. -/
theorem PlacedElement.faithful_of_reachable_tokens :
    let f := FeatureFile.parse .default "Scenario: ü\n".toList
    (∀ t ∈ f.root.descendantTokens, Reachable f.tree (.token t) ∧ t.Faithful f.source) ∧
      f.root.descendantTokens.map (fun t => (t.span.start, t.span.stop)) =
        [(0, 0), (0, 0), (0, 8), (8, 9), (10, 12), (13, 13)] := by
  have hall (text : Text) : ∀ t ∈ (FeatureFile.parse .default text).root.descendantTokens,
      Reachable (FeatureFile.parse .default text).tree (.token t) ∧
        t.Faithful (FeatureFile.parse .default text).source := by
    intro t ht
    have h := reachable_of_mem_walkTokens (List.forall_mem_singleton.2 .root) t ht
    exact ⟨h, faithful_of_reachable.2 .default text _ h⟩
  exact ⟨hall _, by cbv⟩

end GherkinTree
