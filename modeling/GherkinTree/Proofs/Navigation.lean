import GherkinTree.Proofs.Position
import GherkinTree.Proofs.Preorder
import Mathlib

/-!
Finding one's way in a tree by bytes. The children of a node tile it, and so do its tokens, so each
byte of the node lies in one child and in one token only. Main statements: the token at an offset is
the only token of the node that holds the byte there, and the node that covers a span is the deepest
of all nodes that contain it.
-/

namespace GherkinTree

namespace Span

variable {r s t : Span} {o : Nat}

theorem contains_iff : s.contains o = true ↔ s.start ≤ o ∧ o < s.stop := by
  simp [contains]

theorem isEmpty_eq_false_iff : s.isEmpty = false ↔ s.start < s.stop := by
  have := s.ordered
  rw [isEmpty, beq_eq_false_iff_ne]
  omega

theorem containsSpan_trans (h : r.containsSpan s = true) (h' : s.containsSpan t = true) :
    r.containsSpan t = true := by
  rw [containsSpan_iff] at *
  omega

/-- A span that contains another with a byte holds the first byte of it and is not empty itself. -/
theorem contains_start (hs : s.isEmpty = false) (h : r.containsSpan s = true) :
    r.contains s.start = true ∧ r.isEmpty = false := by
  rw [isEmpty_eq_false_iff] at *
  rw [containsSpan_iff] at h
  rw [contains_iff]
  omega

/-- Where things tile a range, exactly one of them holds an offset of the range. -/
theorem Tiles.exists_only {α : Type} {f : α → Span} {xs : List α} {a b : Nat}
    (h : Tiles a (xs.map f) b) (ha : a ≤ o) (hb : o < b) :
    ∃ x, xs.filter (fun y => (f y).contains o) = [x] := by
  induction xs generalizing a with
  | nil =>
    have hab : a = b := h
    omega
  | cons x xs ih =>
    obtain ⟨hx, hxs⟩ := h
    by_cases ho : o < (f x).stop
    · -- all others begin behind the first
      have hnone : xs.filter (fun y => (f y).contains o) = [] := by
        refine List.filter_eq_nil_iff.2 fun y hy hcontains => ?_
        have hstart := hxs.start_le (f y) (List.mem_map_of_mem hy)
        have := (contains_iff.1 hcontains).1
        omega
      have hfirst : (f x).contains o = true := contains_iff.2 ⟨by omega, ho⟩
      exact ⟨x, by rw [List.filter_cons, if_pos hfirst, hnone]⟩
    · obtain ⟨y, hy⟩ := ih hxs (by omega)
      have hfirst : ¬(f x).contains o = true := by
        rw [contains_iff]
        omega
      exact ⟨y, by rw [List.filter_cons, if_neg hfirst, hy]⟩

end Span

namespace PlacedNode

variable {n m x : PlacedNode} {t : PlacedToken} {o : Nat} {s : Span}

theorem tiles_childrenFrom (n : PlacedNode) (o i : Nat) (es : List Element) :
    Span.Tiles o ((n.childrenFrom o i es).map PlacedElement.fullSpan)
      (o + Element.fullWidthAll es) := by
  induction es generalizing o i with
  | nil => rfl
  | cons e es ih =>
    have hspan : (n.child o i e).fullSpan = .ofWidth o e.fullWidth := by
      cases e <;> rfl
    rw [childrenFrom, List.map_cons, hspan, Element.fullWidthAll, ← Nat.add_assoc]
    exact ⟨rfl, ih (o + e.fullWidth) (i + 1)⟩

/-- The full spans of the children of a node tile its full span. -/
theorem tiles_children (n : PlacedNode) :
    Span.Tiles n.fullSpan.start (n.children.map PlacedElement.fullSpan) n.fullSpan.stop :=
  n.tiles_childrenFrom n.offset 0 n.node.children

/-- Exactly one child of a node holds a byte of the node. -/
theorem exists_child (h : n.fullSpan.contains o = true) :
    ∃ e, n.children.filter (·.fullSpan.contains o) = [e] := by
  rw [Span.contains_iff] at h
  exact n.tiles_children.exists_only h.1 h.2

/-- Exactly one token of a node holds a byte of the node. -/
theorem exists_token (h : n.fullSpan.contains o = true) :
    ∃ t, n.descendantTokens.filter (·.fullSpan.contains o) = [t] := by
  rw [Span.contains_iff] at h
  exact n.tiles_descendantTokens.exists_only h.1 h.2

theorem mem_descendantTokens_of_child (hm : .node m ∈ n.children) (ht : t ∈ m.descendantTokens) :
    t ∈ n.descendantTokens := by
  obtain ⟨as, bs, hs⟩ := exists_tokens_around
    (mem_descendants_of_child hm (mem_descendants_self m))
  rw [hs]
  exact List.mem_append_left bs (List.mem_append_right as ht)

theorem mem_descendantTokens_of_token (ht : .token t ∈ n.children) : t ∈ n.descendantTokens := by
  obtain ⟨es, fs, hes⟩ := List.append_of_mem ht
  rw [descendantTokens_eq, hes, walkTokens_append, walkTokens]
  exact List.mem_append_right _ List.mem_cons_self

/-- At each of its bytes a node finds one of its tokens, and the token holds the byte. -/
theorem exists_tokenAt? (h : n.fullSpan.contains o = true) :
    ∃ t ∈ n.descendantTokens, n.tokenAt? o = some t ∧ t.fullSpan.contains o = true := by
  fun_induction tokenAt? n o with
  | case1 n hstop =>
    have := (Span.contains_iff.1 h).2
    omega
  | case2 n hstop hin hnone =>
    obtain ⟨e, he⟩ := exists_child h
    rw [← List.head?_filter, he] at hnone
    cases hnone
  | case3 n hstop hin t ht =>
    exact ⟨t, mem_descendantTokens_of_token (List.mem_of_find?_eq_some ht), rfl,
      List.find?_some (p := fun e : PlacedElement => e.fullSpan.contains o) ht⟩
  | case4 n hstop hin m hm ih =>
    have hcontains : m.fullSpan.contains o = true :=
      List.find?_some (p := fun e : PlacedElement => e.fullSpan.contains o) hm
    obtain ⟨t, ht, hfound, hto⟩ := ih hcontains
    exact ⟨t, mem_descendantTokens_of_child (List.mem_of_find?_eq_some hm) ht, hfound, hto⟩
  | case5 n hstop hout => exact absurd h hout

/-- What is at an offset of a node. Outside the bytes of the node and its end there is no token, and
at the end there is the last token of the node. At each of its bytes there is the only token of the
node that holds the byte, and this token is not empty. -/
theorem tokenAt?_holds (n : PlacedNode) (o : Nat) :
    (o < n.fullSpan.start ∨ n.fullSpan.stop < o → n.tokenAt? o = none) ∧
      (o = n.fullSpan.stop → n.tokenAt? o = n.lastToken?) ∧
      (n.fullSpan.start ≤ o → o < n.fullSpan.stop → ∃ t, n.tokenAt? o = some t ∧
        n.descendantTokens.filter (·.fullSpan.contains o) = [t] ∧ t.fullSpan.isEmpty = false) := by
  refine ⟨fun h => ?_, fun h => ?_, fun hstart hstop => ?_⟩
  · have hordered := n.fullSpan.ordered
    rw [tokenAt?, if_neg (by omega), if_neg]
    rw [Span.contains_iff]
    omega
  · rw [tokenAt?, if_pos h]
  · have h : n.fullSpan.contains o = true := Span.contains_iff.2 ⟨hstart, hstop⟩
    obtain ⟨t, ht, hfound, hto⟩ := exists_tokenAt? h
    obtain ⟨u, hu⟩ := exists_token h
    have hmem : t ∈ n.descendantTokens.filter (·.fullSpan.contains o) :=
      List.mem_filter.2 ⟨ht, hto⟩
    rw [hu, List.mem_singleton] at hmem
    subst hmem
    refine ⟨t, hfound, hu, ?_⟩
    rw [Span.isEmpty_eq_false_iff]
    have := Span.contains_iff.1 hto
    omega

/-- The empty text of a cell is passed over for the bar behind it, and found at the end of a row. -/
example :
    let bar : Token := .plain .verticalBarToken ['|'] [] []
    let cell : Element := .node .tableCell [.token (.absent .tableLiteralToken [] [])]
    ((root ⟨.tableRow, [.token bar, cell, .token bar]⟩).tokenAt? 1).map (·.token.text) = some ['|'] ∧
      ((root ⟨.tableRow, [.token bar, cell]⟩).tokenAt? 1).map (·.token.text) = some [] := by
  constructor <;> cbv

theorem containsSpan_of_child {e : PlacedElement} (h : e ∈ n.children) :
    n.fullSpan.containsSpan e.fullSpan = true :=
  Span.containsSpan_iff.2 ⟨n.tiles_children.start_le _ (List.mem_map_of_mem h),
    n.tiles_children.stop_le _ (List.mem_map_of_mem h)⟩

/-- A node contains all nodes under it. -/
theorem containsSpan_of_mem_descendants {n x : PlacedNode} (h : x ∈ n.descendants) :
    n.fullSpan.containsSpan x.fullSpan = true := by
  rcases eq_or_under_child h with rfl | ⟨m, hm, hx⟩
  · exact Span.containsSpan_iff.2 ⟨Nat.le_refl _, Nat.le_refl _⟩
  · have hchild : n.fullSpan.containsSpan m.fullSpan = true := containsSpan_of_child hm
    exact Span.containsSpan_trans hchild (containsSpan_of_mem_descendants hx)
termination_by n.size
decreasing_by exact size_lt_of_mem hm

/-- Of the children of a node only one contains a span that is not empty. -/
theorem child_unique (hs : s.isEmpty = false) (hm : .node m ∈ n.children)
    (hx : .node x ∈ n.children) (hms : m.fullSpan.containsSpan s = true)
    (hxs : x.fullSpan.containsSpan s = true) : m = x := by
  have hstart : n.fullSpan.contains s.start = true :=
    (Span.contains_start hs (Span.containsSpan_trans (containsSpan_of_child hm) hms)).1
  obtain ⟨e, he⟩ := exists_child hstart
  have honly {y : PlacedNode} (hy : .node y ∈ n.children)
      (hys : y.fullSpan.containsSpan s = true) : .node y = e := by
    have hmem : .node y ∈ n.children.filter (·.fullSpan.contains s.start) :=
      List.mem_filter.2 ⟨hy, (Span.contains_start hs hys).1⟩
    rw [he] at hmem
    exact List.mem_singleton.1 hmem
  exact PlacedElement.node.inj ((honly hm hms).trans (honly hx hxs).symm)

/-- The node that covers a span which is not empty is under the node that is asked and contains the
span, and every node under the latter that contains the span is the covering node or above it. -/
theorem covering_deepest (hs : s.isEmpty = false) (h : n.fullSpan.containsSpan s = true) :
    n.covering s ∈ n.descendants ∧ (n.covering s).fullSpan.containsSpan s = true ∧
      ∀ m ∈ n.descendants, m.fullSpan.containsSpan s = true →
        m = n.covering s ∨ m ∈ (n.covering s).ancestors := by
  fun_induction covering n s with
  | case1 n hnone =>
    refine ⟨mem_descendants_self n, h, fun m hm hms => .inl ?_⟩
    refine (eq_or_under_child hm).resolve_right ?_
    rintro ⟨c, hc, hmc⟩
    -- a child that contains the node would have been found
    have hcs := Span.containsSpan_trans (containsSpan_of_mem_descendants hmc) hms
    have hmem : c ∈ n.childNodes := List.mem_filterMap.2 ⟨.node c, hc, rfl⟩
    have hfound := List.find?_eq_none.1 hnone c hmem
    simp [hcs, (Span.contains_start hs hcs).2] at hfound
  | case2 n c hc ih =>
    have hmem : .node c ∈ n.children :=
      mem_children_of_mem_childNodes (List.mem_of_find?_eq_some hc)
    have hcs : c.fullSpan.containsSpan s = true := by
      have := List.find?_some hc
      simp only [Bool.and_eq_true] at this
      exact this.1
    obtain ⟨hin, hcontains, hdeepest⟩ := ih hcs
    have hunder : c.covering s ∈ n.descendants := mem_descendants_of_child hmem hin
    refine ⟨hunder, hcontains, fun m hm hms => ?_⟩
    rcases eq_or_under_child hm with rfl | ⟨x, hx, hmx⟩
    · exact (List.mem_cons.1 (mem_ancestors_of_mem_descendants hunder))
    · have hxs := Span.containsSpan_trans (containsSpan_of_mem_descendants hmx) hms
      obtain rfl := child_unique hs hx hmem hxs hcs
      exact hdeepest m hmx hms

/-- The node of a table around its second bar is the row: the empty cell in front of the bar holds no
byte of it. -/
theorem covering_deepest_row :
    let bar : Token := .plain .verticalBarToken ['|'] [] []
    let cell : Element := .node .tableCell [.token (.absent .tableLiteralToken [] [])]
    let n := root ⟨.table, [.node .tableRow [.token bar, cell, .token bar]]⟩
    let s := Span.ofWidth 1 1
    s.isEmpty = false ∧ n.fullSpan.containsSpan s = true ∧ (n.covering s).kind = .tableRow ∧
      n.covering s ∈ n.descendants ∧ (n.covering s).fullSpan.containsSpan s = true ∧
      ∀ m ∈ n.descendants, m.fullSpan.containsSpan s = true →
        m = n.covering s ∨ m ∈ (n.covering s).ancestors := by
  intro bar cell n s
  have hs : s.isEmpty = false := by decide
  have h : n.fullSpan.containsSpan s = true := by decide
  have hk : (n.covering s).kind = .tableRow := by cbv
  exact ⟨hs, h, hk, covering_deepest hs h⟩

end PlacedNode

end GherkinTree
