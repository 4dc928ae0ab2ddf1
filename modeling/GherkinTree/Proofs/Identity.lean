import GherkinTree.Proofs.Edge
import GherkinTree.Proofs.KeywordTable
import GherkinTree.Proofs.Spaced

/-!
What tells elements of a tree apart. An element is reached on a way from the root, which says at
each node which child to take. Main statement: in the tree of a document, two nodes reached on
different ways never count as the same, nor do two tokens, although only what they hold and where
they begin counts.
-/

namespace GherkinTree

namespace PlacedElement

/-- The element that a way leads to. The way gives the index of a child at each node. -/
def follow? : PlacedElement → List Nat → Option PlacedElement
  | e, [] => some e
  | token _, _ :: _ => none
  | node n, i :: p => n.children[i]?.bind fun c => c.follow? p

variable {e c : PlacedElement} {n m : PlacedNode} {t u : PlacedToken} {p q : List Nat} {i : Nat}

@[simp] theorem follow?_nil (e : PlacedElement) : e.follow? [] = some e := by
  cases e <;> rfl

theorem follow?_node_cons (n : PlacedNode) (i : Nat) (p : List Nat) :
    (node n).follow? (i :: p) = n.children[i]?.bind fun c => c.follow? p := rfl

theorem follow?_append (e : PlacedElement) (p q : List Nat) :
    e.follow? (p ++ q) = (e.follow? p).bind fun c => c.follow? q := by
  induction p generalizing e with
  | nil => rw [List.nil_append, follow?_nil, Option.bind_some]
  | cons i p ih =>
    cases e with
    | token t => rfl
    | node n =>
      rw [List.cons_append, follow?_node_cons, follow?_node_cons, Option.bind_assoc]
      exact Option.bind_congr fun c _ => ih c

/-- The steps of a way that leads to something. -/
theorem follow?_cons_eq_some (h : e.follow? (i :: p) = some c) :
    ∃ n x, e = node n ∧ n.children[i]? = some x ∧ x.follow? p = some c := by
  cases e with
  | token t => cases h
  | node n =>
    obtain ⟨x, hx, hc⟩ := Option.bind_eq_some_iff.1 h
    exact ⟨n, x, rfl, hx, hc⟩

/-- A token that is reached from an element is among its tokens. -/
theorem site_mem_of_follow? (h : e.follow? p = some (token t)) : t.site ∈ e.sites := by
  induction p generalizing e with
  | nil =>
    rw [follow?_nil] at h
    cases h
    exact List.mem_singleton_self _
  | cons i p ih =>
    obtain ⟨n, x, rfl, hx, hc⟩ := follow?_cons_eq_some h
    rw [sites, ← PlacedNode.sites_childrenFrom n n.offset 0]
    exact List.mem_flatMap.2 ⟨x, List.mem_of_getElem? hx, ih hc⟩

/-- If no two tokens under an element have one site, the site of a token tells the way to it. -/
theorem way_eq_of_site_eq (hnodup : e.sites.Nodup) (hp : e.follow? p = some (token t))
    (hq : e.follow? q = some (token u)) (h : t.site = u.site) : p = q := by
  induction p generalizing e q with
  | nil =>
    rw [follow?_nil] at hp
    cases hp
    cases q with
    | nil => rfl
    | cons j q => cases hq
  | cons i p ih =>
    obtain ⟨n, x, rfl, hx, hp⟩ := follow?_cons_eq_some hp
    cases q with
    | nil => cases hq
    | cons j q =>
      rw [follow?_node_cons] at hq
      obtain ⟨y, hy, hq⟩ := Option.bind_eq_some_iff.1 hq
      rw [sites, ← PlacedNode.sites_childrenFrom n n.offset 0, List.nodup_flatMap] at hnodup
      obtain ⟨hsites, hdisjoint⟩ := hnodup
      have htx := site_mem_of_follow? hp
      have hty := h ▸ site_mem_of_follow? hq
      obtain ⟨hi, rfl⟩ := List.getElem?_eq_some_iff.1 hx
      obtain ⟨hj, rfl⟩ := List.getElem?_eq_some_iff.1 hy
      rcases Nat.lt_trichotomy i j with hij | rfl | hij
      · exact absurd hty (List.pairwise_iff_getElem.1 hdisjoint i j hi hj hij htx)
      · rw [ih (hsites _ (List.getElem_mem hi)) hp hq]
      · exact absurd htx (List.pairwise_iff_getElem.1 hdisjoint j i hj hi hij hty)

theorem filled_of_follow? (hn : n.Filled) (h : (node n).follow? p = some (node m)) : m.Filled := by
  induction p generalizing n with
  | nil =>
    rw [follow?_nil] at h
    cases h
    exact hn
  | cons i p ih =>
    rw [follow?_node_cons] at h
    obtain ⟨x, hx, h⟩ := Option.bind_eq_some_iff.1 h
    cases x with
    | token t =>
      cases p with
      | nil => cases h
      | cons j p => cases h
    | node y => exact ih (hn.child (List.mem_of_getElem? hx)) h

end PlacedElement

namespace PlacedNode

open PlacedElement

/-- From nodes that hold the same tree, one way leads to tokens that hold the same. -/
theorem exists_way {n m : PlacedNode} (hn : n.Filled) (hnode : n.node = m.node)
    (hoffset : n.offset = m.offset) :
    ∃ z t u, (node n).follow? z = some (.token t) ∧ (node m).follow? z = some (.token u) ∧
      t.site = u.site := by
  cases hes : n.node.children with
  | nil =>
    refine absurd ?_ hn.children_ne_nil
    rw [children, hes, childrenFrom]
  | cons e es =>
    have hfirst : n.children[0]? = some (n.child n.offset 0 e) := by
      rw [children, hes, childrenFrom, List.getElem?_cons_zero]
    have hfirst' : m.children[0]? = some (m.child n.offset 0 e) := by
      rw [children, ← hnode, hes, childrenFrom, List.getElem?_cons_zero, hoffset]
    cases e with
    | token t =>
      refine ⟨[0], ⟨t, n.offset, 0, n⟩, ⟨t, n.offset, 0, m⟩, ?_, ?_, rfl⟩
      · rw [follow?_node_cons, hfirst, Option.bind_some, follow?_nil, child]
      · rw [follow?_node_cons, hfirst', Option.bind_some, follow?_nil, child]
    | node k cs =>
      have hmem := List.mem_of_getElem? hfirst
      have hlt := size_lt_of_mem hmem
      obtain ⟨z, t, u, ht, hu, h⟩ := exists_way (hn.child hmem)
        (m := ⟨⟨⟨k, cs⟩, n.offset, 0⟩, m.toSite :: m.above⟩) rfl rfl
      refine ⟨0 :: z, t, u, ?_, ?_, h⟩
      · rw [follow?_node_cons, hfirst, Option.bind_some, child, ht]
      · rw [follow?_node_cons, hfirst', Option.bind_some, child, hu]
termination_by n.size

end PlacedNode

/-- In the tree of a document, nodes that are reached on different ways are never the same, nor are
tokens, even where both lack any bytes. -/
theorem FeatureFile.not_same_of_ways {o : Options} (ho : o.dialect ∈ Dialect.bundled) (text : Text)
    {p q : List Nat} (hne : p ≠ q) :
    (∀ n m, (PlacedElement.node (parse o text).root).follow? p = some (.node n) →
        (PlacedElement.node (parse o text).root).follow? q = some (.node m) → n.same m = false) ∧
      ∀ t u, (PlacedElement.node (parse o text).root).follow? p = some (.token t) →
        (PlacedElement.node (parse o text).root).follow? q = some (.token u) →
          t.same u = false := by
  have hnodup : (PlacedElement.node (parse o text).root).sites.Nodup := nodup_sites_parse ho text
  refine ⟨fun n m hn hm => ?_, fun t u ht hu => ?_⟩
  · rw [Bool.eq_false_iff]
    intro hsame
    obtain ⟨hoffset, hnode⟩ : n.offset = m.offset ∧ n.node = m.node := by
      simpa [PlacedNode.same] using hsame
    obtain ⟨z, t, u, ht, hu, h⟩ := PlacedNode.exists_way
      (PlacedElement.filled_of_follow? (filled_root o text) hn) hnode hoffset
    have hp : (PlacedElement.node (parse o text).root).follow? (p ++ z) = some (.token t) := by
      rw [PlacedElement.follow?_append, hn, Option.bind_some, ht]
    have hq : (PlacedElement.node (parse o text).root).follow? (q ++ z) = some (.token u) := by
      rw [PlacedElement.follow?_append, hm, Option.bind_some, hu]
    exact hne (List.append_cancel_right (PlacedElement.way_eq_of_site_eq hnodup hp hq h))
  · rw [Bool.eq_false_iff]
    intro hsame
    have h : t.site = u.site := by
      simpa [PlacedToken.same, PlacedToken.site] using hsame
    exact hne (PlacedElement.way_eq_of_site_eq hnodup ht hu h)

/-- Two empty cells of a row, which hold the same. -/
theorem FeatureFile.not_same_cells :
    let root := PlacedElement.node (parse .default "Scenario: s\nGiven a\n|||\n".toList).root
    Options.default.dialect ∈ Dialect.bundled ∧ [0, 2, 3, 2, 0, 1] ≠ [0, 2, 3, 2, 0, 3] ∧
      ((∀ n m, root.follow? [0, 2, 3, 2, 0, 1] = some (.node n) →
          root.follow? [0, 2, 3, 2, 0, 3] = some (.node m) → n.same m = false) ∧
        ∀ t u, root.follow? [0, 2, 3, 2, 0, 1] = some (.token t) →
          root.follow? [0, 2, 3, 2, 0, 3] = some (.token u) → t.same u = false) ∧
      (root.follow? [0, 2, 3, 2, 0, 1]).map PlacedElement.kind = some .tableCell ∧
      (root.follow? [0, 2, 3, 2, 0, 3]).map PlacedElement.kind = some .tableCell :=
  ⟨Dialect.english_mem_bundled, by decide,
    not_same_of_ways Dialect.english_mem_bundled _ (by decide), by
      rw [Options.default_eq]
      constructor <;> cbv⟩

end GherkinTree
