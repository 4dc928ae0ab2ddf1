import GherkinTree.Proofs.Ownership

/-!
The order of the walk over the nodes of a tree. A node comes before what is under it, and its children
come with what is under them, one after the other. Main statement: the walk comes to no node twice,
as the way from a node to the root tells under which child it is.
-/

namespace GherkinTree

namespace PlacedNode

variable {n m x : PlacedNode}

theorem walkNodes_eq_flatMap (stack : List PlacedNode) :
    walkNodes stack = stack.flatMap descendants := by
  induction stack with
  | nil =>
    rw [walkNodes]
    rfl
  | cons n stack ih =>
    rw [← List.singleton_append, walkNodes_append, ih]
    rfl

theorem descendants_eq_cons (n : PlacedNode) :
    n.descendants = n :: n.childNodes.flatMap descendants := by
  rw [descendants, walkNodes, List.append_nil, walkNodes_eq_flatMap]

theorem ancestors_of_mem_childNodes (h : m ∈ n.childNodes) : m.ancestors = n :: n.ancestors := by
  rcases PlacedElement.above_of_mem_childrenFrom (mem_children_of_mem_childNodes h) with
    ⟨_, ⟨⟩, habove⟩ | ⟨_, ⟨⟩, -⟩
  exact habove

/-- The children of a node stand at different places. -/
theorem nodup_childNodes (n : PlacedNode) : n.childNodes.Nodup := by
  have hfrom (es : List Element) (o i : Nat) :
      (∀ m ∈ (n.childrenFrom o i es).filterMap PlacedElement.node?, i ≤ m.index) ∧
        ((n.childrenFrom o i es).filterMap PlacedElement.node?).Nodup := by
    induction es generalizing o i with
    | nil => exact ⟨List.forall_mem_nil _, List.nodup_nil⟩
    | cons e es ih =>
      obtain ⟨hle, hnodup⟩ := ih (o + e.fullWidth) (i + 1)
      cases e with
      | token t => exact ⟨fun m hm => Nat.le_of_succ_le (hle m hm), hnodup⟩
      | node k cs =>
        have hcons : (n.childrenFrom o i (.node k cs :: es)).filterMap PlacedElement.node? =
            ⟨⟨⟨k, cs⟩, o, i⟩, n.toSite :: n.above⟩ ::
              (n.childrenFrom (o + (Element.node k cs).fullWidth) (i + 1) es).filterMap
                PlacedElement.node? := rfl
        rw [hcons, List.forall_mem_cons, List.nodup_cons]
        refine ⟨⟨Nat.le_refl i, fun m hm => Nat.le_of_succ_le (hle m hm)⟩, fun hmem => ?_, hnodup⟩
        exact absurd (hle _ hmem) (Nat.not_succ_le_self i)
  exact (hfrom _ _ _).2

/-- A node is under one child only. -/
theorem eq_of_mem_descendants {c d : PlacedNode} (hc : c ∈ n.childNodes) (hd : d ∈ n.childNodes)
    (hxc : x ∈ c.descendants) (hxd : x ∈ d.descendants) : c = d := by
  have hlinec := suffix_of_mem_ancestors (mem_ancestors_of_mem_descendants hxc)
  have hlined := suffix_of_mem_ancestors (mem_ancestors_of_mem_descendants hxd)
  rw [ancestors_of_mem_childNodes hc] at hlinec
  rw [ancestors_of_mem_childNodes hd] at hlined
  have hsuffix := List.suffix_of_suffix_length_le hlinec hlined (Nat.le_refl _)
  exact (List.cons.inj (hsuffix.eq_of_length rfl)).1

/-- A node is not under its own children. -/
theorem not_mem_descendants_of_child {c : PlacedNode} (hc : c ∈ n.childNodes) :
    n ∉ c.descendants := by
  intro h
  have hline := (suffix_of_mem_ancestors (mem_ancestors_of_mem_descendants h)).length_le
  rw [ancestors_of_mem_childNodes hc, List.length_cons, List.length_cons] at hline
  omega

/-- The walk comes to no node twice. -/
theorem nodup_descendants (n : PlacedNode) : n.descendants.Nodup := by
  rw [descendants_eq_cons, List.nodup_cons, List.nodup_flatMap]
  refine ⟨fun h => ?_, fun c hc => nodup_descendants c, ?_⟩
  · obtain ⟨c, hc, hn⟩ := List.mem_flatMap.1 h
    exact not_mem_descendants_of_child hc hn
  · refine List.Pairwise.imp_of_mem (fun {c d} hc hd hne x hxc hxd => ?_) n.nodup_childNodes
    exact hne (eq_of_mem_descendants hc hd hxc hxd)
termination_by n.size
decreasing_by exact size_lt_of_mem (mem_children_of_mem_childNodes hc)

end PlacedNode

end GherkinTree
