import GherkinTree.Tree.Placed

/-!
Conditions on all nodes of a tree. A condition may depend on the kind of the node above and on the
offset at which the node begins. Main statement: a condition holds of all placed nodes that a walk
finds exactly if it holds everywhere in the tree, and a token that a walk finds is a child of a
node that a walk finds.
-/

namespace GherkinTree

namespace Element

mutual

/-- Every node of an element meets a condition. -/
def Everywhere (P : Option Kind → Nat → Node → Prop) (above : Option Kind) (offset : Nat) :
    Element → Prop
  | token _ => True
  | node k cs => P above offset ⟨k, cs⟩ ∧ EverywhereAll P (some k) offset cs

/-- Every node of elements that stand one behind the other meets a condition. -/
def EverywhereAll (P : Option Kind → Nat → Node → Prop) (above : Option Kind) (offset : Nat) :
    List Element → Prop
  | [] => True
  | e :: es => Everywhere P above offset e ∧ EverywhereAll P above (offset + e.fullWidth) es

end

variable {P : Option Kind → Nat → Node → Prop} {above : Option Kind} {o : Nat}

@[simp] theorem everywhere_token (t : Token) : (token t).Everywhere P above o ↔ True := by
  simp only [Everywhere]

theorem everywhere_node (k : Kind) (cs : List Element) :
    (node k cs).Everywhere P above o ↔ P above o ⟨k, cs⟩ ∧ EverywhereAll P (some k) o cs := by
  simp only [Everywhere]

@[simp] theorem everywhereAll_nil : EverywhereAll P above o [] ↔ True := by
  simp only [EverywhereAll]

@[simp] theorem everywhereAll_cons (e : Element) (es : List Element) :
    EverywhereAll P above o (e :: es) ↔
      e.Everywhere P above o ∧ EverywhereAll P above (o + e.fullWidth) es := by
  simp only [EverywhereAll]

theorem fullWidthAll_append (as bs : List Element) :
    fullWidthAll (as ++ bs) = fullWidthAll as + fullWidthAll bs := by
  induction as with
  | nil => simp
  | cons a as ih => simp [ih, Nat.add_assoc]

theorem everywhereAll_append (as bs : List Element) :
    EverywhereAll P above o (as ++ bs) ↔
      EverywhereAll P above o as ∧ EverywhereAll P above (o + fullWidthAll as) bs := by
  induction as generalizing o with
  | nil => simp
  | cons a as ih => simp [ih, and_assoc, Nat.add_assoc]

/-- Elements meet a condition together if each does wherever it begins. -/
theorem everywhereAll_of_forall {es : List Element}
    (h : ∀ e ∈ es, ∀ o, e.Everywhere P above o) : EverywhereAll P above o es := by
  induction es generalizing o with
  | nil => simp
  | cons e es ih =>
    rw [everywhereAll_cons]
    exact ⟨h e List.mem_cons_self o, ih fun x hx => h x (List.mem_cons_of_mem e hx)⟩

mutual

/-- A condition that every node meets holds everywhere. -/
theorem everywhere_of_forall (h : ∀ above o n, P above o n) (above : Option Kind) (o : Nat) :
    (e : Element) → e.Everywhere P above o
  | token t => (everywhere_token t).2 trivial
  | node k cs => (everywhere_node k cs).2 ⟨h above o _, everywhereAll_of_nodes h (some k) o cs⟩

theorem everywhereAll_of_nodes (h : ∀ above o n, P above o n) (above : Option Kind) (o : Nat) :
    (es : List Element) → EverywhereAll P above o es
  | [] => everywhereAll_nil.2 trivial
  | e :: es => (everywhereAll_cons e es).2
    ⟨everywhere_of_forall h above o e, everywhereAll_of_nodes h above _ es⟩

end

end Element

namespace PlacedNode

variable {P : Option Kind → Nat → Node → Prop}

/-- The kind of the node above. -/
def kindAbove (n : PlacedNode) : Option Kind := n.above.head?.map fun s => s.node.kind

/-- A placed node meets a condition together with all nodes under it. -/
def MeetsBelow (P : Option Kind → Nat → Node → Prop) (n : PlacedNode) : Prop :=
  n.node.toElement.Everywhere P n.kindAbove n.offset

theorem everywhereAll_iff_childrenFrom (n : PlacedNode) (o i : Nat) (es : List Element) :
    Element.EverywhereAll P (some n.node.kind) o es ↔
      ∀ m ∈ (n.childrenFrom o i es).filterMap PlacedElement.node?, m.MeetsBelow P := by
  induction es generalizing o i with
  | nil => simp [childrenFrom]
  | cons e es ih =>
    rw [Element.everywhereAll_cons, ih _ (i + 1)]
    cases e with
    | token t => simp [childrenFrom, child, PlacedElement.node?, List.filterMap_cons]
    | node k cs =>
      simp [childrenFrom, child, PlacedElement.node?, MeetsBelow, kindAbove, Node.toElement]

theorem meetsBelow_iff (n : PlacedNode) :
    n.MeetsBelow P ↔ P n.kindAbove n.offset n.node ∧ ∀ m ∈ n.childNodes, m.MeetsBelow P := by
  rw [MeetsBelow, Node.toElement, Element.everywhere_node, everywhereAll_iff_childrenFrom n _ 0]
  rfl

theorem forall_walkNodes_iff (stack : List PlacedNode) :
    (∀ m ∈ walkNodes stack, P m.kindAbove m.offset m.node) ↔ ∀ n ∈ stack, n.MeetsBelow P := by
  fun_induction walkNodes stack with
  | case1 => simp
  | case2 n stack ih =>
    rw [List.forall_mem_cons, ih, List.forall_mem_append, List.forall_mem_cons, meetsBelow_iff,
      and_assoc]

/-- All nodes that a walk finds meet a condition exactly if it holds everywhere in the tree. -/
theorem forall_descendants_iff (n : PlacedNode) :
    (∀ m ∈ n.descendants, P m.kindAbove m.offset m.node) ↔ n.MeetsBelow P := by
  rw [descendants, forall_walkNodes_iff]
  simp

theorem walkNodes_append (as bs : List PlacedNode) :
    walkNodes (as ++ bs) = walkNodes as ++ walkNodes bs := by
  fun_induction walkNodes as with
  | case1 => simp
  | case2 n stack ih => rw [List.cons_append, walkNodes, ← List.append_assoc, ih, List.cons_append]

theorem mem_descendants_self (n : PlacedNode) : n ∈ n.descendants := by
  rw [descendants, walkNodes]
  exact List.mem_cons_self

/-- What is under a child is under the node. -/
theorem mem_descendants_of_child {n m x : PlacedNode} (hm : .node m ∈ n.children)
    (hx : x ∈ m.descendants) : x ∈ n.descendants := by
  have hm : m ∈ n.childNodes := List.mem_filterMap.2 ⟨_, hm, rfl⟩
  obtain ⟨as, bs, hs⟩ := List.append_of_mem hm
  rw [descendants, walkNodes, List.append_nil, hs, List.append_cons, walkNodes_append,
    walkNodes_append]
  exact List.mem_cons_of_mem n (List.mem_append_left _ (List.mem_append_right _ hx))

theorem mem_walkNodes_of_mem {stack : List PlacedNode} {n x : PlacedNode} (hn : n ∈ stack)
    (hx : x ∈ n.descendants) : x ∈ walkNodes stack := by
  obtain ⟨as, bs, hs⟩ := List.append_of_mem hn
  rw [hs, List.append_cons, walkNodes_append, walkNodes_append]
  exact List.mem_append_left _ (List.mem_append_right _ hx)

/-- What is under a node that a walk finds is found by the walk. -/
theorem mem_walkNodes_trans {stack : List PlacedNode} {n x : PlacedNode} (hn : n ∈ walkNodes stack)
    (hx : x ∈ n.descendants) : x ∈ walkNodes stack := by
  fun_induction walkNodes stack with
  | case1 => cases hn
  | case2 m stack ih =>
    rcases List.mem_cons.1 hn with rfl | hn
    · rw [← walkNodes]
      exact mem_walkNodes_of_mem List.mem_cons_self hx
    · exact List.mem_cons_of_mem m (ih hn)

theorem mem_descendants_of_mem_childNodes {n m x : PlacedNode} (hm : m ∈ n.descendants)
    (hx : x ∈ m.childNodes) : x ∈ n.descendants :=
  mem_walkNodes_trans hm
    (mem_descendants_of_child (mem_children_of_mem_childNodes hx) x.mem_descendants_self)

/-- A condition on all nodes under a node is one on all nodes under each of them. -/
theorem MeetsBelow.of_mem {n m : PlacedNode} (h : n.MeetsBelow P) (hm : m ∈ n.descendants) :
    m.MeetsBelow P :=
  (forall_descendants_iff m).1 fun x hx =>
    (forall_descendants_iff n).2 h x (mem_walkNodes_trans hm hx)

theorem kindAbove_of_mem_childrenFrom {n m : PlacedNode} {o i : Nat} {es : List Element}
    (h : .node m ∈ n.childrenFrom o i es) : m.kindAbove = some n.kind := by
  induction es generalizing o i with
  | nil => cases h
  | cons e es ih =>
    rcases List.mem_cons.1 h with he | h
    · cases e with
      | token t => cases he
      | node k cs =>
        cases he
        rfl
    · exact ih h

/-- A token is a child of a node. -/
def Holds (n : PlacedNode) (t : PlacedToken) : Prop :=
  t.parent = n ∧ n.node.children[t.index]? = some (.token t.token)

theorem holds_of_mem_childrenFrom (n : PlacedNode) {t : PlacedToken} {o i : Nat}
    {es : List Element} (before : List Element) (hes : n.node.children = before ++ es)
    (hi : i = before.length) (h : .token t ∈ n.childrenFrom o i es) : n.Holds t := by
  induction es generalizing o i before with
  | nil => cases h
  | cons e es ih =>
    rcases List.mem_cons.1 h with h | h
    · cases e with
      | token u =>
        cases h
        refine ⟨rfl, ?_⟩
        rw [hes, hi, List.getElem?_append_right (Nat.le_refl _), Nat.sub_self]
        rfl
      | node k cs => cases h
    · exact ih (before ++ [e]) (by simp [hes]) (by simp [hi]) h

theorem parent_of_mem_walkTokens {t : PlacedToken} (stack : List PlacedElement)
    (h : t ∈ walkTokens stack) :
    .token t ∈ stack ∨ ∃ n, .node n ∈ stack ∧ ∃ m ∈ n.descendants, m.Holds t := by
  fun_induction walkTokens stack with
  | case1 => cases h
  | case2 u stack ih =>
    rcases List.mem_cons.1 h with rfl | h
    · exact .inl List.mem_cons_self
    · rcases ih h with h | ⟨n, hn, hm⟩
      · exact .inl (List.mem_cons_of_mem _ h)
      · exact .inr ⟨n, List.mem_cons_of_mem _ hn, hm⟩
  | case3 n stack ih =>
    rcases ih h with h | ⟨m, hm, x, hx, ht⟩
    · rcases List.mem_append.1 h with h | h
      · exact .inr ⟨n, List.mem_cons_self, n, n.mem_descendants_self,
          holds_of_mem_childrenFrom n [] rfl rfl h⟩
      · exact .inl (List.mem_cons_of_mem _ h)
    · rcases List.mem_append.1 hm with hm | hm
      · exact .inr ⟨n, List.mem_cons_self, x, mem_descendants_of_child hm hx, ht⟩
      · exact .inr ⟨m, List.mem_cons_of_mem _ hm, x, hx, ht⟩

/-- A token that a walk finds is a child of a node that a walk finds. -/
theorem parent_of_mem_descendantTokens {n : PlacedNode} {t : PlacedToken}
    (h : t ∈ n.descendantTokens) : t.parent ∈ n.descendants ∧ t.parent.Holds t := by
  rcases parent_of_mem_walkTokens _ h with h | ⟨m, hm, x, hx, ht⟩
  · exact nomatch List.mem_singleton.1 h
  · cases List.mem_singleton.1 hm
    obtain ⟨rfl, -⟩ := id ht
    exact ⟨hx, ht⟩

end PlacedNode

end GherkinTree
