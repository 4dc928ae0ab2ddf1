import GherkinTree.Proofs.Edge
import GherkinTree.Proofs.Preorder

/-!
Walking through a tree with a stack. Each step takes what is on top of the stack and puts its
children there, the last of them first. Main statement: from a stack that holds a single node, the
steps give the nodes and the tokens under it in the order of the recursion over children, and each
of them is the child of its parent that its index tells.
-/

namespace GherkinTree

/-- The steps from a state give these values, one after the other, and then no more. -/
inductive Iterates {σ α : Type} (next : σ → Option (α × σ)) : σ → List α → Prop where
  | done {s : σ} (last : next s = none) : Iterates next s []
  | step {s s' : σ} {x : α} {xs : List α} (first : next s = some (x, s'))
      (rest : Iterates next s' xs) : Iterates next s (x :: xs)

namespace Iterates

variable {σ α : Type} {next : σ → Option (α × σ)} {s s' : σ} {xs ys : List α}

/-- Only the next step matters of a state. -/
theorem of_next_eq (h : Iterates next s' xs) (hs : next s = next s') : Iterates next s xs := by
  cases h with
  | done last => exact .done (hs.trans last)
  | step first rest => exact .step (hs.trans first) rest

/-- A state gives one list of values only. -/
theorem iff_eq (h : Iterates next s xs) : Iterates next s ys ↔ ys = xs := by
  refine ⟨fun h' => ?_, fun he => he ▸ h⟩
  induction h generalizing ys with
  | done last =>
    cases h' with
    | done => rfl
    | step first => cases last.symm.trans first
  | step first rest ih =>
    cases h' with
    | done last => cases last.symm.trans first
    | step first' rest' =>
      cases first.symm.trans first'
      rw [ih rest']

end Iterates

namespace PlacedElement

/-- Which child of its parent the element is. -/
def index : PlacedElement → Nat
  | node n => n.index
  | token t => t.index

def parent? : PlacedElement → Option PlacedNode
  | node n => n.parent?
  | token t => some t.parent

theorem sizeSum_reverse (es : List PlacedElement) : sizeSum es.reverse = sizeSum es := by
  induction es with
  | nil => rfl
  | cons e es ih => simp [ih, Nat.add_comm]

theorem size_lt_of_mem_children {n : PlacedNode} {e : PlacedElement} (h : e ∈ n.children) :
    e.size < n.size := by
  have := size_le_sizeSum h
  have := n.size_eq
  omega

/-- An element and all elements under it, each node in front of what is under it. -/
def preorder : PlacedElement → List PlacedElement
  | token t => [token t]
  | node n => node n :: n.children.attach.flatMap fun e => preorder e.1
termination_by e => e.size
decreasing_by exact size_lt_of_mem_children e.2

theorem preorder_token (t : PlacedToken) : (token t).preorder = [token t] := by rw [preorder]

theorem preorder_node (n : PlacedNode) :
    (node n).preorder = node n :: n.children.flatMap preorder := by
  rw [preorder, List.flatMap_subtype (g := preorder) (fun _ _ => rfl), List.unattach_attach]

end PlacedElement

namespace PlacedNode

open PlacedElement

/-- A step of the walk over nodes. The top of the stack is its end. -/
def nextNode? (stack : List PlacedNode) : Option (PlacedNode × List PlacedNode) :=
  stack.getLast?.map fun n => (n, stack.dropLast ++ n.childNodes.reverse)

/-- A step of the walk over tokens: nodes on top of the stack give way to their children until there
is a token. -/
def nextToken? (stack : List PlacedElement) : Option (PlacedToken × List PlacedElement) :=
  match _h : stack.getLast? with
  | none => none
  | some (.token t) => some (t, stack.dropLast)
  | some (.node n) => nextToken? (stack.dropLast ++ n.children.reverse)
termination_by sizeSum stack
decreasing_by
  have hstack := congrArg sizeSum (List.dropLast_append_getLast? _ _h)
  have := n.size_eq
  simp only [sizeSum_append, sizeSum_cons, sizeSum_nil, PlacedElement.size, sizeSum_reverse]
    at hstack ⊢
  omega

@[simp] theorem nextToken?_nil : nextToken? [] = none := by rw [nextToken?]; rfl

@[simp] theorem nextToken?_token (stack : List PlacedElement) (t : PlacedToken) :
    nextToken? (stack ++ [.token t]) = some (t, stack) := by
  rw [nextToken?]
  split <;> simp_all

@[simp] theorem nextToken?_node (stack : List PlacedElement) (n : PlacedNode) :
    nextToken? (stack ++ [.node n]) = nextToken? (stack ++ n.children.reverse) := by
  rw [nextToken?]
  split <;> simp_all

/-- The steps of the walk over nodes, from any stack. -/
theorem iterates_walkNodes (stack : List PlacedNode) :
    Iterates nextNode? stack.reverse (walkNodes stack) := by
  fun_induction walkNodes stack with
  | case1 => exact .done rfl
  | case2 n stack ih =>
    rw [List.reverse_append] at ih
    exact .step (by simp [nextNode?]) ih

/-- The steps of the walk over tokens, from any stack. -/
theorem iterates_walkTokens (stack : List PlacedElement) :
    Iterates nextToken? stack.reverse (walkTokens stack) := by
  fun_induction walkTokens stack with
  | case1 => exact .done nextToken?_nil
  | case2 t stack ih => exact .step (by simp) ih
  | case3 n stack ih =>
    rw [List.reverse_append] at ih
    exact ih.of_next_eq (by simp)

/-- Tokens have no nodes under them. -/
theorem nodes_preorder_childNodes (es : List PlacedElement) :
    ((es.filterMap node?).flatMap fun m => (node m).preorder).filterMap node? =
      (es.flatMap preorder).filterMap node? := by
  induction es with
  | nil => rfl
  | cons e es ih =>
    cases e with
    | token t => simpa [List.filterMap_cons, node?, preorder_token] using ih
    | node m => simp [node?, ih]

theorem walkNodes_eq_preorder (stack : List PlacedNode) :
    walkNodes stack = (stack.flatMap fun n => (node n).preorder).filterMap node? := by
  fun_induction walkNodes stack with
  | case1 => rfl
  | case2 n stack ih =>
    rw [ih, List.flatMap_append, List.filterMap_append, childNodes, nodes_preorder_childNodes,
      List.flatMap_cons, preorder_node, List.filterMap_append]
    rfl

theorem walkTokens_eq_preorder (stack : List PlacedElement) :
    walkTokens stack = (stack.flatMap preorder).filterMap token? := by
  fun_induction walkTokens stack with
  | case1 => rfl
  | case2 t stack ih => simp [ih, preorder_token, token?]
  | case3 n stack ih =>
    rw [ih, List.flatMap_append, List.filterMap_append, List.flatMap_cons, preorder_node,
      List.filterMap_append]
    rfl

/-- A child stands at its index among the children. -/
theorem getElem?_childrenFrom {n : PlacedNode} {o i : Nat} {es : List Element} {e : PlacedElement}
    (h : e ∈ n.childrenFrom o i es) :
    ∃ j, e.index = i + j ∧ (n.childrenFrom o i es)[j]? = some e := by
  induction es generalizing o i with
  | nil => cases h
  | cons x xs ih =>
    rcases List.mem_cons.1 h with rfl | h
    · exact ⟨0, by cases x <;> rfl, rfl⟩
    · obtain ⟨j, hindex, hj⟩ := ih h
      exact ⟨j + 1, by omega, hj⟩

theorem getElem?_children {n : PlacedNode} {e : PlacedElement} (h : e ∈ n.children) :
    n.children[e.index]? = some e := by
  obtain ⟨j, hindex, hj⟩ := getElem?_childrenFrom h
  rwa [hindex, Nat.zero_add]

theorem parent?_eq_head? (n : PlacedNode) : n.parent? = n.ancestors.head? := by
  obtain ⟨s, above⟩ := n
  cases above <;> rfl

theorem parent?_of_mem_children {n : PlacedNode} {e : PlacedElement} (h : e ∈ n.children) :
    e.parent? = some n := by
  rcases above_of_mem_childrenFrom h with ⟨m, rfl, hm⟩ | ⟨t, rfl, ht⟩
  · rw [PlacedElement.parent?, parent?_eq_head?, hm, List.head?_cons]
  · rw [PlacedElement.parent?, ht]

/-- All that is under a node has its parent there too, and is the child that its index tells. -/
theorem exists_parent {n : PlacedNode} {e : PlacedElement} (h : e ∈ (node n).preorder) :
    e = node n ∨ ∃ p ∈ n.descendants, e.parent? = some p ∧ p.children[e.index]? = some e := by
  rw [preorder_node, List.mem_cons] at h
  refine h.imp_right fun h => ?_
  obtain ⟨c, hc, he⟩ := List.mem_flatMap.1 h
  have hchild : e = c →
      ∃ p ∈ n.descendants, e.parent? = some p ∧ p.children[e.index]? = some e := by
    rintro rfl
    exact ⟨n, n.mem_descendants_self, parent?_of_mem_children hc, getElem?_children hc⟩
  cases c with
  | token t =>
    rw [preorder_token, List.mem_singleton] at he
    exact hchild he
  | node m =>
    rcases exists_parent he with hself | ⟨p, hp, hpe⟩
    · exact hchild hself
    · exact ⟨p, mem_descendants_of_child hc hp, hpe⟩
termination_by n.size
decreasing_by exact size_lt_of_mem hc

/-- The steps of both walks, from a stack that holds a node alone, give the nodes and the tokens of
the recursion over children, in its order, and nothing else. The first token and the last are found
on the way down the first children and the last, if no node under the node is empty; and all that
the walks give but the node itself is the child of its parent that its index tells. -/
theorem walks_preorder (n : PlacedNode) :
    ((∀ ns, Iterates nextNode? [n] ns ↔ ns = n.descendants) ∧
        n.descendants = (node n).preorder.filterMap node?) ∧
      ((∀ ts, Iterates nextToken? [.node n] ts ↔ ts = n.descendantTokens) ∧
        n.descendantTokens = (node n).preorder.filterMap token?) ∧
      (n.Filled → ∃ first last,
        n.firstToken? = some first ∧ n.descendantTokens.head? = some first ∧
          n.lastToken? = some last ∧ n.descendantTokens.getLast? = some last) ∧
      (∀ m ∈ n.descendants, m ≠ n →
        ∃ p ∈ n.descendants, m.parent? = some p ∧ p.children[m.index]? = some (.node m)) ∧
      ∀ t ∈ n.descendantTokens,
        t.parent ∈ n.descendants ∧ t.parent.children[t.index]? = some (.token t) := by
  have hnodes : n.descendants = (node n).preorder.filterMap node? := by
    rw [descendants, walkNodes_eq_preorder, List.flatMap_singleton]
  have htokens : n.descendantTokens = (node n).preorder.filterMap token? := by
    rw [descendantTokens, walkTokens_eq_preorder, List.flatMap_singleton]
  refine ⟨⟨fun ns => (iterates_walkNodes [n]).iff_eq, hnodes⟩,
    ⟨fun ts => (iterates_walkTokens [.node n]).iff_eq, htokens⟩, fun hn => ?_, fun m hm hne => ?_,
    fun t ht => ?_⟩
  · obtain ⟨first, hfirst, hhead⟩ := head?_descendantTokens hn
    obtain ⟨last, hlast, hgetLast⟩ := getLast?_descendantTokens hn
    exact ⟨first, last, hfirst, hhead, hlast, hgetLast⟩
  · rw [hnodes] at hm
    obtain ⟨e, he, hem⟩ := List.mem_filterMap.1 hm
    cases e with
    | token t => cases hem
    | node x =>
      cases hem
      exact (exists_parent he).resolve_left fun h => hne (PlacedElement.node.inj h)
  · rw [htokens] at ht
    obtain ⟨e, he, het⟩ := List.mem_filterMap.1 ht
    cases e with
    | node x => cases het
    | token u =>
      cases het
      have hne : PlacedElement.token t ≠ node n := by
        intro h
        cases h
      obtain ⟨p, hp, hparent, hindex⟩ := (exists_parent he).resolve_left hne
      cases hparent
      exact ⟨hp, hindex⟩

end PlacedNode

end GherkinTree
