import GherkinTree.Proofs.Leaf

/-!
What the accessors of views read. The children of a placed node are the children of its tree, so an
accessor that picks children by their kinds gives what the tree holds of these kinds. Main
statements: the views among the children of a node, and its tokens, in terms of the tree.
-/

namespace GherkinTree

namespace Element

def node? : Element → Option Node
  | token _ => none
  | node k cs => some ⟨k, cs⟩

def token? : Element → Option Token
  | token t => some t
  | node .. => none

/-- The nodes among elements. -/
def nodesOf (es : List Element) : List Node := es.filterMap node?

/-- The tokens among elements. -/
def tokensOf (es : List Element) : List Token := es.filterMap token?

@[simp] theorem nodesOf_nil : nodesOf [] = [] := rfl
@[simp] theorem nodesOf_token (t : Token) (es : List Element) :
    nodesOf (token t :: es) = nodesOf es := rfl
@[simp] theorem nodesOf_toElement (n : Node) (es : List Element) :
    nodesOf (n.toElement :: es) = n :: nodesOf es := rfl
@[simp] theorem nodesOf_append (as bs : List Element) :
    nodesOf (as ++ bs) = nodesOf as ++ nodesOf bs := List.filterMap_append
@[simp] theorem nodesOf_map_toElement (ns : List Node) : nodesOf (ns.map Node.toElement) = ns := by
  induction ns with
  | nil => rfl
  | cons n ns ih => rw [List.map_cons, nodesOf_toElement, ih]
@[simp] theorem nodesOf_optional (n : Option Node) : nodesOf (Node.optional n) = n.toList :=
  nodesOf_map_toElement n.toList

@[simp] theorem tokensOf_nil : tokensOf [] = [] := rfl
@[simp] theorem tokensOf_token (t : Token) (es : List Element) :
    tokensOf (token t :: es) = t :: tokensOf es := rfl
@[simp] theorem tokensOf_toElement (n : Node) (es : List Element) :
    tokensOf (n.toElement :: es) = tokensOf es := rfl
@[simp] theorem tokensOf_append (as bs : List Element) :
    tokensOf (as ++ bs) = tokensOf as ++ tokensOf bs := List.filterMap_append
@[simp] theorem tokensOf_map_toElement (ns : List Node) :
    tokensOf (ns.map Node.toElement) = [] := by
  induction ns with
  | nil => rfl
  | cons n ns ih => rw [List.map_cons, tokensOf_toElement, ih]
@[simp] theorem tokensOf_optional (n : Option Node) : tokensOf (Node.optional n) = [] :=
  tokensOf_map_toElement n.toList

end Element

namespace PlacedNode

theorem map_node_childrenFrom (n : PlacedNode) (o i : Nat) (es : List Element) :
    ((n.childrenFrom o i es).filterMap PlacedElement.node?).map (·.node) = Element.nodesOf es := by
  induction es generalizing o i with
  | nil => rfl
  | cons e es ih =>
    cases e with
    | token t =>
      simpa [childrenFrom, child, PlacedElement.node?, List.filterMap_cons] using ih _ _
    | node k cs =>
      have hcons : Element.nodesOf (.node k cs :: es) = ⟨k, cs⟩ :: Element.nodesOf es := rfl
      simpa [childrenFrom, child, PlacedElement.node?, hcons] using ih _ _

theorem map_node_childNodes (n : PlacedNode) :
    n.childNodes.map (·.node) = Element.nodesOf n.node.children := map_node_childrenFrom n _ _ _

theorem map_node_childNode? (n : PlacedNode) (k : Kind) :
    (n.childNode? k).map (·.node) = (Element.nodesOf n.node.children).find? (·.kind == k) := by
  rw [← map_node_childNodes, List.find?_map]
  rfl

theorem map_token_childrenFrom (n : PlacedNode) (o i : Nat) (es : List Element) :
    ((n.childrenFrom o i es).filterMap PlacedElement.token?).map (·.token) =
      Element.tokensOf es := by
  induction es generalizing o i with
  | nil => rfl
  | cons e es ih =>
    cases e with
    | token t => simpa [childrenFrom, child, PlacedElement.token?] using ih _ _
    | node k cs =>
      have hcons : Element.tokensOf (.node k cs :: es) = Element.tokensOf es := rfl
      simpa [childrenFrom, child, PlacedElement.token?, hcons, List.filterMap_cons] using ih _ _

theorem map_token_childTokens (n : PlacedNode) :
    n.childTokens.map (·.token) = Element.tokensOf n.node.children := map_token_childrenFrom n _ _ _

theorem map_token_descendantTokens (n : PlacedNode) :
    n.descendantTokens.map (·.token) = Element.tokensAll n.node.children := by
  have hsnd (o : Nat) (ts : List Token) : (Token.sites o ts).map Prod.snd = ts := by
    induction ts generalizing o with
    | nil => rfl
    | cons t ts ih => rw [Token.sites_cons, List.map_cons, ih]
  rw [← hsnd n.offset (Element.tokensAll n.node.children), ← sites_descendantTokens, List.map_map]
  rfl

/-- A node that begins with a token. -/
theorem firstToken?_of_token {n : PlacedNode} {t : Token} {es : List Element}
    (h : n.node.children = .token t :: es) : n.firstToken? = some ⟨t, n.offset, 0, n⟩ := by
  have hc : n.children.head? = some (.token ⟨t, n.offset, 0, n⟩) := by
    rw [children, h]
    rfl
  rw [firstToken?]
  split
  · simp_all
  · simp_all
  · simp_all

end PlacedNode

/-- Views other than texts are of one kind. -/
theorem ViewType.eq_of_accepts {v : ViewType} {k l : Kind} (hk : v.accepts k = true)
    (hl : v.accepts l = true) (hv : v ≠ .text) : k = l := by
  cases v with
  | text => exact absurd rfl hv
  | _ =>
    cases k <;> cases hk
    cases l <;> cases hl
    rfl

namespace View

variable {v : ViewType}

/-- The views among the children of a node are its child nodes of the kinds. -/
theorem map_node_childrenOf (v : ViewType) (n : PlacedNode) :
    (childrenOf v n).map (·.node.node) =
      (Element.nodesOf n.node.children).filter fun m => v.accepts m.kind := by
  rw [← PlacedNode.map_node_childNodes, childrenOf]
  induction n.childNodes with
  | nil => rfl
  | cons m ms ih =>
    by_cases h : v.accepts m.kind = true
    · have h' : v.accepts m.node.kind = true := h
      simpa [cast?, h, h'] using ih
    · have h' : ¬v.accepts m.node.kind = true := h
      simpa [cast?, h, h', List.filterMap_cons] using ih

theorem map_node_childOf? (v : ViewType) (n : PlacedNode) :
    (childOf? v n).map (·.node.node) =
      ((Element.nodesOf n.node.children).filter fun m => v.accepts m.kind).head? := by
  rw [childOf?, ← List.head?_map, map_node_childrenOf]

theorem mem_nodesOf_of_mem_childrenOf {n : PlacedNode} {w : View v} (h : w ∈ childrenOf v n) :
    w.node.node ∈ Element.nodesOf n.node.children := by
  have hm : w.node.node ∈ (childrenOf v n).map (·.node.node) := List.mem_map_of_mem h
  rw [map_node_childrenOf] at hm
  exact (List.mem_filter.1 hm).1

theorem mem_nodesOf_of_childOf? {n : PlacedNode} {w : View v} (h : childOf? v n = some w) :
    w.node.node ∈ Element.nodesOf n.node.children :=
  mem_nodesOf_of_mem_childrenOf (List.mem_of_mem_head? h)

theorem mem_filterMap_cast? {ns : List PlacedNode} {w : View v} (h : w.node ∈ ns) :
    w ∈ ns.filterMap (cast? v) := List.mem_filterMap.2 ⟨w.node, h, dif_pos w.fits⟩

theorem mem_of_mem_filterMap_cast? {ns : List PlacedNode} {w : View v}
    (h : w ∈ ns.filterMap (cast? v)) : w.node ∈ ns := by
  obtain ⟨n, hn, hc⟩ := List.mem_filterMap.1 h
  unfold cast? at hc
  split at hc
  · cases hc
    exact hn
  · cases hc

theorem exists_childOf? {n : PlacedNode} {m : Node}
    (h : ((Element.nodesOf n.node.children).filter fun m => v.accepts m.kind).head? = some m) :
    ∃ t : View v, childOf? v n = some t ∧ t.node.node = m :=
  Option.map_eq_some_iff.1 ((map_node_childOf? v n).trans h)

end View

end GherkinTree
