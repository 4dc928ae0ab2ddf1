import GherkinTree.Proofs.Ownership
import GherkinTree.Proofs.Place

/-!
Where children, diagnostics and lines stand. A child begins where those in front of it end, the
diagnostics of a token lie in the token with its trivia, and an offset is on one line only. Main
statement: where nothing is wrong with the tokens of a node, no diagnostic of the document reaches
into the node.
-/

namespace GherkinTree

open Element Grammar

namespace Span.Tiles

variable {a a' b b' : Nat} {ss rs : List Span}

theorem split (h : Tiles a (ss ++ rs) b) : ∃ m, Tiles a ss m ∧ Tiles m rs b := by
  induction ss generalizing a with
  | nil => exact ⟨a, rfl, h⟩
  | cons s ss ih =>
    obtain ⟨m, hs, hr⟩ := ih h.2
    exact ⟨m, ⟨h.1, hs⟩, hr⟩

theorem stop_le (h : Tiles a ss b) : ∀ s ∈ ss, s.stop ≤ b := by
  induction ss generalizing a with
  | nil => exact List.forall_mem_nil _
  | cons s ss ih => exact List.forall_mem_cons.2 ⟨h.2.le, ih h.2⟩

/-- Where spans tile is determined by the spans. -/
theorem ends_unique (hne : ss ≠ []) (h : Tiles a ss b) (h' : Tiles a' ss b') : a = a' ∧ b = b' := by
  induction ss generalizing a a' with
  | nil => exact absurd rfl hne
  | cons s ss ih =>
    refine ⟨h.1.symm.trans h'.1, ?_⟩
    cases ss with
    | nil => exact h.2.symm.trans h'.2
    | cons r rs => exact (ih (List.cons_ne_nil r rs) h.2 h'.2).2

end Span.Tiles

namespace PlacedToken

variable {t : PlacedToken} {x : Diagnostic} {d : Dialect}

theorem diagnostics_eq_nil (h : t.token.Quiet) (d : Dialect) : t.diagnostics d = [] :=
  h.diagnosticsAt d t.offset

theorem mem_spans_of_mem_located {problem : Trivia → Option Problem} {ps : List Trivia}
    {spans : List Span} (h : x ∈ Trivia.located problem ps spans) : x.span ∈ spans := by
  obtain ⟨⟨p, span⟩, hmem, hp⟩ := List.mem_filterMap.1 h
  obtain ⟨y, -, rfl⟩ := Option.map_eq_some_iff.1 hp
  exact (List.of_mem_zip hmem).2

/-- The diagnostics of a token lie in the token with its trivia. -/
theorem within_of_mem_diagnostics (h : x ∈ t.diagnostics d) :
    t.fullSpan.start ≤ x.span.start ∧ x.span.stop ≤ t.fullSpan.stop := by
  have hbefore := tiles_triviaSpans t.offset t.token.leading
  have hbehind := tiles_triviaSpans t.span.stop t.token.trailing
  have hstart : t.fullSpan.start = t.offset := rfl
  have hspan : t.span.start = t.offset + Trivia.widthOf t.token.leading := rfl
  have hstop : t.fullSpan.stop = t.span.stop + Trivia.widthOf t.token.trailing := by
    simp only [fullSpan, span, Span.stop_ofWidth, Token.fullWidth, Token.trailingWidth]
    omega
  have hordered := t.span.ordered
  simp only [diagnostics, List.mem_append] at h
  rcases h with (h | h) | h
  · have hmem := mem_spans_of_mem_located h
    have hle := hbefore.start_le _ hmem
    have hge := hbefore.stop_le _ hmem
    omega
  · split at h
    · rw [List.mem_singleton.1 h]
      dsimp only
      omega
    · cases h
  · have hmem := mem_spans_of_mem_located h
    have hle := hbehind.start_le _ hmem
    have hge := hbehind.stop_le _ hmem
    omega

end PlacedToken

/-- Where nothing is wrong with the tokens of a node, all diagnostics lie in front of the node or
behind it. -/
theorem PlacedNode.apart_of_quiet {root n : PlacedNode} {t : PlacedToken} {x : Diagnostic}
    {d : Dialect} (hf : n.Filled) (hn : n ∈ root.descendants)
    (hq : ∀ t ∈ tokensAll n.node.children, t.Quiet) (ht : t ∈ root.descendantTokens)
    (hx : x ∈ t.diagnostics d) :
    x.span.stop ≤ n.fullSpan.start ∨ n.fullSpan.stop ≤ x.span.start := by
  obtain ⟨as, bs, htokens⟩ := exists_tokens_around hn
  have htiles := root.tiles_descendantTokens
  rw [htokens, List.map_append, List.map_append] at htiles
  obtain ⟨m₂, hupto, hbehind⟩ := htiles.split
  obtain ⟨m₁, hfront, hown⟩ := hupto.split
  have hne : n.descendantTokens.map PlacedToken.fullSpan ≠ [] := by
    obtain ⟨u, -, hu⟩ := head?_descendantTokens hf
    intro hnil
    rw [List.map_eq_nil_iff.1 hnil] at hu
    cases hu
  obtain ⟨rfl, rfl⟩ := Span.Tiles.ends_unique hne hown n.tiles_descendantTokens
  have hwithin := PlacedToken.within_of_mem_diagnostics hx
  rw [htokens, List.mem_append, List.mem_append] at ht
  rcases ht with (ht | ht) | ht
  · exact .inl (Nat.le_trans hwithin.2 (hfront.stop_le _ (List.mem_map_of_mem ht)))
  · have hquiet : t.token.Quiet := hq _ (by
      rw [← map_token_descendantTokens]
      exact List.mem_map_of_mem ht)
    rw [PlacedToken.diagnostics_eq_nil hquiet] at hx
    cases hx
  · exact .inr (Nat.le_trans (hbehind.start_le _ (List.mem_map_of_mem ht)) hwithin.1)

section Children

theorem PlacedNode.childrenFrom_append (n : PlacedNode) (o i : Nat) (es fs : List Element) :
    n.childrenFrom o i (es ++ fs) =
      n.childrenFrom o i es ++ n.childrenFrom (o + fullWidthAll es) (i + es.length) fs := by
  induction es generalizing o i with
  | nil => rfl
  | cons e es ih =>
    have hindex : i + (es.length + 1) = i + 1 + es.length := by omega
    rw [List.cons_append, childrenFrom, ih, childrenFrom, List.cons_append, List.length_cons,
      hindex, fullWidthAll, Nat.add_assoc]

/-- A child behind others that are not of the kinds of a view is what the accessor finds. -/
theorem View.childOf?_behind {v : ViewType} {n : PlacedNode} {es fs : List Element} {m : Node}
    (hc : n.node.children = es ++ m.toElement :: fs) (hm : v.accepts m.kind = true)
    (hes : ∀ x ∈ nodesOf es, v.accepts x.kind = false) :
    ∃ t : View v, childOf? v n = some t ∧ t.node.node = m ∧
      t.node.offset = n.offset + fullWidthAll es ∧ t.node ∈ n.childNodes := by
  let found : PlacedNode := ⟨⟨m, n.offset + fullWidthAll es, 0 + es.length⟩, n.toSite :: n.above⟩
  obtain ⟨behind, hchildren⟩ : ∃ behind,
      n.children = n.childrenFrom n.offset 0 es ++ .node found :: behind := by
    rw [PlacedNode.children, hc, PlacedNode.childrenFrom_append]
    exact ⟨_, rfl⟩
  have hnodes : n.childNodes = (n.childrenFrom n.offset 0 es).filterMap PlacedElement.node? ++
      found :: behind.filterMap PlacedElement.node? := by
    rw [PlacedNode.childNodes, hchildren, List.filterMap_append]
    rfl
  have hfront : ((n.childrenFrom n.offset 0 es).filterMap PlacedElement.node?).filterMap
      (cast? v) = [] := by
    refine List.filterMap_eq_nil_iff.2 fun x hx => dif_neg ?_
    have hmem : x.node ∈ nodesOf es := by
      rw [← n.map_node_childrenFrom n.offset 0]
      exact List.mem_map_of_mem hx
    have hkind : v.accepts x.kind = false := hes x.node hmem
    simp [hkind]
  have hcast : cast? v found = some ⟨found, hm⟩ := dif_pos hm
  refine ⟨⟨found, hm⟩, ?_, rfl, rfl, ?_⟩
  · rw [childOf?, childrenOf, hnodes, List.filterMap_append, hfront]
    simp [hcast]
  · rw [hnodes]
    exact List.mem_append_right _ List.mem_cons_self

theorem PlacedNode.token?_childrenFrom_optional (n : PlacedNode) (o i : Nat) (m : Option Node) :
    (n.childrenFrom o i (Node.optional m)).filterMap PlacedElement.token? = [] := by
  rw [← List.map_eq_nil_iff (f := (·.token)), map_token_childrenFrom, tokensOf_optional]

/-- The keyword of a section stands behind its tags. -/
theorem View.keyword?_of_header {v : ViewType} {s : View v} {h : Header} {es : List Element}
    (hc : s.node.node.children = h.elements ++ es) (hk : h.keyword.kind.isKeyword = true) :
    ∃ t, s.keyword? = some t ∧ t.token = h.keyword ∧
      t.offset = s.node.offset + fullWidthAll (Node.optional h.tags) := by
  have hsplit : s.node.node.children = Node.optional h.tags ++ .token h.keyword ::
      (.token h.colon :: Node.optional h.name ++ Node.optional h.description ++ es) := by
    rw [hc, Header.elements]
    simp
  refine ⟨⟨h.keyword, s.node.offset + fullWidthAll (Node.optional h.tags),
    0 + (Node.optional h.tags).length, s.node⟩, ?_, rfl, rfl⟩
  rw [View.keyword?, PlacedNode.childTokens, PlacedNode.children, hsplit,
    PlacedNode.childrenFrom_append, List.filterMap_append,
    PlacedNode.token?_childrenFrom_optional, List.nil_append, PlacedNode.childrenFrom,
    PlacedNode.child]
  exact List.find?_cons_of_pos hk

end Children

namespace SourceLine

/-- An offset is on one line of a text only. -/
theorem unique_of_split {t : Text} {p q ls ms : List SourceLine} {l m : SourceLine} {o : Nat}
    (hl : ofText t = p ++ l :: ls) (hm : ofText t = q ++ m :: ms) (hlo : l.offset ≤ o)
    (hol : o < l.stop) (hmo : m.offset ≤ o) (hom : o < m.stop) : l = m ∧ ls = ms := by
  have hpairs := pairwise_listFrom 0 (Line.split t)
  rw [← ofText] at hpairs
  rcases List.append_eq_append_iff.1 (hl.symm.trans hm) with ⟨r, rfl, hr⟩ | ⟨r, rfl, hr⟩
  · cases r with
    | nil => simpa using hr
    | cons x r =>
      -- the second line stands below the first
      obtain ⟨rfl, rfl⟩ := List.cons.inj hr
      rw [hl, List.pairwise_append] at hpairs
      have hle := List.rel_of_pairwise_cons hpairs.2.1 (List.mem_append_right r List.mem_cons_self)
      omega
  · cases r with
    | nil => simpa [eq_comm] using hr
    | cons x r =>
      obtain ⟨rfl, rfl⟩ := List.cons.inj hr
      rw [hm, List.pairwise_append] at hpairs
      have hle := List.rel_of_pairwise_cons hpairs.2.1 (List.mem_append_right r List.mem_cons_self)
      omega

@[simp] theorem map_line_listFrom (o : Nat) (ls : List Line) :
    (listFrom o ls).map SourceLine.line = ls := by
  induction ls generalizing o with
  | nil => rfl
  | cons l ls ih => rw [listFrom, List.map_cons, ih]

end SourceLine

end GherkinTree
