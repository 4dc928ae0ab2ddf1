import GherkinTree.Proofs.Anatomy
import GherkinTree.Proofs.Fidelity

/-!
Where tokens that the source lacks may stand. They may have no bytes at all, so several of them can
begin at one offset. Main statement: of the tokens of a document no two are equal and begin at the
same offset, since between two lacking tokens of one kind there is always a token that the source
has, and that token has some text.
-/

namespace GherkinTree

namespace Token

variable {t : Token} {ts us : List Token} {lost : List Kind} {k : Kind} {o : Nat}

/-- Between two tokens of one kind that the source lacks there is a token that it has. `lost` are
the kinds that are lacking in front of the tokens. -/
def Spaced (lost : List Kind) : List Token → Prop
  | [] => True
  | t :: ts => if t.missing then t.kind ∉ lost ∧ Spaced (t.kind :: lost) ts else Spaced [] ts

/-- The tokens are spaced whatever is lacking in front of them. -/
def Firm (ts : List Token) : Prop := ∀ lost, Spaced lost ts

theorem fullWidth_pos (h : t.text ≠ []) : 0 < t.fullWidth := by
  have : 0 < t.width := Nat.pos_of_ne_zero fun hz => h ((Text.width_eq_zero_iff _).1 hz)
  rw [fullWidth]
  omega

theorem spaced_of_missing (h : t.missing = true) :
    Spaced lost (t :: ts) ↔ t.kind ∉ lost ∧ Spaced (t.kind :: lost) ts := by
  simp [Spaced, h]

theorem spaced_of_found (h : t.missing = false) : Spaced lost (t :: ts) ↔ Spaced [] ts := by
  simp [Spaced, h]

theorem spaced_singleton (h : t.kind ∉ lost) : Spaced lost [t] := by
  cases hm : t.missing with
  | true => exact (spaced_of_missing hm).2 ⟨h, trivial⟩
  | false => exact (spaced_of_found hm).2 trivial

theorem Spaced.append (h : Spaced lost ts) (hu : Firm us) : Spaced lost (ts ++ us) := by
  induction ts generalizing lost with
  | nil => exact hu lost
  | cons t ts ih =>
    rw [List.cons_append]
    cases hm : t.missing with
    | true =>
      rw [spaced_of_missing hm] at h ⊢
      exact ⟨h.1, ih h.2⟩
    | false =>
      rw [spaced_of_found hm] at h ⊢
      exact ih h

theorem Spaced.of_append (h : Spaced lost (ts ++ us)) : Spaced lost ts := by
  induction ts generalizing lost with
  | nil => trivial
  | cons t ts ih =>
    rw [List.cons_append] at h
    cases hm : t.missing with
    | true =>
      rw [spaced_of_missing hm] at h ⊢
      exact ⟨h.1, ih h.2⟩
    | false =>
      rw [spaced_of_found hm] at h ⊢
      exact ih h

/-- In front of other tokens, tokens that the source has leave nothing lacking. -/
theorem spaced_append_of_found (h : ∀ t ∈ ts, t.missing = false) (hl : Spaced lost us)
    (hu : Spaced [] us) : Spaced lost (ts ++ us) := by
  induction ts generalizing lost with
  | nil => exact hl
  | cons t ts ih =>
    rw [List.forall_mem_cons] at h
    rw [List.cons_append, spaced_of_found h.1]
    exact ih h.2 hu

theorem firm_cons (h : t.missing = false) (hs : Spaced [] ts) : Firm (t :: ts) :=
  fun _ => (spaced_of_found h).2 hs

theorem Firm.append (h : Firm ts) (hu : Firm us) : Firm (ts ++ us) := fun lost => (h lost).append hu

theorem firm_of_found (h : ∀ t ∈ ts, t.missing = false) : Firm ts := fun lost => by
  rw [← List.append_nil ts]
  exact spaced_append_of_found h trivial trivial

/-- A lacking token among spaced tokens is not of a kind that is lacking in front of them, if only
tokens without bytes stand in between. -/
theorem Spaced.kind_not_mem (h : Spaced lost ts)
    (hsolid : ∀ t ∈ ts, t.missing = false → t.text ≠ []) {x : Nat × Token} (hx : x ∈ sites o ts)
    (ho : x.1 = o) (hm : x.2.missing = true) : x.2.kind ∉ lost := by
  induction ts generalizing o lost with
  | nil => cases hx
  | cons t ts ih =>
    rw [List.forall_mem_cons] at hsolid
    rw [sites_cons, List.mem_cons] at hx
    cases htm : t.missing with
    | false =>
      have hpos : 0 < t.fullWidth := fullWidth_pos (hsolid.1 htm)
      rcases hx with rfl | hx
      · exact nomatch htm.symm.trans hm
      · have := (bounds_of_mem_sites hx).1
        omega
    | true =>
      rw [spaced_of_missing htm] at h
      rcases hx with rfl | hx
      · exact h.1
      · have := (bounds_of_mem_sites hx).1
        have hlost := ih h.2 hsolid.2 hx (by omega)
        exact fun hmem => hlost (List.mem_cons_of_mem _ hmem)

theorem Spaced.nodup_sites (h : Spaced lost ts)
    (hsolid : ∀ t ∈ ts, t.missing = false → t.text ≠ []) : (sites o ts).Nodup := by
  induction ts generalizing o lost with
  | nil => exact List.nodup_nil
  | cons t ts ih =>
    have hrest := List.forall_mem_cons.1 hsolid
    rw [sites_cons, List.nodup_cons]
    cases htm : t.missing with
    | false =>
      rw [spaced_of_found htm] at h
      refine ⟨fun hmem => ?_, ih h hrest.2⟩
      have hpos : 0 < t.fullWidth := fullWidth_pos (hrest.1 htm)
      have := (bounds_of_mem_sites hmem).1
      dsimp only at this
      omega
    | true =>
      rw [spaced_of_missing htm] at h
      refine ⟨fun hmem => ?_, ih h.2 hrest.2⟩
      have hzero : o = o + t.fullWidth := by
        have := (bounds_of_mem_sites hmem).1
        dsimp only at this
        omega
      exact h.2.kind_not_mem hrest.2 hmem hzero htm List.mem_cons_self

end Token

namespace Element

/-- The source has all tokens under the elements. -/
def Found (es : List Element) : Prop := ∀ t ∈ tokensAll es, t.missing = false

/-- The tokens under the elements are spaced whatever is lacking in front of them. -/
def Firm (es : List Element) : Prop := Token.Firm (tokensAll es)

variable {as bs : List Element} {e : Element}

theorem Found.firm (h : Found as) : Firm as := Token.firm_of_found h

theorem found_nil : Found [] := by simp [Found]

theorem firm_nil : Firm [] := found_nil.firm

theorem Found.append (ha : Found as) (hb : Found bs) : Found (as ++ bs) := by
  intro t ht
  rw [tokensAll_append] at ht
  exact (List.mem_append.1 ht).elim (ha t) (hb t)

theorem Firm.append (ha : Firm as) (hb : Firm bs) : Firm (as ++ bs) := by
  rw [Firm, tokensAll_append]
  exact Token.Firm.append ha hb

theorem Found.cons (h : Found [e]) (hs : Found as) : Found (e :: as) := h.append hs

theorem Firm.cons (h : Firm [e]) (hs : Firm as) : Firm (e :: as) := h.append hs

theorem found_of_forall (h : ∀ e ∈ as, Found [e]) : Found as := by
  induction as with
  | nil => exact found_nil
  | cons e es ih =>
    rw [List.forall_mem_cons] at h
    exact h.1.cons (ih h.2)

theorem firm_of_forall (h : ∀ e ∈ as, Firm [e]) : Firm as := by
  induction as with
  | nil => exact firm_nil
  | cons e es ih =>
    rw [List.forall_mem_cons] at h
    exact h.1.cons (ih h.2)

theorem found_token {t : Token} (h : t.missing = false) : Found [token t] := by
  simpa [Found] using h

theorem found_node {n : Node} (h : Found n.children) : Found [n.toElement] := by
  simpa [Found, Node.toElement] using h

theorem firm_node {n : Node} (h : Firm n.children) : Firm [n.toElement] := by
  simpa [Firm, Node.toElement] using h

theorem found_tokens {ts : List Token} {k : Kind} (h : ∀ t ∈ ts, t.Present k) :
    Found (ts.map token) :=
  found_of_forall (by simpa using fun t ht => found_token (h t ht).found)

theorem firm_nodes {ns : List Node} (h : ∀ n ∈ ns, Firm n.children) :
    Firm (ns.map Node.toElement) :=
  firm_of_forall (by simpa using fun n hn => firm_node (h n hn))

theorem found_optional {n : Option Node} (h : ∀ m ∈ n, Found m.children) :
    Found (Node.optional n) := by
  cases n with
  | none => exact found_nil
  | some m => exact found_node (h m rfl)

theorem firm_optional {n : Option Node} (h : ∀ m ∈ n, Firm m.children) :
    Firm (Node.optional n) :=
  firm_nodes fun m hm => h m (Option.mem_toList.1 hm)

end Element

namespace Node

open Element (Found Firm tokensAll)

variable {n : Node} {k : Kind} {outline : Bool}

theorem IsPart.found {e : Element} (h : IsPart k e) : Found [e] := by
  cases h with
  | run ht => exact Element.found_token ht.found
  | placeholder hn =>
    apply Element.found_node
    cases hn with
    | mk hless hname hgreater =>
      exact (Element.found_token hless.found).cons
        ((Element.found_token hname.found).cons (Element.found_token hgreater.found))

theorem IsText.found (h : n.IsText k outline) : Found n.children := by
  cases h with
  | plain ht => exact Element.found_token ht.found
  | pieces hne hps => exact Element.found_of_forall fun p hp => (hps p hp).found

/-- The tokens of a cell and those behind it; of a cell only the content may be lacking. -/
theorem IsCell.spaced_append (h : n.IsCell outline) {ts : List Token}
    (hts : Token.Spaced [.tableLiteralToken] ts) (hts' : Token.Spaced [] ts) :
    Token.Spaced [] (tokensAll n.children ++ ts) := by
  cases h with
  | @empty _ t ht =>
    have htokens : tokensAll (ofCell (.token t)).children ++ ts = t :: ts := by simp [ofCell]
    rw [htokens, Token.spaced_of_missing ht.lost, ht.kind]
    exact ⟨List.not_mem_nil, hts⟩
  | plain ht => exact Token.spaced_append_of_found (Element.found_token ht.found) hts' hts'
  | pieces hn =>
    exact Token.spaced_append_of_found (Element.found_node hn.found) hts' hts'

/-- Between two cells there is a bar that the source has. -/
theorem spaced_cells {cells : List (Node × Token)} (hcells : ∀ c ∈ cells, c.1.IsCell outline)
    (hbars : ∀ c ∈ cells, c.2.kind = .verticalBarToken)
    (hinner : ∀ c ∈ cells.dropLast, c.2.missing = false) :
    Token.Spaced [] (tokensAll (cells.flatMap fun c => [c.1.toElement, .token c.2])) := by
  induction cells with
  | nil => trivial
  | cons c cells ih =>
    rw [List.forall_mem_cons] at hcells hbars
    have htokens : tokensAll ((c :: cells).flatMap fun c => [c.1.toElement, .token c.2]) =
        tokensAll c.1.children ++
          c.2 :: tokensAll (cells.flatMap fun c => [c.1.toElement, .token c.2]) := by
      simp [toElement]
    rw [htokens]
    cases cells with
    | nil =>
      refine hcells.1.spaced_append (Token.spaced_singleton ?_) (Token.spaced_singleton ?_)
      · rw [hbars.1]
        decide
      · exact List.not_mem_nil
    | cons c' cells =>
      rw [List.dropLast_cons_of_ne_nil (List.cons_ne_nil _ _), List.forall_mem_cons] at hinner
      have hfirm := Token.firm_cons hinner.1 (ih hcells.2 hbars.2 hinner.2)
      exact hcells.1.spaced_append (hfirm _) (hfirm _)

theorem IsRow.firm (h : n.IsRow outline) : Firm n.children := by
  cases h with
  | @mk bar cells hbar hcells hbars hinner =>
    have htokens : tokensAll (ofRow bar cells).children =
        bar :: tokensAll (cells.flatMap fun c => [c.1.toElement, .token c.2]) := by simp [ofRow]
    rw [Firm, htokens]
    exact Token.firm_cons hbar.found (spaced_cells hcells hbars hinner)

theorem IsTable.firm (h : n.IsTable outline) : Firm n.children := by
  cases h with
  | mk hne hrows => exact Element.firm_nodes fun r hr => (hrows r hr).firm

theorem IsContentType.found (h : n.IsContentType) : Found n.children := by
  cases h with
  | mk ht => exact Element.found_token ht.found

theorem IsDocString.firm (h : n.IsDocString outline) : Firm n.children := by
  cases h with
  | @mk first last contentType content hfirst htype hcontent hlast =>
    have hinner : Found (optional contentType ++ optional content) :=
      (Element.found_optional fun m hm => (htype m hm).found).append
        (Element.found_optional fun m hm => (hcontent m hm).found)
    have htokens : tokensAll (ofDocString first contentType content last).children =
        first :: (tokensAll (optional contentType ++ optional content) ++ [last]) := by
      simp [ofDocString, Element.tokensAll_append]
    have hlast : Token.Spaced [] [last] := Token.spaced_singleton List.not_mem_nil
    rw [Firm, htokens]
    exact Token.firm_cons hfirst.found (Token.spaced_append_of_found hinner hlast hlast)

theorem IsStepText.spaced (h : n.IsStepText outline) : Token.Spaced [] (tokensAll n.children) := by
  cases h with
  | @lacking t =>
    have htokens : tokensAll (ofLiterals [t]).children = [t] := by simp [ofLiterals]
    rw [htokens]
    exact Token.spaced_singleton List.not_mem_nil
  | found hn => exact hn.found.firm []

theorem IsStep.firm (h : n.IsStep outline) : Firm n.children := by
  cases h with
  | @mk k keyword text argument hk hkeyword htext hargument =>
    have hfirm : Firm (optional argument) :=
      Element.firm_optional fun m hm => (hargument m hm).elim IsTable.firm IsDocString.firm
    have htokens : tokensAll (ofStep keyword text argument).children =
        keyword :: (tokensAll text.children ++ tokensAll (optional argument)) := by
      simp [ofStep, toElement]
    rw [Firm, htokens]
    exact Token.firm_cons hkeyword.found (htext.spaced.append hfirm)

theorem IsTags.found (h : n.IsTags) : Found n.children := by
  cases h with
  | mk hne hts => exact Element.found_tokens hts

theorem IsDescription.found (h : n.IsDescription) : Found n.children := by
  cases h with
  | mk hne hts => exact Element.found_tokens hts

end Node

namespace Header

open Element (Found Firm tokensAll)

variable {h : Header} {k : Kind}

theorem Plain.found (hp : h.Plain) :
    Found (Node.optional h.name ++ Node.optional h.description) :=
  (Element.found_optional fun m hm => (hp.name m hm).found).append
    (Element.found_optional fun m hm => (hp.description m hm).found)

theorem IsOf.firm (hh : h.IsOf k) : Firm h.elements := by
  have hkeyword : Found [.token h.keyword, .token h.colon] :=
    (Element.found_token hh.keyword.found).cons (Element.found_token hh.colon.found)
  have hplain := ((Element.found_optional fun m hm => (hh.tags m hm).found).append
    hkeyword).append hh.found
  rw [← List.append_assoc] at hplain
  exact hplain.firm

/-- An implied header lacks its keyword and its colon, one of each. -/
theorem IsImplied.spaced (hh : h.IsImplied) : Token.Spaced [] (tokensAll h.elements) := by
  have htokens : tokensAll h.elements = [h.keyword, h.colon] ++
      tokensAll (Node.optional h.name ++ Node.optional h.description) := by
    simp [elements, hh.tags, Node.optional, Element.tokensAll_append]
  have hpair : Token.Spaced [] [h.keyword, h.colon] := by
    rw [Token.spaced_of_missing hh.keyword.lost, hh.keyword.kind]
    refine ⟨List.not_mem_nil, Token.spaced_singleton ?_⟩
    rw [hh.colon.kind]
    decide
  rw [htokens]
  exact hpair.append hh.found.firm

end Header

namespace Node

open Element (Firm tokensAll)

variable {n : Node}

theorem IsBackground.firm (h : n.IsBackground) : Firm n.children := by
  cases h with
  | mk hh ht hsteps => exact hh.firm.append (Element.firm_nodes fun m hm => (hsteps m hm).firm)

theorem IsExamples.firm (h : n.IsExamples) : Firm n.children := by
  cases h with
  | mk hh htable => exact hh.firm.append (Element.firm_optional fun m hm => (htable m hm).firm)

theorem IsScenario.firm (h : n.IsScenario) : Firm n.children := by
  cases h with
  | mk hr hh houtline hsteps hexamples =>
    exact (hh.firm.append (Element.firm_nodes fun m hm => (hsteps m hm).firm)).append
      (Element.firm_nodes fun m hm => (hexamples m hm).firm)

theorem IsRule.firm (h : n.IsRule) : Firm n.children := by
  cases h with
  | mk hh hbackground hscenarios =>
    exact (hh.firm.append (Element.firm_optional fun m hm => (hbackground m hm).firm)).append
      (Element.firm_nodes fun m hm => (hscenarios m hm).firm)

theorem IsFeature.spaced (h : n.IsFeature) :
    Token.Spaced [] (tokensAll n.children) := by
  cases h with
  | @mk h background scenarios rules hh hbackground hscenarios hrules =>
    have hheader : Token.Spaced [] (tokensAll h.elements) :=
      hh.elim (fun hof => hof.firm []) Header.IsImplied.spaced
    have hbelow : Firm (optional background ++ scenarios.map toElement ++ rules.map toElement) :=
      ((Element.firm_optional fun m hm => (hbackground m hm).firm).append
        (Element.firm_nodes fun m hm => (hscenarios m hm).firm)).append
        (Element.firm_nodes fun m hm => (hrules m hm).firm)
    have htokens : tokensAll (ofFeature h background scenarios rules).children =
        tokensAll h.elements ++
          tokensAll (optional background ++ scenarios.map toElement ++ rules.map toElement) := by
      simp [ofFeature, Element.tokensAll_append]
    rw [htokens]
    exact hheader.append hbelow

theorem IsDocument.spaced (h : n.IsDocument) :
    Token.Spaced [] (tokensAll n.children) := by
  cases h with
  | @mk feature eof hfeature heof =>
    have hfeature : Token.Spaced [] (tokensAll (optional feature)) := by
      cases feature with
      | none => exact Element.firm_nil []
      | some m => simpa [optional, toElement] using (hfeature m rfl).spaced
    have htokens : tokensAll (ofDocument feature eof).children =
        tokensAll (optional feature) ++ [eof] := by
      simp [ofDocument, Element.tokensAll_append]
    rw [htokens]
    exact hfeature.append (Token.firm_of_found (by simpa using heof.found))

end Node

/-- No two tokens of a document are equal and begin at the same offset. -/
theorem FeatureFile.nodup_sites_parse {o : Options} (ho : o.dialect ∈ Dialect.bundled)
    (text : Text) :
    (Token.sites 0 (Element.tokensAll (parse o text).tree.children)).Nodup := by
  obtain ⟨ls, fs, es, h⟩ := exists_record ho text
  obtain ⟨pending, hleaves⟩ := h.leaves
  have hspaced : Token.Spaced [] (Element.tokensAll (parse o text).tree.children) :=
    (isDocument_parse o.dialect text).spaced
  have htokens : Element.tokensAll (parse o text).tree.children =
      Leaf.tokensAll ls ++ [.plain .endOfFileToken [] pending []] := by
    rw [← Element.tokens_node (parse o text).tree.kind, ← Node.toElement,
      ← Element.tokensAll_leaves, ← Node.leaves, hleaves, Leaf.tokensAll_append]
    rfl
  rw [htokens] at hspaced ⊢
  rw [Token.sites_append, List.nodup_append]
  refine ⟨hspaced.of_append.nodup_sites h.ledger.solid, List.nodup_singleton _, ?_⟩
  -- the end of the file has no text, unlike any other token that the source has
  rintro x hx y hy rfl
  rw [List.mem_singleton.1 hy] at hx
  exact h.ledger.solid _ (Token.mem_of_mem_sites hx) rfl rfl

end GherkinTree
