import GherkinTree.Proofs.Anatomy
import GherkinTree.Proofs.KeywordTable
import GherkinTree.Proofs.Report
import Mathlib

/-!
Where a token may be lacking. Main statements: a section that is chosen by the keyword ahead has that
keyword and a colon; every token that a tree lacks stands in one of five slots; and nothing but a
feature keyword, the text of a step, a bar or a fence is ever reported as lacking.
-/

namespace GherkinTree

/-- The places of tokens that a document may lack: the kind of the node above, the node, the index
among its children, and the token. -/
inductive Slot : Option Kind → Node → Nat → Token → Prop where
  /-- The keyword and the colon of an implied feature, which are lacking together. -/
  | impliedFeature {above : Option Kind} {keyword colon t : Token} {es : List Element} {i : Nat}
      (hkeyword : keyword.Lacking .featureKeyword) (hcolon : colon.Lacking .colonToken)
      (ht : i = 0 ∧ t = keyword ∨ i = 1 ∧ t = colon) :
      Slot above ⟨.feature, .token keyword :: .token colon :: es⟩ i t
  /-- The only token of the text of a step. -/
  | stepText {t : Token} (ht : t.Lacking .literalToken) :
      Slot (some .step) ⟨.literalText, [.token t]⟩ 0 t
  /-- The only token of a cell. -/
  | emptyCell {t : Token} (ht : t.Lacking .tableLiteralToken) :
      Slot (some .tableRow) ⟨.tableCell, [.token t]⟩ 0 t
  /-- The bar behind the last cell of a row. -/
  | lastBar {t : Token} {es : List Element} (hes : es ≠ []) (ht : t.Lacking .verticalBarToken) :
      Slot (some .table) ⟨.tableRow, es ++ [.token t]⟩ es.length t
  /-- The fence that closes a doc string. -/
  | lastFence {t : Token} {es : List Element} (hes : es ≠ [])
      (ht : t.Lacking .docStringDelimiterToken) :
      Slot (some .step) ⟨.docString, es ++ [.token t]⟩ es.length t

/-- The tokens that a node lacks stand in slots. -/
def Node.Slotted (above : Option Kind) (n : Node) : Prop :=
  ∀ i t, n.children[i]? = some (.token t) → t.missing = true → Slot above n i t

namespace Node

variable {above : Option Kind} {n : Node} {k : Kind} {t : Token} {outline : Bool}

/-- A node lacks nothing of which all tokens are there. -/
theorem slotted_of_found (h : ∀ t, .token t ∈ n.children → t.missing = false) :
    n.Slotted above := by
  intro i t hi hm
  rw [h t (List.mem_of_getElem? hi)] at hm
  cases hm

/-- Only the last token of a node is lacking. -/
theorem slotted_concat (es : List Element) (h : ∀ u, .token u ∈ es → u.missing = false)
    (ht : t.missing = true → Slot above ⟨k, es ++ [.token t]⟩ es.length t) :
    Node.Slotted above ⟨k, es ++ [.token t]⟩ := by
  intro i u hi hm
  by_cases hlt : i < es.length
  · rw [List.getElem?_append_left hlt] at hi
    rw [h u (List.mem_of_getElem? hi)] at hm
    cases hm
  · have hlen := (List.getElem?_eq_some_iff.1 hi).1
    have he : i = es.length := by
      simp at hlen
      omega
    subst he
    simp at hi
    subst hi
    exact ht hm

/-- A node whose children are tokens that are all there. -/
theorem slotted_of_tokens (ts : List Token) (h : ∀ t ∈ ts, t.missing = false) :
    Node.Slotted above ⟨k, ts.map .token⟩ := slotted_of_found (by simpa using h)

theorem IsText.slotted (h : n.IsText k outline) : n.Slotted above := by
  cases h with
  | @plain t ht => exact slotted_of_tokens [t] (by simp [ht.found])
  | pieces hne hps =>
    refine slotted_of_found fun t ht => ?_
    cases hps _ ht with
    | run ht => exact ht.found

theorem IsCell.slotted (h : n.IsCell outline) : n.Slotted (some .tableRow) := by
  cases h with
  | empty ht => exact slotted_concat [] nofun fun _ => .emptyCell ht
  | @plain t ht => exact slotted_of_tokens [t] (by simp [ht.found])
  | pieces hn => exact slotted_of_found (by simp [ofCell, toElement])

/-- The bars of a row in front of its last are there. -/
theorem IsRow.slotted (h : n.IsRow outline) : n.Slotted (some .table) := by
  cases h with
  | @mk bar cells hbar hcells hbars hinner =>
    rcases List.eq_nil_or_concat cells with rfl | ⟨init, last, rfl⟩
    · exact slotted_of_found (by simp [ofRow, hbar.found])
    · rw [List.concat_eq_append] at *
      have hrow : ofRow bar (init ++ [last]) = ⟨.tableRow,
          (.token bar :: Row.elements init ++ [last.1.toElement]) ++ [.token last.2]⟩ := by
        simp [ofRow, Row.elements]
      rw [hrow]
      refine slotted_concat _ (fun u hu => ?_) fun hm =>
        .lastBar (by simp) ⟨hbars last (by simp), hm⟩
      rw [List.dropLast_concat] at hinner
      simp only [List.cons_append, List.mem_cons, Element.token.injEq, List.mem_append,
        Row.elements, List.mem_flatMap, toElement, reduceCtorEq, false_or, List.not_mem_nil,
        or_false] at hu
      rcases hu with rfl | ⟨c, hc, rfl⟩
      · exact hbar.found
      · exact hinner c hc

theorem IsDocString.slotted (h : n.IsDocString outline) : n.Slotted (some .step) := by
  cases h with
  | @mk first last contentType content hfirst htype hcontent hlast =>
    exact slotted_concat (.token first :: optional contentType ++ optional content)
      (by simp [hfirst.found]) fun hm => .lastFence (by simp) ⟨hlast, hm⟩

theorem IsStepText.slotted (h : n.IsStepText outline) : n.Slotted (some .step) := by
  cases h with
  | lacking ht => exact slotted_concat [] nofun fun _ => .stepText ht
  | found hn => exact hn.slotted

/-- A section below a header that the source has lacks nothing itself. -/
theorem slotted_section {h : Header} (hh : h.IsOf k) {k' : Kind}
    (hes : ∀ t, .token t ∉ es) : Node.Slotted above ⟨k', h.elements ++ es⟩ := by
  refine slotted_of_found fun t ht => ?_
  rcases List.mem_append.1 ht with ht | ht
  · simp [Header.elements] at ht
    rcases ht with rfl | rfl
    · exact hh.keyword.found
    · exact hh.colon.found
  · exact absurd ht (hes t)

/-- A feature lacks its keyword and its colon if it is implied, and nothing otherwise. -/
theorem IsFeature.slotted (h : n.IsFeature) : n.Slotted above := by
  cases h with
  | @mk h background scenarios rules hh hbackground hscenarios hrules =>
    rw [ofFeature, List.append_assoc, List.append_assoc]
    rcases hh with hh | hh
    · exact slotted_section hh (by simp)
    · intro i t hi hm
      have hnone : optional h.tags = [] := by simp [hh.tags, optional]
      simp only [Header.elements, hnone, List.nil_append, List.cons_append] at hi ⊢
      rcases i with _ | _ | i
      · simp at hi
        exact .impliedFeature hh.keyword hh.colon (.inl ⟨rfl, hi.symm⟩)
      · simp at hi
        exact .impliedFeature hh.keyword hh.colon (.inr ⟨rfl, hi.symm⟩)
      · simp only [List.getElem?_cons_succ] at hi
        have ht := List.mem_of_getElem? hi
        simp at ht

/-- What a node of a form lacks stands in a slot. -/
theorem Form.slotted (h : n.Form above) : n.Slotted above := by
  cases h with
  | placeholder h =>
    cases h with
    | @mk l n g hl hn hg =>
      exact slotted_of_tokens [l, n, g] (by simp [hl.found, hn.found, hg.found])
  | text h => exact h.slotted
  | cell h => exact h.slotted
  | row h => exact h.slotted
  | table h =>
    cases h with
    | mk => exact slotted_of_found (by simp [ofTable])
  | contentType h =>
    cases h with
    | @mk t ht => exact slotted_of_tokens [t] (by simp [ht.found])
  | docString h => exact h.slotted
  | stepText h => exact h.slotted
  | step h =>
    cases h with
    | mk hk hkeyword => exact slotted_of_found (by simp [ofStep, toElement, hkeyword.found])
  | tags h =>
    cases h with
    | mk hne hts => exact slotted_of_tokens _ fun t ht => (hts t ht).found
  | description h =>
    cases h with
    | mk hne hts => exact slotted_of_tokens _ fun t ht => (hts t ht).found
  | background h =>
    cases h with
    | mk hh => exact slotted_section hh (by simp)
  | examples h =>
    cases h with
    | mk hh => exact slotted_section hh (by simp)
  | scenario h =>
    cases h with
    | mk hr hh =>
      rw [ofScenario, List.append_assoc]
      exact slotted_section hh (by simp)
  | rule h =>
    cases h with
    | mk hh =>
      rw [ofRule, List.append_assoc]
      exact slotted_section hh (by simp)
  | feature h => exact h.slotted
  | document h =>
    cases h with
    | mk hfeature heof => exact slotted_of_found (by simp [ofDocument, heof.found])

end Node

/-- The slot in which a token of a tree stands. -/
def PlacedToken.InSlot (t : PlacedToken) : Prop :=
  Slot t.parent.kindAbove t.parent.node t.index t.token

/-- Every token that a tree lacks stands in a slot. -/
theorem inSlot_of_missing (o : Options) (text : Text) {t : PlacedToken}
    (ht : t ∈ (FeatureFile.parse o text).root.descendantTokens) (hm : t.token.missing = true) :
    t.InSlot := by
  obtain ⟨hparent, -, hindex⟩ := PlacedNode.parent_of_mem_descendantTokens ht
  exact (FeatureFile.formed_of_mem_descendants hparent).slotted t.index t.token hindex hm

/-- The kinds of tokens whose lack is reported. -/
def Kind.reportable : List Kind :=
  [.featureKeyword, .literalToken, .verticalBarToken, .docStringDelimiterToken]

theorem Slot.reportable {above : Option Kind} {n : Node} {i : Nat} {t : Token}
    (h : Slot above n i t) (hr : t.isReported = true) : t.kind ∈ Kind.reportable := by
  have hne : t.kind ≠ .colonToken ∧ t.kind ≠ .tableLiteralToken := by
    simp only [Token.isReported, Bool.and_eq_true, bne_iff_ne] at hr
    exact ⟨hr.1.2, hr.2⟩
  cases h with
  | impliedFeature hkeyword hcolon ht =>
    rcases ht with ⟨-, rfl⟩ | ⟨-, rfl⟩
    · rw [hkeyword.kind]
      decide
    · exact absurd hcolon.kind hne.1
  | stepText ht =>
    rw [ht.kind]
    decide
  | emptyCell ht => exact absurd ht.kind hne.2
  | lastBar hes ht =>
    rw [ht.kind]
    decide
  | lastFence hes ht =>
    rw [ht.kind]
    decide

theorem Trivia.problem?_ne_missing (d : Dialect) (p : Trivia) (k : Kind) :
    problem? d p ≠ some (.missingToken k) := by
  unfold problem?
  split
  · simp
  · cases p.language? with
    | none => simp
    | some code =>
      rw [Option.bind_some]
      split <;> simp
  · simp

theorem Trivia.problemBehind?_ne_missing (p : Trivia) (k : Kind) :
    problemBehind? p ≠ some (.missingToken k) := by
  unfold problemBehind?
  split <;> simp

theorem Trivia.not_missing_of_mem_located {problem : Trivia → Option Problem} {k : Kind}
    (h : ∀ p, problem p ≠ some (.missingToken k)) {ps : List Trivia} {spans : List Span}
    {x : Diagnostic} (hx : x ∈ located problem ps spans) : x.problem ≠ .missingToken k := by
  obtain ⟨⟨p, span⟩, -, hp⟩ := List.mem_filterMap.1 hx
  obtain ⟨y, hy, rfl⟩ := Option.map_eq_some_iff.1 hp
  rintro rfl
  exact h p hy

/-- A token that is reported as lacking is a token that the tree lacks, right where it stands. -/
theorem PlacedToken.isReported_of_mem_diagnostics {d : Dialect} {t : PlacedToken} {x : Diagnostic}
    (hx : x ∈ t.diagnostics d) {k : Kind} (hk : x.problem = .missingToken k) :
    t.token.isReported = true ∧ x = ⟨t.span, .missingToken t.kind⟩ := by
  simp only [diagnostics, List.mem_append] at hx
  rcases hx with (hx | hx) | hx
  · exact absurd hk (Trivia.not_missing_of_mem_located (fun p => Trivia.problem?_ne_missing d p k) hx)
  · split at hx
    · rename_i hr
      exact ⟨hr, List.mem_singleton.1 hx⟩
    · cases hx
  · exact absurd hk
      (Trivia.not_missing_of_mem_located (fun p => Trivia.problemBehind?_ne_missing p k) hx)

theorem FeatureFile.mem_diagnostics_iff {o : Options} (ho : o.dialect ∈ Dialect.bundled)
    (text : Text) (x : Diagnostic) :
    x ∈ (parse o text).diagnostics ↔ x ∈ (parse o text).shownDiagnostics := by
  rw [shownDiagnostics_eq_reported ho]
  exact List.mem_mergeSort

/-- What is reported as lacking is a token in a slot. -/
theorem FeatureFile.reportable_of_mem_diagnostics {o : Options} (ho : o.dialect ∈ Dialect.bundled)
    (text : Text) {x : Diagnostic} (hx : x ∈ (parse o text).diagnostics) {k : Kind}
    (hk : x.problem = .missingToken k) : k ∈ Kind.reportable := by
  obtain ⟨t, ht, hx⟩ := List.mem_flatMap.1 ((mem_diagnostics_iff ho text x).1 hx)
  obtain ⟨hr, rfl⟩ := PlacedToken.isReported_of_mem_diagnostics hx hk
  cases hk
  have hm : t.token.missing = true := by
    simp only [Token.isReported, Bool.and_eq_true] at hr
    exact hr.1.1
  exact (inSlot_of_missing o text ht hm).reportable hr

/-- Looking ahead and reading agree: a section that is chosen by the keyword behind any tags, blank
lines and comments has that keyword and a colon. So every token that a document lacks stands in one
of the slots, and neither another keyword nor a colon is ever reported as lacking. -/
theorem FeatureFile.lacks_only_slots {o : Options} (ho : o.dialect ∈ Dialect.bundled)
    (text : Text) :
    (∀ (d : Dialect) (c : Cursor) (a : Ahead) (role r : Role), d.peek? c = some a →
      (Grammar.roleAhead d a).1 = some r → Grammar.opens role r = true → r.isStructural = true →
      (Grammar.header d role a.cursor).1.keyword.Present (.ofRole r) ∧
        (Grammar.header d role a.cursor).1.colon.Present .colonToken) ∧
      (∀ t ∈ (parse o text).root.descendantTokens, t.token.missing = true → t.InSlot) ∧
      ∀ x ∈ (parse o text).diagnostics, ∀ k, x.problem = .missingToken k →
        k ∈ Kind.reportable := by
  refine ⟨fun d c a role r ha hr hopens hs => ?_, fun t => inSlot_of_missing o text,
    fun x hx k => reportable_of_mem_diagnostics ho text hx⟩
  rw [Dialect.roleAhead_eq ha] at hr
  have hh := Grammar.isOf_header ((Dialect.nextRole?_cursor ha).trans hr) hopens hs
  exact ⟨hh.keyword, hh.colon⟩

theorem FeatureFile.lacks_only_slots_step :
    let f := parse .default "Scenario: s\nGiven\n||a\nGiven b\n\x22\x22\x22\n".toList
    Options.default.dialect ∈ Dialect.bundled ∧
      (∀ t ∈ f.root.descendantTokens, t.token.missing = true → t.InSlot) ∧
      (f.root.descendantTokens.filter (·.token.missing)).map (·.kind) =
        [.featureKeyword, .colonToken, .literalToken, .tableLiteralToken, .verticalBarToken,
          .docStringDelimiterToken] :=
  ⟨Dialect.english_mem_bundled, (lacks_only_slots Dialect.english_mem_bundled _).2.1, by
    rw [Options.default_eq]
    cbv⟩

end GherkinTree
