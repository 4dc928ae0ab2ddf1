import GherkinTree.Proofs.Section

/-!
A document as one run. The feature of a document has a header of its own or an implied one, a body
and rules, and the end of the file takes what is left. Main statement: reading a document is a run
from the first scope to the end of its lines, whose leaves are those of the tree in front of the end
of the file.
-/

namespace GherkinTree

namespace Grammar

variable {d : Dialect} {c : Cursor}

/-- At the start of a document nothing takes examples or steps. -/
theorem beforeBackground_initial (hn : d.nextRole? c ≠ some .feature)
    (ht : textLine? d c = none) : BeforeBackground d .initial c := by
  refine ⟨rfl, rfl, rfl, fun a ha hrole htags below => ?_, fun _ => hn⟩
  have htext := not_text_of_textLine? ht ha
  cases hk : a.kind <;> simp_all [Scope.keeps, Scope.initial, Place.isFence, LineKind.role?]

/-- The first line of text is the name of an implied feature. -/
theorem impliedHeader_of_text {ts : List Token} {c₁ c₂ : Cursor}
    (hc : c₁ = { c.advance with pending := [] }.report (.missing c.advance.offset .featureKeyword))
    (h : textLine? d c₁ = some (ts, c₂)) :
    impliedHeader d c = (⟨none, .absent .featureKeyword c.advance.pending [],
      .absent .colonToken [] [], some (.ofLiterals ts), (description d c₂).1⟩,
      (description d c₂).2) := by
  subst hc
  simp only [impliedHeader, h]

theorem impliedHeader_of_not_text {c₁ : Cursor}
    (hc : c₁ = { c.advance with pending := [] }.report (.missing c.advance.offset .featureKeyword))
    (h : textLine? d c₁ = none) :
    impliedHeader d c = (⟨none, .absent .featureKeyword c.advance.pending [],
      .absent .colonToken [] [], none, none⟩, c₁) := by
  subst hc
  simp only [impliedHeader, h, description, Cursor.collect_of_none h]
  rfl

/-- A report behind the offset stays behind it. -/
theorem unreported_advance (h : c.Unreported) : c.advance.Unreported := by
  intro x hx
  have := h x hx
  rw [Cursor.offset_advance]
  omega

theorem reads_impliedHeader (hn : d.nextRole? c ≠ some .feature) (hu : c.Unreported) :
    Reads d .initial c (headerLeaves (impliedHeader d c).1) (impliedHeader d c).2
      fun s' => BeforeBackground d s' (impliedHeader d c).2 := by
  obtain ⟨c₁, hc⟩ : ∃ c₁, c₁ =
      { c.advance with pending := [] }.report (.missing c.advance.offset .featureKeyword) := ⟨_, rfl⟩
  have hn₁ : d.nextRole? c₁ ≠ some .feature := by
    have hlines : c₁.lines = c.advance.lines := by rw [hc]; rfl
    rw [Dialect.nextRole?_congr hlines, Dialect.nextRole?_advance]
    exact hn
  have himply : Reads d .initial c [.token (.absent .featureKeyword c.advance.pending []),
      .token (.absent .colonToken [] [])] c₁ fun s' => s' = .initial := by
    rw [hc]
    exact .of_advance (.move (.imply rfl (unreported_advance hu)) rfl)
  cases ht : textLine? d c₁ with
  | none =>
    rw [impliedHeader_of_not_text hc ht]
    have hl (k t : Token) : headerLeaves ⟨none, k, t, none, none⟩ = [.token k, .token t] := by
      simp [headerLeaves, Header.elements, Node.optional]
    rw [hl]
    refine himply.mono fun s' hs' => ?_
    rw [hs']
    exact beforeBackground_initial hn₁ ht
  | some p =>
    obtain ⟨ts, c₂⟩ := p
    have hk : ∃ a, d.peek? c₁ = some a ∧ a.kind = .text := by
      refine Classical.byContradiction fun hk => ?_
      rw [textLine?_eq_none fun a ha hk' => hk ⟨a, ha, hk'⟩] at ht
      cases ht
    obtain ⟨a, ha, hk⟩ := hk
    obtain ⟨ts', hkept, heq⟩ := textLine?_eq ha hk
    rw [ht] at heq
    cases heq
    have hname : Reads d .initial c₁ (ts.map .token) (a.take [])
        fun s' => s' = { Scope.initial with place := .header } := by
      refine .keep ha ?_ hkept ?_
      · rw [hk]
        rfl
      · rw [hk]
        rfl
    rw [impliedHeader_of_text hc ht]
    obtain ⟨hnone, hdesc⟩ := reads_description (d := d) (c := a.take [])
      (s := { Scope.initial with place := .header }) rfl
    have hl (k t : Token) (n : Option Node) :
        headerLeaves ⟨none, k, t, some (.ofLiterals ts), n⟩ =
          [.token k, .token t] ++ ts.map .token ++ Node.optionalLeaves n := by
      simp [headerLeaves, Header.elements, Node.leavesAll_optional, Node.leaves_of_ne,
        Node.ofLiterals]
    rw [hl]
    have hboth : Reads d .initial c ([.token (.absent .featureKeyword c.advance.pending []),
        .token (.absent .colonToken [] [])] ++ ts.map .token) (a.take [])
        fun s' => s' = { Scope.initial with place := .header } :=
      himply.append fun s₁ hs₁ => hs₁ ▸ hname
    refine hboth.append fun s₂ hs₂ => ?_
    rw [hs₂]
    refine hdesc.mono fun s₃ hs₃ => ?_
    rw [hs₃]
    exact ⟨rfl, rfl, rfl, Scope.settled_header rfl (by simp [Scope.initial]) hnone⟩

theorem reads_featureHeader (d : Dialect) (hu : c.Unreported) :
    Reads d .initial c (headerLeaves (featureHeader d c).1) (featureHeader d c).2
      fun s' => BeforeBackground d s' (featureHeader d c).2 := by
  cases ha : d.peek? c with
  | none =>
    have heq : featureHeader d c = impliedHeader d c := by simp only [featureHeader, ha]
    rw [heq]
    exact reads_impliedHeader (by rw [Dialect.nextRole?_eq_none ha]; nofun) hu
  | some a =>
    by_cases hr : d.nextRole? c = some .feature
    · have heq : featureHeader d c = header d .feature a.cursor := by
        simp only [featureHeader, ha, Dialect.roleAhead_eq ha, hr]
      rw [heq]
      have hr' : d.nextRole? a.cursor = some .feature := by rw [Dialect.nextRole?_cursor ha, hr]
      obtain ⟨-, htext, hhead⟩ := reads_header .feature hr' rfl rfl (s := .initial) rfl (.inl rfl)
      refine (hhead.of_peek? ha).mono fun s' hs' => ?_
      rw [hs']
      exact beforeBackground_opened (.inl rfl) rfl htext
    · have heq : featureHeader d c = impliedHeader d c := by
        unfold featureHeader
        rw [ha]
        dsimp only
        rw [Dialect.roleAhead_eq ha]
        dsimp only
        split
        · contradiction
        · rfl
      rw [heq]
      exact reads_impliedHeader hr hu

/-- A feature takes all lines of the document. -/
theorem reads_feature (d : Dialect) (hu : c.Unreported) :
    d.peek? (feature d c).2 = none ∧
      Reads d .initial c (feature d c).1.leaves (feature d c).2 fun _ => True := by
  have hhead := reads_featureHeader d hu
  simp only [feature]
  generalize featureHeader d c = p at *
  obtain ⟨h, c₁⟩ := p
  dsimp only at *
  obtain ⟨-, s₁, -, hs₁⟩ := id hhead
  have hheads := (reads_body hs₁).1
  have hbody (s' : Scope) (hs' : BeforeBackground d s' c₁) := (reads_body hs').2
  generalize body d c₁ = p at *
  obtain ⟨b, ns, c₂⟩ := p
  dsimp only at *
  have hnone := (reads_rule_loop (s := .initial) hheads).1
  have hrules (s' : Scope) := (reads_rule_loop (s := s') hheads).2
  generalize c₂.collect (ruleOrSkip? d) = p at *
  obtain ⟨rs, c₃⟩ := p
  dsimp only at *
  have hl : (Node.ofFeature h b ns rs).leaves = headerLeaves h ++
      (Node.optionalLeaves b ++ ns.flatMap Node.leaves) ++ rs.flatMap Node.leaves := by
    rw [Node.leaves_of_ne (by simp [Node.ofFeature])]
    simp [Node.ofFeature, headerLeaves, Node.leavesAll_optional, Node.leavesAll_map_toElement]
  rw [hl]
  exact ⟨hnone, (hhead.append hbody).append fun s' _ => hrules s'⟩

/-- A document is read to its end: the leaves of the tree are those of a run and the end of the
file, which takes what is still pending. -/
theorem reads_document (d : Dialect) (hu : c.Unreported) :
    ∃ ls c', Reads d .initial c ls c' (fun _ => True) ∧ c'.lines = [] ∧
      (document d c).1.leaves = ls ++ [.token (.plain .endOfFileToken [] c'.pending [])] ∧
      (document d c).2.events = c'.events := by
  have hfeature : d.peek? (feature? d c).2 = none ∧
      Reads d .initial c (Node.optionalLeaves (feature? d c).1) (feature? d c).2
        fun _ => True := by
    cases ha : d.peek? c with
    | none =>
      have heq : feature? d c = (none, c) := by simp only [feature?, ha]
      rw [heq]
      exact ⟨ha, .done trivial⟩
    | some a =>
      have heq : feature? d c = (some (feature d a.cursor).1, (feature d a.cursor).2) := by
        simp only [feature?, ha]
      rw [heq, Node.optionalLeaves_some]
      have hu' : a.cursor.Unreported := by
        rw [(Dialect.fits_of_peek? ha).cursor]
        exact unreported_advance hu
      exact ⟨(reads_feature d hu').1, (reads_feature d hu').2.of_peek? ha⟩
  refine ⟨Node.optionalLeaves (feature? d c).1, (feature? d c).2.advance, ?_,
    Dialect.peek?_eq_none_iff.1 hfeature.1, ?_, rfl⟩
  · have h := hfeature.2.append fun s' _ => Reads.move (.advance s' (feature? d c).2) trivial
    rw [List.append_nil] at h
    exact h
  · rw [document, Node.leaves_of_ne (by simp [Node.ofDocument])]
    simp [Node.ofDocument, Node.leavesAll_optional]

end Grammar

end GherkinTree
