import GherkinTree.Proofs.Step

/-!
Sections as runs. Each section takes its header and what follows it, and leaves the next line to the
section around it: steps go up to the next structural keyword, examples up to the next keyword of
another section, scenarios up to the next rule. Main statement: the body of a feature or of a rule
is a run that ends in front of a rule or at the end of the document, and all lines that it skips are
lines that the scope does not take.
-/

namespace GherkinTree

namespace Scope

variable {s : Scope} {d : Dialect} {c : Cursor}

/-- Below the title of a section other than examples only keywords may follow, unless there is text
for its description. -/
theorem settled_header (hp : s.place = .header) (he : s.nearest ≠ some (.examples, true))
    (ht : Grammar.textLine? d c = none) : s.Settled d c where
  plain a ha hrole htags below := by
    have htext := Grammar.not_text_of_textLine? ht ha
    cases hk : a.kind <;> simp_all [keeps, Place.isFence, LineKind.role?]
  feature hf := by
    rw [hp] at hf
    cases hf

/-- A skipped structural keyword that opens no scenario takes nothing, and any other line leaves the
section as it is. -/
theorem plain_or_takes_nothing (s : Scope) {k : LineKind}
    (hk : k.role?.any Role.isScenario = false) :
    k.role?.any Role.isStructural = false ∨
      ((s.next k false).takes .examples = false ∧ (s.next k false).takes .givenStep = false) := by
  cases k with
  | keyword m =>
    by_cases hm : m.role.isStep = true
    · exact .inl (by simp [LineKind.role?, Role.isStructural, hm])
    · have hs : m.role.isScenario = false := by simpa [LineKind.role?] using hk
      exact .inr (by simp [next, hm, takes, hs])
  | _ => exact .inl rfl

theorem takes_examples_next {k : LineKind} (hk : k.role?.any Role.isScenario = false)
    (h : s.takes .examples = false) : (s.next k false).takes .examples = false := by
  rcases s.plain_or_takes_nothing hk with hplain | hnone
  · rw [takes_of_sameSection (s.sameSection_next hplain false) (by decide), h]
  · exact hnone.1

theorem takes_step_next {k : LineKind} (hk : k.role?.any Role.isScenario = false)
    (h : s.takes .givenStep = false) : (s.next k false).takes .givenStep = false := by
  rcases s.plain_or_takes_nothing hk with hplain | hnone
  · rw [takes_of_sameSection (s.sameSection_next hplain false) (by decide), h]
  · exact hnone.2

/-- Whether a background may come changes only with a rule, a scenario or a background. -/
theorem room_next {k : LineKind} (hr : k.role? ≠ some .rule)
    (hs : k.role?.any Role.isScenario = false) : (s.next k false).room = s.room := by
  cases k with
  | keyword m =>
    have hrule : m.role ≠ .rule := by simpa [LineKind.role?] using hr
    have hscen : m.role.isScenario = false := by simpa [LineKind.role?] using hs
    by_cases hm : m.role.isStep = true <;> simp [next, hm, hrule, hscen]
  | _ => rfl

end Scope

theorem Dialect.Heads.mono {d : Dialect} {c : Cursor} {p q : Role → Prop} (h : d.Heads c p)
    (hpq : ∀ r, p r → q r) : d.Heads c q := by
  intro a ha
  obtain ⟨r, hr, hp⟩ := h a ha
  exact ⟨r, hr, hpq r hp⟩

/-- Tags in front of a section may be skipped without losing sight of it. -/
theorem Dialect.Heads.skip {d : Dialect} {c : Cursor} {a : Ahead} {p : Role → Prop}
    (h : d.Heads c p) (hp : ∀ r, p r → r.isStructural = true) (ha : d.peek? c = some a)
    (hk : a.kind.role?.any Role.isStructural = false) : d.Heads a.skip p := by
  obtain ⟨r, hr, hpr⟩ := h a ha
  have htags : a.kind = .tags := by
    refine Classical.byContradiction fun hnt => ?_
    rw [← Dialect.nextRole?_of_not_tags ha hnt, hr, Option.any_some, hp r hpr] at hk
    cases hk
  intro a' _
  exact ⟨r, by rw [Dialect.nextRole?_of_tags ha htags rfl, hr], hpr⟩

namespace Grammar

variable {s : Scope} {d : Dialect} {c : Cursor} {a : Ahead} {r : Role}

/-- A background goes up to the next structural keyword. -/
theorem reads_background (hr : d.nextRole? c = some .background) (hn : tagLine? d c = none)
    (hroom : s.room = true) :
    d.Heads (background d c).2 (fun r => r.isStructural = true) ∧
      Reads d s c (background d c).1.leaves (background d c).2 fun s' =>
        s'.nearest = some (.background, true) ∧ s'.room = false ∧
          s'.Settled d (background d c).2 := by
  obtain ⟨-, htext, hhead⟩ :=
    reads_header .background hr rfl rfl (s := s) hroom (.inr hn)
  simp only [background]
  generalize header d .background c = p at *
  obtain ⟨h, c₁⟩ := p
  dsimp only at *
  have hset : (s.opened .background).Settled d c₁ :=
    Scope.settled_header rfl (by simp [Scope.opened]) htext
  obtain ⟨hheads, hsteps⟩ := reads_steps false (by simp [Scope.takes, Scope.opened]) hset
  refine ⟨hheads, ?_⟩
  have hl : (Node.ofBackground h (steps d false c₁).1).leaves =
      headerLeaves h ++ (steps d false c₁).1.flatMap Node.leaves := by
    rw [Node.leaves_of_ne (by simp [Node.ofBackground])]
    simp [Node.ofBackground, headerLeaves, Node.leavesAll_map_toElement]
  rw [hl]
  refine hhead.append fun s₁ hs₁ => ?_
  rw [hs₁]
  refine hsteps.mono fun s₂ hs₂ => ⟨?_, ?_, hs₂.2⟩
  · rw [hs₂.1.1]
    rfl
  · rw [hs₂.1.2]
    simp [Scope.opened, Role.isScenario]

theorem examples_of_row (ha : d.peek? (header d .examples c).2 = some a)
    (hk : a.kind = .tableRow) :
    examples d c = (.ofExamples (header d .examples c).1 (some (table d false a.cursor).1),
      (table d false a.cursor).2) := by
  obtain ⟨cur, l, k⟩ := a
  cases hk
  simp only [examples, ha]

theorem examples_of_not_row
    (h : ∀ a, d.peek? (header d .examples c).2 = some a → a.kind ≠ .tableRow) :
    examples d c = (.ofExamples (header d .examples c).1 none, (header d .examples c).2) := by
  unfold examples
  dsimp only
  split
  · exact absurd rfl (h _ (by assumption))
  · rfl

theorem leaves_ofExamples (h : Header) (table : Option Node) :
    (Node.ofExamples h table).leaves = headerLeaves h ++ Node.optionalLeaves table := by
  rw [Node.leaves_of_ne (by simp [Node.ofExamples])]
  simp [Node.ofExamples, headerLeaves, Node.leavesAll_optional]

/-- Examples take the table below their header. -/
theorem reads_examples (hr : d.nextRole? c = some .examples) (ht : s.takes .examples = true) :
    (examples d c).2.lines.length < c.lines.length ∧
      Reads d s c (examples d c).1.leaves (examples d c).2 fun s' =>
        s'.nearest = some (.examples, true) ∧ s'.room = s.room ∧ s'.Settled d (examples d c).2 := by
  obtain ⟨hlt, htext, hhead⟩ := reads_header .examples hr rfl rfl ht
    (.inl (by simp [Scope.takesTags, ht, Role.isStructural, Role.isStep]))
  have hroom : (s.opened .examples).room = s.room := by
    cases hs : s.room <;> simp [Scope.opened, hs, Role.isScenario]
  by_cases hrow : ∃ a, d.peek? (header d .examples c).2 = some a ∧ a.kind = .tableRow
  · obtain ⟨a, ha, hk⟩ := hrow
    obtain ⟨hnone, htable⟩ := reads_table false (Dialect.peek?_cursor ha) hk (s := s.opened .examples)
      (by simp [Scope.keeps, Scope.opened])
    have htable := htable.of_peek? ha
    rw [examples_of_row ha hk, leaves_ofExamples, Node.optionalLeaves_some]
    refine ⟨Nat.lt_of_le_of_lt htable.length_le hlt, hhead.append fun s₁ hs₁ => ?_⟩
    rw [hs₁]
    refine htable.mono fun s₂ hs₂ => ?_
    rw [hs₂]
    exact ⟨rfl, hroom, settled_table rfl hnone⟩
  · have hrow' (a : Ahead) (ha : d.peek? (header d .examples c).2 = some a) :
        a.kind ≠ .tableRow := fun hk => hrow ⟨a, ha, hk⟩
    rw [examples_of_not_row hrow', leaves_ofExamples, Node.optionalLeaves_none, List.append_nil]
    refine ⟨hlt, hhead.mono fun s₁ hs₁ => ?_⟩
    rw [hs₁]
    refine ⟨rfl, hroom, fun a ha hrole htags below => ?_, Bool.noConfusion⟩
    have htext := not_text_of_textLine? htext ha
    have hrow := hrow' a ha
    cases hk : a.kind <;> simp_all [Scope.keeps, Scope.opened, Place.isFence, LineKind.role?]

theorem examplesOrSkip?_eq (ha : d.peek? c = some a) :
    examplesOrSkip? d c =
      if d.nextRole? c = some .examples then
        some ([(examples d a.cursor).1], (examples d a.cursor).2)
      else if (d.nextRole? c).any Role.isStructural then none
      else some ([], a.skip) := by
  unfold examplesOrSkip?
  rw [ha]
  dsimp only
  rw [Dialect.roleAhead_eq ha]
  dsimp only
  split
  · rename_i h
    rw [if_pos h]
  · rename_i r hne h
    have : r ≠ .examples := hne
    simp [h, this, skipAhead]
  · rename_i h
    simp [h, skipAhead]

/-- What the lines behind the steps of a scenario are read for. -/
structure AtExamples (d : Dialect) (s : Scope) (c : Cursor) : Prop where
  takes : s.takes .examples = true
  room : s.room = false
  settled : s.Settled d c
  /-- As long as the scope takes steps, none is ahead. -/
  noStep : s.takes .givenStep = true → d.Heads c fun r => r.isStructural = true

theorem reads_examples_loop (h : AtExamples d s c) :
    d.Heads (c.collect (examplesOrSkip? d)).2
        (fun r => r.isStructural = true ∧ r ≠ .examples) ∧
      Reads d s c ((c.collect (examplesOrSkip? d)).1.flatMap Node.leaves)
        (c.collect (examplesOrSkip? d)).2
        fun s' => AtExamples d s' (c.collect (examplesOrSkip? d)).2 := by
  have hloop := Reads.collect (d := d) (examplesOrSkip? d) Node.leaves (AtExamples d) ?_ c s h
  · refine ⟨fun a ha => ?_, hloop.2⟩
    have hnone := hloop.1
    rw [examplesOrSkip?_eq ha] at hnone
    split at hnone
    · cases hnone
    · rename_i hne
      split at hnone
      · rename_i hany
        obtain ⟨r, hr, hs⟩ := (Option.any_eq_true _ _).1 hany
        exact ⟨r, hr, hs, fun he => hne (he ▸ hr)⟩
      · cases hnone
  · intro s' c' xs c'' hinv hstep
    cases ha : d.peek? c' with
    | none => simp [examplesOrSkip?, ha] at hstep
    | some a =>
      rw [examplesOrSkip?_eq ha] at hstep
      split at hstep
      · rename_i hr
        cases hstep
        rw [← Dialect.nextRole?_cursor ha] at hr
        obtain ⟨hlt, hread⟩ := reads_examples hr hinv.takes
        rw [List.flatMap_cons, List.flatMap_nil, List.append_nil]
        refine ⟨Nat.lt_of_lt_of_le hlt (Dialect.length_cursor_le ha),
          (hread.of_peek? ha).mono fun s'' hs'' => ?_⟩
        obtain ⟨hnear, hroom, hset⟩ := hs''
        refine ⟨by simp [Scope.takes, hnear], hroom.trans hinv.room, hset, fun ht => ?_⟩
        simp [Scope.takes, hnear, Role.isScenario] at ht
      · split at hstep
        · cases hstep
        · rename_i hn
          cases hstep
          have hno : s'.takes .givenStep = false := by
            cases ht : s'.takes .givenStep with
            | false => rfl
            | true =>
              obtain ⟨r, hr, hs⟩ := hinv.noStep ht a ha
              simp [hr, hs] at hn
          have hkey (m : KeywordMatch) (hm : a.kind = .keyword m) : s'.takes m.role = false := by
            rw [Dialect.nextRole?_of_not_tags ha (by simp [hm]), hm] at hn
            have hs : m.role.isStep = true := by
              simpa [LineKind.role?, Role.isStructural] using hn
            rw [Scope.takes_step hs (show Role.givenStep.isStep = true from rfl), hno]
          obtain ⟨hlt, hread⟩ := reads_skip_plain hinv.settled ha (by simpa using hn) hkey
          refine ⟨hlt, hread.mono fun s'' hs'' => ?_⟩
          obtain ⟨hsame, hset⟩ := hs''
          refine ⟨?_, ?_, hset, fun ht => ?_⟩
          · rw [Scope.takes_of_sameSection hsame (by decide), hinv.takes]
          · rw [hsame.2, hinv.room]
          · rw [Scope.takes_of_sameSection hsame (by decide), hno] at ht
            cases ht

/-- What is behind a scenario: all that belongs to it has been read. -/
theorem reads_scenario (hr : d.nextRole? c = some r) (hs : r.isScenario = true) :
    (scenario d c).2.lines.length < c.lines.length ∧
      d.Heads (scenario d c).2 (fun r => r.isStructural = true ∧ r ≠ .examples) ∧
      Reads d s c (scenario d c).1.leaves (scenario d c).2 fun s' =>
        s'.room = false ∧ s'.Settled d (scenario d c).2 := by
  have hcases := Role.eq_of_isScenario hs
  have hopen : opens .scenario r = true := by rcases hcases with rfl | rfl <;> rfl
  have hstruct : r.isStructural = true := by rcases hcases with rfl | rfl <;> rfl
  have htake : s.takes r = true := by rcases hcases with rfl | rfl <;> rfl
  have htags : s.takesTags r = true := by rcases hcases with rfl | rfl <;> rfl
  have hnear : (s.opened r).nearest = some (r, true) := rfl
  have hroom : (s.opened r).room = false := by
    rcases hcases with rfl | rfl <;> simp [Scope.opened, Role.isScenario]
  obtain ⟨hlt, htext, hhead⟩ := reads_header .scenario hr hopen hstruct htake (.inl htags)
  simp only [scenario]
  generalize header d .scenario c = p at *
  obtain ⟨h, c₁⟩ := p
  dsimp only at *
  generalize (h.keyword.kind == .scenarioOutlineKeyword || d.hasExamples none c₁.lines) = outline
  have hset : (s.opened r).Settled d c₁ := by
    refine Scope.settled_header rfl ?_ htext
    rcases hcases with rfl | rfl <;> simp [Scope.opened]
  obtain ⟨hheads, hsteps⟩ := reads_steps outline (s := s.opened r)
    (by simp [Scope.takes, hnear, hs]) hset
  generalize steps d outline c₁ = p at *
  obtain ⟨ns, c₂⟩ := p
  dsimp only at *
  have hexamples (s₂ : Scope) (h₂ : (s.opened r).SameSection s₂ ∧ s₂.Settled d c₂) :=
    reads_examples_loop (d := d) (c := c₂) (s := s₂)
      ⟨by simp [Scope.takes, h₂.1.1, hnear, hs], by rw [h₂.1.2, hroom], h₂.2, fun _ => hheads⟩
  generalize c₂.collect (examplesOrSkip? d) = p at *
  obtain ⟨es, c₃⟩ := p
  dsimp only at *
  have hl : (Node.ofScenario h ns es).leaves =
      headerLeaves h ++ ns.flatMap Node.leaves ++ es.flatMap Node.leaves := by
    rw [Node.leaves_of_ne (by simp [Node.ofScenario])]
    simp [Node.ofScenario, headerLeaves, Node.leavesAll_map_toElement]
  have hbody : Reads d s c (headerLeaves h ++ ns.flatMap Node.leaves) c₂
      fun s' => (s.opened r).SameSection s' ∧ s'.Settled d c₂ :=
    hhead.append fun s₁ hs₁ => hs₁ ▸ hsteps
  obtain ⟨-, s₂, -, hs₂⟩ := id hbody
  refine ⟨?_, (hexamples s₂ hs₂).1, ?_⟩
  · exact Nat.lt_of_le_of_lt (Nat.le_trans (hexamples s₂ hs₂).2.length_le hsteps.length_le) hlt
  · rw [hl]
    exact hbody.append fun s' hs' => (hexamples s' hs').2.mono fun s'' h'' => ⟨h''.room, h''.settled⟩

/-- Whether a section stops the search for the background of a body. -/
def stopsSkipping (r : Role) (tagged : Bool) : Bool :=
  r.isScenario || r == .rule || (r == .background && !tagged)

theorem skipToSection?_eq (ha : d.peek? c = some a) :
    skipToSection? d c =
      if (d.nextRole? c).any (stopsSkipping · (a.kind == .tags)) then none
      else some ([], a.skip) := by
  unfold skipToSection?
  rw [ha]
  dsimp only
  rw [Dialect.roleAhead_eq ha]
  cases d.nextRole? c with
  | none => cases a.kind == .tags <;> rfl
  | some r => cases r <;> cases a.kind == .tags <;> rfl

/-- What the lines in front of the background of a body are read for: nothing that came before takes
examples or steps. -/
structure BeforeBackground (d : Dialect) (s : Scope) (c : Cursor) : Prop where
  room : s.room = true
  noExamples : s.takes .examples = false
  noStep : s.takes .givenStep = false
  settled : s.Settled d c

theorem reads_skipToSection (h : BeforeBackground d s c) :
    skipToSection? d (c.collect (skipToSection? d)).2 = none ∧
      Reads d s c [] (c.collect (skipToSection? d)).2
        fun s' => BeforeBackground d s' (c.collect (skipToSection? d)).2 := by
  have hloop := Reads.collect (d := d) (skipToSection? d) (fun _ => []) (BeforeBackground d) ?_ c s h
  · refine ⟨hloop.1, ?_⟩
    have hl : ((c.collect (skipToSection? d)).1.flatMap fun _ => ([] : List Leaf)) = [] := by simp
    rw [hl] at hloop
    exact hloop.2
  · intro s' c' xs c'' hinv hstep
    cases ha : d.peek? c' with
    | none => simp [skipToSection?, ha] at hstep
    | some a =>
      rw [skipToSection?_eq ha] at hstep
      split at hstep
      · cases hstep
      · rename_i hn
        cases hstep
        have hstop (r : Role) (hr : d.nextRole? c' = some r) :
            stopsSkipping r (a.kind == .tags) = false := by simpa [hr] using hn
        have hrole (r : Role) (hr : a.kind.role? = some r) :
            stopsSkipping r false = false := by
          have hnt : a.kind ≠ .tags := fun h => by rw [h] at hr; cases hr
          have := hstop r (by rw [Dialect.nextRole?_of_not_tags ha hnt, hr])
          rwa [beq_false_of_ne hnt] at this
        obtain ⟨hlt, hread⟩ := hinv.settled.skip ha fun r hr => by
          have := hstop r hr
          cases r with
          | feature => exact .inl (hinv.settled.not_takes_feature hr)
          | examples => exact .inl hinv.noExamples
          | background =>
            by_cases ht : a.kind = .tags
            · exact .inr ⟨ht, .inl rfl⟩
            · rw [beq_false_of_ne ht] at this
              cases this
          | scenario => cases this
          | scenarioOutline => cases this
          | rule => cases this
          | _ => exact .inl hinv.noStep
        have hscen : a.kind.role?.any Role.isScenario = false := by
          cases hr : a.kind.role? with
          | none => rfl
          | some r =>
            have := hrole r hr
            simp only [stopsSkipping, Bool.or_eq_false_iff] at this
            exact this.1.1
        refine ⟨hlt, hread.mono fun s'' ⟨he, hset⟩ => ?_⟩
        subst he
        refine ⟨?_, Scope.takes_examples_next hscen hinv.noExamples,
          Scope.takes_step_next hscen hinv.noStep, hset⟩
        rw [Scope.room_next (fun hr => nomatch hrole _ hr) hscen, hinv.room]

/-- What the lines among the scenarios of a body are read for: whatever the scope takes besides
scenarios is not ahead. -/
structure AmongScenarios (d : Dialect) (s : Scope) (c : Cursor) : Prop where
  settled : s.Settled d c
  noExamples : s.takes .examples = true →
    d.Heads c fun r => r.isStructural = true ∧ r ≠ .examples
  noStep : s.takes .givenStep = true → d.Heads c fun r => r.isStructural = true
  noBackground : s.room = true → d.Heads c fun r => r.isScenario = true ∨ r = .rule

theorem scenarioOrSkip?_eq (ha : d.peek? c = some a) :
    scenarioOrSkip? d c =
      if (d.nextRole? c).any Role.isScenario then
        some ([(scenario d a.cursor).1], (scenario d a.cursor).2)
      else if d.nextRole? c = some .rule then none
      else some ([], a.skip) := by
  unfold scenarioOrSkip?
  rw [ha]
  dsimp only
  rw [Dialect.roleAhead_eq ha]
  cases d.nextRole? c with
  | none => rfl
  | some r => cases r <;> rfl

/-- Among scenarios, a line that belongs neither to a scenario nor to a rule is skipped. -/
theorem reads_skip_among (h : AmongScenarios d s c) (ha : d.peek? c = some a)
    (hscen : (d.nextRole? c).any Role.isScenario = false) (hrule : d.nextRole? c ≠ some .rule) :
    a.skip.lines.length < c.lines.length ∧
      Reads d s c [] a.skip fun s' => AmongScenarios d s' a.skip := by
  have hroom : s.room = false := by
    cases hr : s.room with
    | false => rfl
    | true =>
      obtain ⟨r, hr, hs | rfl⟩ := h.noBackground hr a ha
      · simp [hr, hs] at hscen
      · exact absurd hr hrule
  have hrole (hnt : a.kind ≠ .tags) := Dialect.nextRole?_of_not_tags ha hnt
  obtain ⟨hlt, hread⟩ := h.settled.skip ha fun r hr => by
    refine .inl (Bool.eq_false_iff.2 fun ht => ?_)
    cases r with
    | feature => simp [h.settled.not_takes_feature hr] at ht
    | background => simp [Scope.takes, hroom] at ht
    | examples =>
      obtain ⟨r, hr', -, hne⟩ := h.noExamples ht a ha
      rw [hr] at hr'
      exact hne (Option.some.inj hr').symm
    | scenario => simp [hr, Role.isScenario] at hscen
    | scenarioOutline => simp [hr, Role.isScenario] at hscen
    | rule => exact hrule hr
    | _ =>
      obtain ⟨r, hr', hs⟩ := h.noStep ht a ha
      rw [hr] at hr'
      cases hr'
      cases hs
  have hkscen : a.kind.role?.any Role.isScenario = false := by
    by_cases hnt : a.kind = .tags
    · rw [hnt]
      rfl
    · rw [← hrole hnt, hscen]
  have hkrule : a.kind.role? ≠ some .rule := by
    by_cases hnt : a.kind = .tags
    · rw [hnt]
      decide
    · rw [← hrole hnt]
      exact hrule
  refine ⟨hlt, hread.mono fun s' hs' => ?_⟩
  obtain ⟨rfl, hset⟩ := hs'
  have hcases := s.plain_or_takes_nothing hkscen
  refine ⟨hset, fun ht => ?_, fun ht => ?_, fun hr => ?_⟩
  · rcases hcases with hplain | hno
    · rw [Scope.takes_of_sameSection (s.sameSection_next hplain false) (by decide)] at ht
      exact (h.noExamples ht).skip (fun r hr => hr.1) ha hplain
    · rw [hno.1] at ht
      cases ht
  · rcases hcases with hplain | hno
    · rw [Scope.takes_of_sameSection (s.sameSection_next hplain false) (by decide)] at ht
      exact (h.noStep ht).skip (fun r hr => hr) ha hplain
    · rw [hno.2] at ht
      cases ht
  · rw [Scope.room_next hkrule hkscen, hroom] at hr
    cases hr

theorem reads_scenario_loop (h : AmongScenarios d s c) :
    d.Heads (c.collect (scenarioOrSkip? d)).2 (· = .rule) ∧
      Reads d s c ((c.collect (scenarioOrSkip? d)).1.flatMap Node.leaves)
        (c.collect (scenarioOrSkip? d)).2 fun _ => True := by
  have hloop := Reads.collect (d := d) (scenarioOrSkip? d) Node.leaves (AmongScenarios d) ?_ c s h
  · refine ⟨fun a ha => ?_, hloop.2.mono fun _ _ => trivial⟩
    have hnone := hloop.1
    rw [scenarioOrSkip?_eq ha] at hnone
    split at hnone
    · cases hnone
    · split at hnone
      · rename_i hr
        exact ⟨_, hr, rfl⟩
      · cases hnone
  · intro s' c' xs c'' hinv hstep
    cases ha : d.peek? c' with
    | none => simp [scenarioOrSkip?, ha] at hstep
    | some a =>
      rw [scenarioOrSkip?_eq ha] at hstep
      split at hstep
      · rename_i hany
        cases hstep
        obtain ⟨r, hr, hs⟩ := (Option.any_eq_true _ _).1 hany
        rw [← Dialect.nextRole?_cursor ha] at hr
        obtain ⟨hlt, hheads, hread⟩ := reads_scenario (s := s') hr hs
        rw [List.flatMap_cons, List.flatMap_nil, List.append_nil]
        refine ⟨Nat.lt_of_lt_of_le hlt (Dialect.length_cursor_le ha),
          (hread.of_peek? ha).mono fun s'' ⟨hroom, hset⟩ => ?_⟩
        refine ⟨hset, fun _ => hheads, fun _ => hheads.mono fun r hr => hr.1, fun h => ?_⟩
        rw [hroom] at h
        cases h
      · rename_i hscen
        split at hstep
        · cases hstep
        · rename_i hrule
          cases hstep
          exact reads_skip_among hinv ha (by simpa using hscen) hrule

theorem background?_eq (ha : d.peek? c = some a) :
    background? d c =
      if d.nextRole? c = some .background ∧ a.kind ≠ .tags then
        (some (background d a.cursor).1, (background d a.cursor).2)
      else (none, c) := by
  unfold background?
  rw [ha]
  dsimp only
  rw [Dialect.roleAhead_eq ha]
  cases d.nextRole? c with
  | none => simp
  | some r =>
    by_cases ht : a.kind = .tags
    · cases r <;> simp [ht]
    · rw [beq_false_of_ne ht]
      cases r <;> simp [ht]

theorem reads_background? (h : BeforeBackground d s c) (hn : skipToSection? d c = none) :
    Reads d s c (Node.optionalLeaves (background? d c).1) (background? d c).2
      fun s' => AmongScenarios d s' (background? d c).2 := by
  have hstay (hb : ∀ a, d.peek? c = some a →
      ¬(d.nextRole? c = some .background ∧ a.kind ≠ .tags)) : AmongScenarios d s c := by
    refine ⟨h.settled, fun ht => ?_, fun ht => ?_, fun _ a ha => ?_⟩
    · rw [h.noExamples] at ht
      cases ht
    · rw [h.noStep] at ht
      cases ht
    · rw [skipToSection?_eq ha] at hn
      split at hn
      · rename_i hany
        obtain ⟨r, hr, hs⟩ := (Option.any_eq_true _ _).1 hany
        refine ⟨r, hr, ?_⟩
        simp only [stopsSkipping, Bool.or_eq_true, Bool.and_eq_true, beq_iff_eq] at hs
        rcases hs with hs | ⟨rfl, ht⟩
        · exact hs
        · exact absurd ⟨hr, by simpa using ht⟩ (hb a ha)
      · cases hn
  cases ha : d.peek? c with
  | none =>
    have heq : background? d c = (none, c) := by simp only [background?, ha]
    rw [heq]
    exact .done (hstay fun a ha' => by rw [ha] at ha'; cases ha')
  | some a =>
    rw [background?_eq ha]
    split
    · rename_i hb
      have htags : tagLine? d a.cursor = none := by
        refine tagLine?_eq_none fun a' ha' => ?_
        rw [Dialect.peek?_cursor ha] at ha'
        cases ha'
        exact hb.2
      obtain ⟨hheads, hread⟩ :=
        reads_background (by rw [Dialect.nextRole?_cursor ha, hb.1]) htags h.room
      rw [Node.optionalLeaves_some]
      refine (hread.of_peek? ha).mono fun s' ⟨hnear, hroom, hset⟩ => ?_
      refine ⟨hset, fun ht => ?_, fun _ => hheads, fun hr => ?_⟩
      · simp [Scope.takes, hnear, Role.isScenario] at ht
      · rw [hroom] at hr
        cases hr
    · rename_i hb
      exact .done (hstay fun a' ha' => by rw [ha] at ha'; cases ha'; exact hb)

/-- A body goes up to the next rule. -/
theorem reads_body (h : BeforeBackground d s c) :
    d.Heads (body d c).2.2 (· = .rule) ∧
      Reads d s c (Node.optionalLeaves (body d c).1 ++ (body d c).2.1.flatMap Node.leaves)
        (body d c).2.2 fun _ => True := by
  obtain ⟨hnone, hskip⟩ := reads_skipToSection h
  simp only [body]
  generalize c.collect (skipToSection? d) = p at *
  obtain ⟨ns, c₁⟩ := p
  dsimp only at *
  have hfront : Reads d s c (Node.optionalLeaves (background? d c₁).1) (background? d c₁).2
      fun s' => AmongScenarios d s' (background? d c₁).2 :=
    hskip.append fun s₁ hs₁ => reads_background? hs₁ hnone
  generalize background? d c₁ = p at *
  obtain ⟨b, c₂⟩ := p
  dsimp only at *
  obtain ⟨-, s₂, -, hs₂⟩ := id hfront
  exact ⟨(reads_scenario_loop hs₂).1, hfront.append fun s' hs' => (reads_scenario_loop hs').2⟩

/-- Below the header of a feature or a rule, nothing has come yet that takes examples or steps. -/
theorem beforeBackground_opened (hr : r = .feature ∨ r = .rule) (hroom : (s.opened r).room = true)
    (ht : textLine? d c = none) : BeforeBackground d (s.opened r) c := by
  have hne : (s.opened r).nearest ≠ some (.examples, true) := by
    rcases hr with rfl | rfl <;> simp [Scope.opened]
  refine ⟨hroom, ?_, ?_, Scope.settled_header rfl hne ht⟩
  · rcases hr with rfl | rfl <;> simp [Scope.takes, Scope.opened, Role.isScenario]
  · rcases hr with rfl | rfl <;> simp [Scope.takes, Scope.opened, Role.isScenario]

theorem reads_rule (hr : d.nextRole? c = some .rule) :
    (rule d c).2.lines.length < c.lines.length ∧ d.Heads (rule d c).2 (· = .rule) ∧
      Reads d s c (rule d c).1.leaves (rule d c).2 fun _ => True := by
  obtain ⟨hlt, htext, hhead⟩ := reads_header .rule hr rfl rfl (s := s) rfl (.inl rfl)
  simp only [rule]
  generalize header d .rule c = p at *
  obtain ⟨h, c₁⟩ := p
  dsimp only at *
  have hroom : (s.opened .rule).room = true := by simp [Scope.opened]
  obtain ⟨hheads, hbody⟩ := reads_body (beforeBackground_opened (.inr rfl) hroom htext)
  generalize body d c₁ = p at *
  obtain ⟨b, ns, c₂⟩ := p
  dsimp only at *
  have hl : (Node.ofRule h b ns).leaves =
      headerLeaves h ++ (Node.optionalLeaves b ++ ns.flatMap Node.leaves) := by
    rw [Node.leaves_of_ne (by simp [Node.ofRule])]
    simp [Node.ofRule, headerLeaves, Node.leavesAll_optional, Node.leavesAll_map_toElement]
  rw [hl]
  exact ⟨Nat.lt_of_le_of_lt hbody.length_le hlt, hheads, hhead.append fun s₁ hs₁ => hs₁ ▸ hbody⟩

theorem ruleOrSkip?_eq (ha : d.peek? c = some a) (hr : d.nextRole? c = some .rule) :
    ruleOrSkip? d c = some ([(rule d a.cursor).1], (rule d a.cursor).2) := by
  simp only [ruleOrSkip?, ha, Dialect.roleAhead_eq ha, hr]

/-- Once a rule is ahead, rules go up to the end of the document and nothing is skipped between
them. -/
theorem reads_rule_loop (h : d.Heads c (· = .rule)) :
    d.peek? (c.collect (ruleOrSkip? d)).2 = none ∧
      Reads d s c ((c.collect (ruleOrSkip? d)).1.flatMap Node.leaves)
        (c.collect (ruleOrSkip? d)).2 fun _ => True := by
  have hloop := Reads.collect (d := d) (ruleOrSkip? d) Node.leaves
    (fun _ c' => d.Heads c' (· = .rule)) ?_ c s h
  · obtain ⟨-, -, -, hheads⟩ := id hloop.2
    refine ⟨?_, hloop.2.mono fun _ _ => trivial⟩
    cases ha : d.peek? (c.collect (ruleOrSkip? d)).2 with
    | none => rfl
    | some a =>
      obtain ⟨r, hr, rfl⟩ := hheads a ha
      have hnone := hloop.1
      rw [ruleOrSkip?_eq ha hr] at hnone
      cases hnone
  · intro s' c' xs c'' hinv hstep
    cases ha : d.peek? c' with
    | none => simp [ruleOrSkip?, ha] at hstep
    | some a =>
      obtain ⟨r, hr, rfl⟩ := hinv a ha
      rw [ruleOrSkip?_eq ha hr] at hstep
      cases hstep
      rw [← Dialect.nextRole?_cursor ha] at hr
      obtain ⟨hlt, hheads, hread⟩ := reads_rule (s := s') hr
      rw [List.flatMap_cons, List.flatMap_nil, List.append_nil]
      exact ⟨Nat.lt_of_lt_of_le hlt (Dialect.length_cursor_le ha),
        (hread.of_peek? ha).mono fun _ _ => hheads⟩

end Grammar

end GherkinTree
