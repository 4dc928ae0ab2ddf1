import GherkinTree.Proofs.Header

/-!
Steps as runs. A table takes all rows ahead of it, a step takes the one table or doc string below
it, and the steps of a section take every line up to the next structural keyword, skipping what
fits nowhere. Main statement: where the scope takes steps, the steps of a section are a run that
ends in front of a structural keyword, tags left aside, or at the end of the document.
-/

namespace GherkinTree

namespace Grammar

variable {s : Scope} {d : Dialect} {c : Cursor} {a : Ahead}

theorem not_row_of_row? {outline : Bool} (h : row? d outline c = none) (ha : d.peek? c = some a) :
    a.kind ≠ .tableRow := by
  intro hk
  obtain ⟨n, ts, es, -, -, heq⟩ := row?_eq outline ha hk
  rw [heq] at h
  cases h

/-- A table takes all rows ahead. -/
theorem reads_table (outline : Bool) (ha : d.peek? c = some a) (hk : a.kind = .tableRow)
    (hs : s.keeps none .tableRow = true) :
    row? d outline (table d outline c).2 = none ∧
      Reads d s c (table d outline c).1.leaves (table d outline c).2
        fun s' => s' = { s with place := .table } := by
  -- behind the first row the place is that of a table, whatever allowed the first row
  have hloop := Reads.collect (d := d) (row? d outline) Node.leaves
    (fun s' c' => s' = { s with place := .table } ∨ (s' = s ∧ c' = c)) ?_ c s (.inr ⟨rfl, rfl⟩)
  · have hleaves : (table d outline c).1.leaves =
        (c.collect (row? d outline)).1.flatMap Node.leaves := by
      rw [Node.leaves_of_ne (by simp [table, Node.ofTable])]
      exact Node.leavesAll_map_toElement _
    rw [hleaves]
    refine ⟨hloop.1, hloop.2.mono fun s' hs' => ?_⟩
    rcases hs' with hs' | ⟨-, hc⟩
    · exact hs'
    · have hnone := hloop.1
      rw [hc] at hnone
      exact absurd hk (not_row_of_row? hnone ha)
  · intro s' c' xs c'' hinv hstep
    have hkeep : ∀ below, s'.keeps below .tableRow = true := by
      intro below
      rcases hinv with rfl | ⟨rfl, -⟩
      · simp [Scope.keeps]
      · exact hs
    have hnext : s'.next .tableRow true = { s with place := .table } := by
      rcases hinv with rfl | ⟨rfl, -⟩ <;> rfl
    by_cases hrow : ∃ a, d.peek? c' = some a ∧ a.kind = .tableRow
    · obtain ⟨a', ha', hk'⟩ := hrow
      obtain ⟨n, ts, es, hkept, hn, heq⟩ := row?_eq outline ha' hk'
      rw [heq] at hstep
      cases hstep
      refine ⟨Dialect.length_tail_lt ha', ?_⟩
      rw [List.flatMap_cons, List.flatMap_nil, List.append_nil, hn]
      refine .keep ha' ?_ hkept (.inl ?_)
      · rw [hk']
        exact hkeep _
      · rw [hk', hnext]
    · rw [row?_eq_none outline fun a ha hk => hrow ⟨a, ha, hk⟩] at hstep
      cases hstep

/-- Behind a table only keywords may follow. -/
theorem settled_table {outline : Bool} (hp : s.place = .table) (hr : row? d outline c = none) :
    s.Settled d c where
  plain a ha hrole htags below := by
    have hrow := not_row_of_row? hr ha
    cases hk : a.kind <;> simp_all [Scope.keeps, Place.isFence, LineKind.role?]
  feature hf := by
    rw [hp] at hf
    cases hf

section Argument

variable {a : Ahead}

theorem argument_of_row (outline : Bool) (hp : d.peek? c = some a) (hk : a.kind = .tableRow) :
    argument d outline c = (some (table d outline a.cursor).1, (table d outline a.cursor).2) := by
  obtain ⟨cur, l, k⟩ := a
  cases hk
  simp only [argument, hp]

theorem argument_of_docString (outline : Bool) (hp : d.peek? c = some a) {f : Fence}
    (hk : a.kind = .docString f) :
    argument d outline c = (some (f.docString outline a).1, (f.docString outline a).2) := by
  obtain ⟨cur, l, k⟩ := a
  cases hk
  simp only [argument, hp]

theorem argument_of_other (outline : Bool) (hp : d.peek? c = some a) (hrow : a.kind ≠ .tableRow)
    (hdoc : ∀ f, a.kind ≠ .docString f) : argument d outline c = (none, c) := by
  unfold argument
  rw [hp]
  split
  · rename_i h
    cases h
    exact absurd rfl hrow
  · rename_i h
    cases h
    exact absurd rfl (hdoc _)
  · rfl

end Argument

/-- A step without an argument is settled. -/
theorem settled_step (hs : s.place = .step)
    (hp : ∀ a, d.peek? c = some a → a.kind ≠ .tableRow ∧ ∀ f, a.kind ≠ .docString f) :
    s.Settled d c := by
  refine ⟨fun a ha hrole htags below => ?_, fun hf => ?_⟩
  · obtain ⟨hrow, hdoc⟩ := hp a ha
    cases hk : a.kind with
    | text => simp [Scope.keeps, hs]
    | tableRow => exact absurd hk hrow
    | docString f => exact absurd hk (hdoc f)
    | tags => exact absurd hk htags
    | keyword m => simp [hk, LineKind.role?] at hrole
  · rw [hs] at hf
    cases hf

/-- Below a step there is its argument or nothing. -/
theorem reads_argument (outline : Bool) (hs : s.place = .step) :
    Reads d s c (Node.optionalLeaves (argument d outline c).1) (argument d outline c).2
      fun s' => s.SameSection s' ∧ s'.Settled d (argument d outline c).2 := by
  cases hp : d.peek? c with
  | none =>
    simp only [argument, hp]
    exact .done ⟨.refl s, settled_step hs fun a ha => by rw [hp] at ha; cases ha⟩
  | some a =>
    by_cases hrow : a.kind = .tableRow
    · obtain ⟨hnone, hread⟩ := reads_table outline (Dialect.peek?_cursor hp) hrow
        (s := s) (by simp [Scope.keeps, hs])
      rw [argument_of_row outline hp hrow, Node.optionalLeaves_some]
      refine .of_peek? hp (hread.mono fun s' hs' => ?_)
      rw [hs']
      exact ⟨⟨rfl, rfl⟩, settled_table rfl hnone⟩
    · by_cases hdoc : ∃ f, a.kind = .docString f
      · obtain ⟨f, hf⟩ := hdoc
        rw [argument_of_docString outline hp hf, Node.optionalLeaves_some]
        refine (Fence.reads_docString outline hp hf hs).mono fun s' hs' => ⟨hs'.1, ?_⟩
        refine Scope.settled_of_place (.inr hs'.2) fun hfresh => ?_
        rw [hs'.2] at hfresh
        cases hfresh
      · have hdoc : ∀ f, a.kind ≠ .docString f := fun f hf => hdoc ⟨f, hf⟩
        rw [argument_of_other outline hp hrow hdoc]
        refine .done ⟨.refl s, settled_step hs fun a' ha' => ?_⟩
        rw [hp] at ha'
        cases ha'
        exact ⟨hrow, hdoc⟩

/-- A step takes its line and the argument below it. -/
theorem reads_step (outline : Bool) {m : KeywordMatch} (ha : d.peek? c = some a)
    (hk : a.kind = .keyword m) (hm : m.role.isStep = true) (ht : s.takes m.role = true) :
    (step d outline m a).2.lines.length < c.lines.length ∧
      Reads d s c (step d outline m a).1.leaves (step d outline m a).2
        fun s' => s.SameSection s' ∧ s'.Settled d (step d outline m a).2 := by
  obtain ⟨ts, es, hkept, hl, hc⟩ := step_eq outline ha hk
  have hline : Reads d s c (ts.map .token) (a.take es)
      fun s' => s.SameSection s' ∧ s'.place = .step := by
    refine .keep ha ?_ hkept ?_
    · rw [hk]
      exact ht
    · rw [hk]
      refine ⟨s.sameSection_next ?_ true, by simp [Scope.next, hm]⟩
      simp [LineKind.role?, Role.isStructural, hm]
  rw [hl, hc]
  have hread := hline.append fun s' hs' =>
    (reads_argument (d := d) (c := a.take es) outline hs'.2).mono
      (fun s'' hs'' => (⟨hs'.1.trans hs''.1, hs''.2⟩ : s.SameSection s'' ∧ _))
  refine ⟨?_, hread⟩
  obtain ⟨-, s', -, hs'⟩ := id hline
  exact Nat.lt_of_le_of_lt (reads_argument (d := d) (c := a.take es) outline hs'.2).length_le
    (Dialect.length_tail_lt ha)

theorem stepOrSkip?_of_step (outline : Bool) {m : KeywordMatch} (ha : d.peek? c = some a)
    (hk : a.kind = .keyword m) (hm : m.role.isStep = true) :
    stepOrSkip? d outline c = some ([(step d outline m a).1], (step d outline m a).2) := by
  simp only [stepOrSkip?, ha, hk, hm, if_true]

/-- Any other line is skipped, unless a section begins with it or with the line that its tags belong
to. -/
theorem stepOrSkip?_of_not_step (outline : Bool) (ha : d.peek? c = some a)
    (hk : ∀ m, a.kind = .keyword m → m.role.isStep = false) :
    stepOrSkip? d outline c =
      if (d.nextRole? c).any Role.isStructural then none else some ([], a.skip) := by
  have hrole := Dialect.roleAhead_eq ha
  unfold stepOrSkip?
  rw [ha]
  dsimp only
  split
  · rename_i m hm
    have hs := hk m hm
    rw [Dialect.nextRole?_of_not_tags ha (by simp [hm]), hm]
    simp [LineKind.role?, Role.isStructural, hs]
  · rw [hrole]
    dsimp only
    cases d.nextRole? c with
    | none => rfl
    | some r => simp [skipAhead]

theorem heads_of_stepOrSkip? {outline : Bool} (h : stepOrSkip? d outline c = none) :
    d.Heads c fun r => r.isStructural = true := by
  intro a ha
  by_cases hk : ∃ m, a.kind = .keyword m ∧ m.role.isStep = true
  · obtain ⟨m, hk, hm⟩ := hk
    rw [stepOrSkip?_of_step outline ha hk hm] at h
    cases h
  · have hk' (m : KeywordMatch) (hm : a.kind = .keyword m) : m.role.isStep = false := by
      simpa using fun hs => hk ⟨m, hm, hs⟩
    rw [stepOrSkip?_of_not_step outline ha hk'] at h
    cases hr : d.nextRole? c with
    | none => simp [hr] at h
    | some r => exact ⟨r, rfl, by simpa [hr] using h⟩

/-- A line with which no section begins and whose keyword the scope does not take is skipped, and
the section above goes on. -/
theorem reads_skip_plain (hset : s.Settled d c) (ha : d.peek? c = some a)
    (hn : (d.nextRole? c).any Role.isStructural = false)
    (hk : ∀ m, a.kind = .keyword m → s.takes m.role = false) :
    a.skip.lines.length < c.lines.length ∧
      Reads d s c [] a.skip fun s' => s.SameSection s' ∧ s'.Settled d a.skip := by
  have hrole (hnt : a.kind ≠ .tags) := Dialect.nextRole?_of_not_tags ha hnt
  obtain ⟨hlt, hread⟩ := hset.skip ha fun r hr => by
    have hstep : r.isStep = true := by simpa [hr, Role.isStructural] using hn
    cases hkind : a.kind with
    | tags => exact .inr ⟨rfl, .inr hstep⟩
    | keyword m =>
      rw [hrole (by simp [hkind]), hkind] at hr
      cases hr
      exact .inl (hk m hkind)
    | _ =>
      rw [hrole (by simp [hkind]), hkind] at hr
      cases hr
  refine ⟨hlt, hread.mono fun s' hs' => ⟨?_, hs'.2⟩⟩
  rw [hs'.1]
  refine s.sameSection_next ?_ false
  by_cases hnt : a.kind = .tags
  · rw [hnt]
    rfl
  · rw [← hrole hnt, hn]

/-- The steps of a section go up to the next structural keyword. -/
theorem reads_steps (outline : Bool) (ht : s.takes .givenStep = true) (hset : s.Settled d c) :
    d.Heads (steps d outline c).2 (fun r => r.isStructural = true) ∧
      Reads d s c ((steps d outline c).1.flatMap Node.leaves) (steps d outline c).2
        fun s' => s.SameSection s' ∧ s'.Settled d (steps d outline c).2 := by
  have hloop := Reads.collect (d := d) (stepOrSkip? d outline) Node.leaves
    (fun s' c' => s.SameSection s' ∧ s'.Settled d c') ?_ c s ⟨.refl s, hset⟩
  · exact ⟨heads_of_stepOrSkip? hloop.1, hloop.2⟩
  · rintro s' c' xs c'' ⟨hsame, hset'⟩ hstep
    cases ha : d.peek? c' with
    | none => simp [stepOrSkip?, ha] at hstep
    | some a =>
      by_cases hk : ∃ m, a.kind = .keyword m ∧ m.role.isStep = true
      · obtain ⟨m, hk, hm⟩ := hk
        rw [stepOrSkip?_of_step outline ha hk hm] at hstep
        cases hstep
        have htake : s'.takes m.role = true := by
          rw [Scope.takes_step hm (show Role.givenStep.isStep = true from rfl),
            Scope.takes_of_sameSection hsame (by decide), ht]
        obtain ⟨hlt, hread⟩ := reads_step outline ha hk hm htake
        refine ⟨hlt, ?_⟩
        rw [List.flatMap_cons, List.flatMap_nil, List.append_nil]
        exact hread.mono fun s'' hs'' => ⟨hsame.trans hs''.1, hs''.2⟩
      · have hk' (m : KeywordMatch) (hm : a.kind = .keyword m) : m.role.isStep = false := by
          simpa using fun hs => hk ⟨m, hm, hs⟩
        rw [stepOrSkip?_of_not_step outline ha hk'] at hstep
        split at hstep
        · cases hstep
        · rename_i hn
          cases hstep
          have hkey (m : KeywordMatch) (hm : a.kind = .keyword m) : s'.takes m.role = false := by
            rw [Dialect.nextRole?_of_not_tags ha (by simp [hm]), hm] at hn
            simp [LineKind.role?, Role.isStructural, hk' m hm] at hn
          obtain ⟨hlt, hread⟩ := reads_skip_plain hset' ha (by simpa using hn) hkey
          exact ⟨hlt, hread.mono fun s'' hs'' => ⟨hsame.trans hs''.1, hs''.2⟩⟩

end Grammar

end GherkinTree
