import GherkinTree.Proofs.Survey
import GherkinTree.Proofs.Visit

/-!
Reading goes forward. Every function of the grammar takes the reader from a place of the source to a
later one by visits that go forward. Main statement: all visits to a source go forward, and the
loops that their rounds make up end without a bound on the number of rounds.
-/

namespace GherkinTree

namespace Visit

variable {source : Text} {o m n : Nat} {vs ws : List Visit}

theorem Forward.le {v : Visit} (h : v.Forward source) : v.start ≤ v.stop := by
  cases h with
  | mk le => exact le

theorem InOrder.le (h : InOrder o vs m) (hv : ∀ v ∈ vs, v.Forward source) : o ≤ m := by
  induction vs generalizing o with
  | nil => exact h
  | cons v vs ih =>
    rw [List.forall_mem_cons] at hv
    exact Nat.le_trans h.1 (Nat.le_trans hv.1.le (ih h.2 hv.2))

theorem InOrder.of_le (h : InOrder m vs n) (ho : o ≤ m) : InOrder o vs n := by
  cases vs with
  | nil => exact Nat.le_trans ho h
  | cons v vs => exact ⟨Nat.le_trans ho h.1, h.2⟩

theorem InOrder.append (h : InOrder o vs m) (h' : InOrder m ws n) : InOrder o (vs ++ ws) n := by
  induction vs generalizing o with
  | nil => exact h'.of_le h
  | cons v vs ih => exact ⟨h.1, ih h.2⟩

end Visit

/-- Visits that take the reader from a cursor to a place of the source. -/
structure Progress (source : Text) (c : Cursor) (vs : List Visit) (c' : Cursor) : Prop where
  placed : c'.PlacedIn source
  order : Visit.InOrder c.offset vs c'.offset
  rounds : vs.countP Visit.isRound + SourceLine.behind source c'.offset ≤
    SourceLine.behind source c.offset
  inner : ∀ v ∈ vs, v.Forward source

namespace Progress

variable {source : Text} {d : Dialect} {c c₁ c₂ : Cursor} {a : Ahead} {vs ws : List Visit}

theorem offset_le (h : Progress source c vs c₁) : c.offset ≤ c₁.offset := h.order.le h.inner

theorem nil (h : c₁.PlacedIn source) (hle : c.offset ≤ c₁.offset) : Progress source c [] c₁ where
  placed := h
  order := hle
  rounds := by
    rw [List.countP_nil, Nat.zero_add]
    exact SourceLine.behind_antitone source hle
  inner := nofun

theorem append (h : Progress source c vs c₁) (h' : Progress source c₁ ws c₂) :
    Progress source c (vs ++ ws) c₂ where
  placed := h'.placed
  order := h.order.append h'.order
  rounds := by
    have := h.rounds
    have := h'.rounds
    rw [List.countP_append]
    omega
  inner := List.forall_mem_append.2 ⟨h.inner, h'.inner⟩

/-- The visits may begin further back. -/
theorem of_le (h : Progress source c₁ vs c₂) (hle : c.offset ≤ c₁.offset) :
    Progress source c vs c₂ where
  placed := h.placed
  order := h.order.of_le hle
  rounds := Nat.le_trans h.rounds (SourceLine.behind_antitone source hle)
  inner := h.inner

/-- A visit that is made of visits. -/
theorem visit {k : Construct} (h : Progress source c vs c₁) (hk : k ≠ .round)
    (hp : k.passes = true → PassesLine source c.offset c₁.offset) :
    Progress source c [.mk k c.offset c₁.offset vs] c₁ where
  placed := h.placed
  order := ⟨Nat.le_refl _, Nat.le_refl _⟩
  rounds := by
    have hround : Visit.isRound (.mk k c.offset c₁.offset vs) = false := by
      simpa [Visit.isRound] using hk
    rw [List.countP_cons_of_neg (by simp [hround]), List.countP_nil, Nat.zero_add]
    exact SourceLine.behind_antitone source h.offset_le
  inner := List.forall_mem_singleton.2
    (.mk h.offset_le h.placed.offset_le hp h.order h.rounds h.inner)

/-- A round that is made of visits. -/
theorem round (h : Progress source c vs c₁) (hp : PassesLine source c.offset c₁.offset)
    (hc : c.PlacedIn source) : Progress source c [.mk .round c.offset c₁.offset vs] c₁ where
  placed := h.placed
  order := ⟨Nat.le_refl _, Nat.le_refl _⟩
  rounds := by
    have hlt := hp.behind_lt hc
    rw [List.countP_cons_of_pos (by rfl), List.countP_nil]
    omega
  inner := List.forall_mem_singleton.2
    (.mk h.offset_le h.placed.offset_le (fun _ => hp) h.order h.rounds h.inner)

/-- A call for the line ahead, which takes the reader behind it. -/
theorem call {k : Construct} (hk : k ≠ .round) (ha : d.peek? c = some a)
    (h : c₁.PlacedIn source) (hp : PassesLine source a.cursor.offset c₁.offset)
    (hle : a.cursor.offset ≤ c₁.offset) :
    Progress source c (Visit.call d k c c₁) c₁ := by
  rw [Visit.call, ha]
  exact ((nil h hle).visit hk fun _ => hp).of_le (Cursor.PlacedIn.offset_le_peek ha)

/-- What begins at the line ahead begins at the cursor. -/
theorem ahead (ha : d.peek? c = some a)
    (h : Progress source a.cursor vs c₁ ∧ PassesLine source a.cursor.offset c₁.offset) :
    Progress source c vs c₁ ∧ PassesLine source c.offset c₁.offset :=
  have hle := Cursor.PlacedIn.offset_le_peek ha
  ⟨h.1.of_le hle, h.2.of_le hle h.1.offset_le⟩

/-- A round of a loop: its visits, and the line that it passes. -/
def Round {α : Type} (source : Text) (step : Cursor → Option (List α × Cursor))
    (inner : Cursor → Cursor → List Visit) : Prop :=
  ∀ c xs n, c.PlacedIn source → step c = some (xs, n) →
    Progress source c (inner c n) n ∧ PassesLine source c.offset n.offset

/-- A loop makes progress if its rounds do, and has no more rounds than lines. -/
theorem Round.collect {α : Type} {step : Cursor → Option (List α × Cursor)}
    {inner : Cursor → Cursor → List Visit} (h : Round source step inner) (hstep : Headway step)
    (hc : c.PlacedIn source) :
    Progress source c (Visit.rounds step inner c) (c.collect step).2 := by
  refine hstep.collect_induction
    (P := fun c p => c.PlacedIn source → Progress source c (Visit.rounds step inner c) p.2)
    ?_ ?_ c hc
  · intro c hs hc
    rw [Visit.rounds, hs]
    exact .nil hc (Nat.le_refl _)
  · intro c xs n hs ih hc
    obtain ⟨hround, hpass⟩ := h c xs n hc hs
    have hlt := (hstep c xs n hs).1
    have hrest := ih hround.placed
    rw [Visit.rounds, hs]
    simp only [if_pos hlt]
    exact (hround.round hpass hc).append hrest

section Grammar

open Grammar

/-- The line ahead is taken or skipped. -/
theorem line {k : Construct} (hk : k ≠ .round) (hc : c.PlacedIn source) (ha : d.peek? c = some a)
    (hl : c₁.lines = a.cursor.lines.tail) (ho : c₁.offset = a.cursor.offset + a.line.width) :
    Progress source c (Visit.call d k c c₁) c₁ ∧ PassesLine source c.offset c₁.offset := by
  obtain ⟨hplaced, hpass⟩ := hc.behind_line ha hl ho
  have hle : a.cursor.offset ≤ c₁.offset := by omega
  exact ⟨.call hk ha hplaced hpass hle, hpass.of_le (Cursor.PlacedIn.offset_le_peek ha) hle⟩

theorem skipLine (hc : c.PlacedIn source) (ha : d.peek? c = some a) :
    Progress source c [.mk .skipLine a.cursor.offset a.skip.offset []] a.skip ∧
      PassesLine source c.offset a.skip.offset := by
  have hskip : Progress source c (Visit.call d .skipLine c a.skip) a.skip ∧ _ :=
    line (by decide) hc ha rfl rfl
  rwa [Visit.call, ha] at hskip

theorem tags (d : Dialect) (hc : c.PlacedIn source) :
    Progress source c [Visit.tags d c] (tags d c).2 := by
  have hround : Round source (tagLine? d) (Visit.call d .tagLine) := by
    intro c xs n hc hs
    by_cases hk : ∃ a, d.peek? c = some a ∧ a.kind = .tags
    · obtain ⟨a, ha, hk⟩ := hk
      rw [tagLine?_of_tags ha hk] at hs
      cases hs
      exact line (by decide) hc ha rfl rfl
    · rw [tagLine?_eq_none fun a ha hk' => hk ⟨a, ha, hk'⟩] at hs
      cases hs
  exact (hround.collect (headway_tagLine? d) hc).visit (by decide) (by exact nofun)

theorem textLine : Round source (textLine? d) (Visit.call d .textLine) := by
  intro c xs n hc hs
  by_cases hk : ∃ a, d.peek? c = some a ∧ a.kind = .text
  · obtain ⟨a, ha, hk⟩ := hk
    rw [textLine?_of_text ha hk] at hs
    cases hs
    exact line (by decide) hc ha rfl rfl
  · rw [textLine?_eq_none fun a ha hk' => hk ⟨a, ha, hk'⟩] at hs
    cases hs

theorem description (d : Dialect) (hc : c.PlacedIn source) :
    Progress source c [Visit.description d c] (description d c).2 :=
  (textLine.collect (headway_textLine? d) hc).visit (by decide) (by exact nofun)

/-- A title that the lookahead has promised takes its line. -/
theorem title {role r : Role} (hr : d.nextRole? c = some r) (ho : opens role r = true)
    (hs : r.isStructural = true) (hn : tagLine? d c = none) (hc : c.PlacedIn source) :
    (title d role c).2.PlacedIn source ∧
      PassesLine source c.offset (title d role c).2.offset ∧
      c.offset ≤ (Grammar.title d role c).2.offset := by
  obtain ⟨a, ha⟩ := Dialect.exists_peek? hr
  have hrole := Dialect.nextRole?_of_not_tags ha (not_tags_of_tagLine? hn ha)
  cases hk : a.kind with
  | keyword m =>
    have hm : m.role = r := by
      rw [hr, hk] at hrole
      exact (Option.some.inj hrole).symm
    subst hm
    obtain ⟨ts, -, -, heq⟩ := titleLine_eq ha hk hs
    rw [title_eq ha hk ho, heq]
    have hpeek := Cursor.PlacedIn.offset_le_peek ha
    have hle : a.cursor.offset ≤ (a.take []).offset := Nat.le_add_right _ _
    obtain ⟨hplaced, hpass⟩ : (a.take []).PlacedIn source ∧ _ := hc.behind_line ha rfl rfl
    exact ⟨hplaced, hpass.of_le hpeek hle, Nat.le_trans hpeek hle⟩
  | _ =>
    rw [hr, hk] at hrole
    cases hrole

/-- A header that the lookahead has promised takes a line. -/
theorem header (role : Role) {r : Role} (hr : d.nextRole? c = some r) (ho : opens role r = true)
    (hs : r.isStructural = true) (hc : c.PlacedIn source) :
    Progress source c [Visit.header d role c] (header d role c).2 ∧
      PassesLine source c.offset (header d role c).2.offset := by
  obtain ⟨hrole, hnone⟩ := nextRole?_tags d c
  have htags := tags d hc
  obtain ⟨hplaced, hpass, hle⟩ := title (hrole.trans hr) ho hs hnone htags.placed
  have hdesc := description d hplaced
  have hpass : PassesLine source c.offset (Grammar.header d role c).2.offset :=
    (hpass.of_le htags.offset_le hle).mono hdesc.offset_le
  exact ⟨(htags.append (hdesc.of_le hle)).visit (by decide) fun _ => hpass, hpass⟩

theorem row (d : Dialect) (outline : Bool) :
    Round source (row? d outline) (Visit.call d .row) := by
  intro c xs n hc hs
  by_cases hk : ∃ a, d.peek? c = some a ∧ a.kind = .tableRow
  · obtain ⟨a, ha, hk⟩ := hk
    rw [row?_of_row outline ha hk] at hs
    cases hs
    exact line (by decide) hc ha rfl rfl
  · rw [row?_eq_none outline fun a ha hk' => hk ⟨a, ha, hk'⟩] at hs
    cases hs

/-- A table takes the row ahead. -/
theorem table (outline : Bool) (ha : d.peek? c = some a) (hk : a.kind = .tableRow)
    (hc : c.PlacedIn source) :
    Progress source c [Visit.table d outline c] (table d outline c).2 := by
  have hrows := (row d outline).collect (headway_row? d outline) hc
  refine hrows.visit (by decide) fun _ => ?_
  obtain ⟨hfirst, hpass⟩ := row d outline c _ _ hc (row?_of_row outline ha hk)
  have hrest := (row d outline).collect (headway_row? d outline) hfirst.placed
  rw [Cursor.collect_of_some (row?_of_row outline ha hk) (Dialect.length_tail_lt ha)]
  exact hpass.mono hrest.offset_le

/-- A doc string takes its first line, its body and the line that closes it. -/
theorem docString (outline : Bool) {f : Fence} (ha : d.peek? c = some a)
    (hc : c.PlacedIn source) :
    Progress source c [.mk .docString a.cursor.offset (f.docString outline a).2.offset []]
      (f.docString outline a).2 := by
  obtain ⟨hlines, hoffset, -⟩ : (f.docString outline a).2.lines = _ ∧ _ := f.cursor_docString outline a
  have hsplit : a.cursor.lines.tail =
      (f.body a.consume.lines ++ (f.behindBody a.consume.lines).take 1) ++
        (f.docString outline a).2.lines := by
    rw [hlines, List.append_assoc, ← List.drop_one (l := f.behindBody _), List.take_append_drop,
      f.body_append_behindBody, Ahead.lines_consume]
  have hwidth : (f.docString outline a).2.offset = a.cursor.offset + a.line.width +
      Text.width (Line.join (f.body a.consume.lines ++ (f.behindBody a.consume.lines).take 1)) := by
    rw [hoffset, Line.join_append, Text.width_append, Ahead.offset_consume, Nat.add_assoc]
    cases f.behindBody a.consume.lines with
    | nil => rfl
    | cons m ms => rw [Fence.last, Fence.fullWidth_closing]; simp [Line.width]
  obtain ⟨hplaced, hpass⟩ := hc.behind ha hsplit hwidth
  have hle : a.cursor.offset ≤ (f.docString outline a).2.offset := by omega
  exact ((nil hplaced hle).visit (by decide) fun _ => hpass).of_le
    (Cursor.PlacedIn.offset_le_peek ha)

theorem argument (d : Dialect) (outline : Bool) (hc : c.PlacedIn source) :
    Progress source c (Visit.argument d outline c) (argument d outline c).2 := by
  cases ha : d.peek? c with
  | none =>
    simp only [Grammar.argument, Visit.argument, ha]
    exact .nil hc (Nat.le_refl _)
  | some a =>
    have hle := Cursor.PlacedIn.offset_le_peek ha
    by_cases hrow : a.kind = .tableRow
    · rw [argument_of_row outline ha hrow]
      simp only [Visit.argument, ha, hrow]
      exact (table outline (Dialect.peek?_cursor ha) hrow (hc.peek ha)).of_le hle
    · by_cases hdoc : ∃ f, a.kind = .docString f
      · obtain ⟨f, hk⟩ := hdoc
        rw [argument_of_docString outline ha hk]
        simp only [Visit.argument, ha, hk]
        exact docString outline ha hc
      · rw [argument_of_other outline ha hrow (not_exists.1 hdoc)]
        have hnone : Visit.argument d outline c = [] := by
          unfold Visit.argument
          rw [ha]
          cases hk : a.kind <;> simp_all
        rw [hnone]
        exact .nil hc (Nat.le_refl _)

theorem step (outline : Bool) {m : KeywordMatch} (ha : d.peek? c = some a)
    (hc : c.PlacedIn source) :
    Progress source c [Visit.step d outline m a] (step d outline m a).2 ∧
      PassesLine source c.offset (Grammar.step d outline m a).2.offset := by
  have hlines : (stepLine outline m a).2.2.lines = a.cursor.lines.tail := by
    unfold stepLine
    dsimp only
    split <;> rfl
  have hoffset : (stepLine outline m a).2.2.offset = a.cursor.offset + a.line.width := by
    unfold stepLine
    dsimp only
    split <;> rfl
  have hcursor : (Grammar.step d outline m a).2 =
      (Grammar.argument d outline (stepLine outline m a).2.2).2 := by
    rw [step_eq_stepLine]
  obtain ⟨hplaced, hpass⟩ := hc.behind_line ha hlines hoffset
  have hle : a.cursor.offset ≤ (stepLine outline m a).2.2.offset := by omega
  have hargument := argument d outline hplaced
  rw [← hcursor] at hargument
  have hpass := hpass.mono hargument.offset_le
  have hpeek := Cursor.PlacedIn.offset_le_peek ha
  refine ⟨((hargument.of_le hle).visit (by decide) fun _ => hpass).of_le hpeek, ?_⟩
  exact hpass.of_le hpeek (Nat.le_trans hle hargument.offset_le)

theorem stepRound (d : Dialect) (outline : Bool) :
    Round source (stepOrSkip? d outline) (Visit.stepRound d outline) := by
  intro c xs n hc hs
  cases ha : d.peek? c with
  | none =>
    simp only [stepOrSkip?, ha] at hs
    cases hs
  | some a =>
    by_cases hk : ∃ m, a.kind = .keyword m ∧ m.role.isStep = true
    · obtain ⟨m, hk, hm⟩ := hk
      rw [stepOrSkip?_of_step outline ha hk hm] at hs
      cases hs
      simp only [Visit.stepRound, ha, hk]
      exact step outline ha hc
    · rw [stepOrSkip?_of_not_step outline ha fun m hm => by simpa using fun hs => hk ⟨m, hm, hs⟩]
        at hs
      split at hs
      · cases hs
      · rename_i hn
        cases hs
        have hkind (m : KeywordMatch) (hm : a.kind = .keyword m) : False := by
          have hrole := Dialect.nextRole?_of_not_tags ha (by simp [hm])
          rw [hrole, hm] at hn
          exact hk ⟨m, hm, by simpa [LineKind.role?, Role.isStructural] using hn⟩
        have hvisit : Visit.stepRound d outline c a.skip =
            [.mk .skipLine a.cursor.offset a.skip.offset []] := by
          cases hk : a.kind with
          | keyword m => exact (hkind m hk).elim
          | _ => simp only [Visit.stepRound, ha, hk]
        rw [hvisit]
        exact skipLine hc ha

theorem background (hr : d.nextRole? c = some .background) (hc : c.PlacedIn source) :
    Progress source c [Visit.background d c] (background d c).2 ∧
      PassesLine source c.offset (Grammar.background d c).2.offset := by
  obtain ⟨hheader, hpass⟩ := header .background hr rfl rfl hc
  have hsteps := (stepRound d false).collect (headway_stepOrSkip? d false) hheader.placed
  have hpass := hpass.mono hsteps.offset_le
  exact ⟨(hheader.append hsteps).visit (by decide) fun _ => hpass, hpass⟩

theorem table? (d : Dialect) (hc : c.PlacedIn source) :
    Progress source c (Visit.table? d c) (table? d c).2 := by
  cases ha : d.peek? c with
  | none =>
    simp only [Grammar.table?, Visit.table?, ha]
    exact .nil hc (Nat.le_refl _)
  | some a =>
    have hpeek := Dialect.peek?_cursor ha
    have hplaced := hc.peek ha
    have hle := Cursor.PlacedIn.offset_le_peek ha
    simp only [Grammar.table?, Visit.table?, ha]
    obtain ⟨cur, l, k⟩ := a
    cases k with
    | tableRow => exact (table false hpeek rfl hplaced).of_le hle
    | _ => exact .nil hc (Nat.le_refl _)

theorem examples (hr : d.nextRole? c = some .examples) (hc : c.PlacedIn source) :
    Progress source c [Visit.examples d c] (examples d c).2 ∧
      PassesLine source c.offset (Grammar.examples d c).2.offset := by
  obtain ⟨hheader, hpass⟩ := header .examples hr rfl rfl hc
  have htable := table? d hheader.placed
  have hcursor : (Grammar.examples d c).2 =
      (Grammar.table? d (Grammar.header d .examples c).2).2 := by
    rw [examples_eq_table?]
  rw [← hcursor] at htable
  have hpass := hpass.mono htable.offset_le
  exact ⟨(hheader.append htable).visit (by decide) fun _ => hpass, hpass⟩

theorem examplesRound (d : Dialect) :
    Round source (examplesOrSkip? d) (Visit.examplesRound d) := by
  intro c xs n hc hs
  cases ha : d.peek? c with
  | none =>
    simp only [examplesOrSkip?, ha] at hs
    cases hs
  | some a =>
    rw [examplesOrSkip?_eq ha] at hs
    simp only [Visit.examplesRound, ha, Dialect.roleAhead_eq ha]
    split at hs
    · rename_i hr
      cases hs
      rw [hr]
      exact ahead ha (examples ((Dialect.nextRole?_cursor ha).trans hr) (hc.peek ha))
    · rename_i hr
      split at hs
      · cases hs
      · cases hs
        split
        · exact absurd (by assumption) hr
        · exact skipLine hc ha

theorem scenario {r : Role} (hr : d.nextRole? c = some r) (hs : r.isScenario = true)
    (hc : c.PlacedIn source) :
    Progress source c [Visit.scenario d c] (scenario d c).2 ∧
      PassesLine source c.offset (Grammar.scenario d c).2.offset := by
  obtain ⟨hheader, hpass⟩ := header .scenario hr (opens_scenario hs) (isStructural_of_isScenario hs) hc
  have hsteps (outline : Bool) :=
    (stepRound d outline).collect (headway_stepOrSkip? d outline) hheader.placed
  have hexamples (outline : Bool) :=
    (examplesRound d).collect (headway_examplesOrSkip? d) (hsteps outline).placed
  have hbody (outline : Bool) := (hsteps outline).append (hexamples outline)
  have hpass (outline : Bool) := hpass.mono (hbody outline).offset_le
  exact ⟨(hheader.append (hbody _)).visit (by decide) fun _ => hpass _, hpass _⟩

theorem backgroundRound (d : Dialect) (hc : c.PlacedIn source) :
    Progress source c (Visit.backgroundRound d c) (background? d c).2 := by
  cases ha : d.peek? c with
  | none =>
    simp only [Grammar.background?, Visit.backgroundRound, ha]
    exact .nil hc (Nat.le_refl _)
  | some a =>
    by_cases hb : d.nextRole? c = some .background ∧ a.kind ≠ .tags
    · have htags : (a.kind == LineKind.tags) = false := by simpa using hb.2
      rw [background?_eq ha, if_pos hb]
      simp only [Visit.backgroundRound, ha, Dialect.roleAhead_eq ha, hb.1, htags]
      have hr := (Dialect.nextRole?_cursor ha).trans hb.1
      obtain ⟨hvisit, hpass⟩ := ahead ha (background hr (hc.peek ha))
      exact hvisit.round hpass hc
    · have hnone : Visit.backgroundRound d c = [] := by
        simp only [Visit.backgroundRound, ha, Dialect.roleAhead_eq ha]
        split
        · rename_i heq
          simp only [Prod.mk.injEq, beq_eq_false_iff_ne] at heq
          exact absurd heq hb
        · rfl
      rw [background?_eq ha, if_neg hb, hnone]
      exact .nil hc (Nat.le_refl _)

theorem scenarioRound (d : Dialect) :
    Round source (scenarioOrSkip? d) (Visit.scenarioRound d) := by
  intro c xs n hc hs
  cases ha : d.peek? c with
  | none =>
    simp only [scenarioOrSkip?, ha] at hs
    cases hs
  | some a =>
    rw [scenarioOrSkip?_eq ha] at hs
    split at hs
    · rename_i hany
      obtain ⟨r, hr, hsc⟩ := (Option.any_eq_true _ _).1 hany
      cases hs
      have hvisit : Visit.scenarioRound d c (Grammar.scenario d a.cursor).2 =
          [Visit.scenario d a.cursor] := by
        simp only [Visit.scenarioRound, ha, Dialect.roleAhead_eq ha, hr]
        rcases Role.eq_of_isScenario hsc with rfl | rfl <;> rfl
      rw [hvisit]
      exact ahead ha (scenario ((Dialect.nextRole?_cursor ha).trans hr) hsc (hc.peek ha))
    · rename_i hany
      split at hs
      · cases hs
      · cases hs
        have hvisit : Visit.scenarioRound d c a.skip =
            [.mk .skipLine a.cursor.offset a.skip.offset []] := by
          simp only [Visit.scenarioRound, ha, Dialect.roleAhead_eq ha]
          split <;> simp_all [Role.isScenario]
        rw [hvisit]
        exact skipLine hc ha

/-- In front of the first section lines are skipped. -/
theorem searchRound (d : Dialect) :
    Round source (skipToSection? d) (Visit.call d .skipLine) := by
  intro c xs n hc hs
  cases ha : d.peek? c with
  | none =>
    simp only [skipToSection?, ha] at hs
    cases hs
  | some a =>
    rw [skipToSection?_eq ha] at hs
    split at hs
    · cases hs
    · cases hs
      exact line (by decide) hc ha rfl rfl

theorem body (d : Dialect) (hc : c.PlacedIn source) :
    Progress source c (Visit.body d c) (body d c).2.2 := by
  have hskipped := (searchRound d).collect (headway_skipToSection? d) hc
  have hbackground := backgroundRound d hskipped.placed
  exact (hskipped.append hbackground).append <|
    (scenarioRound d).collect (headway_scenarioOrSkip? d) hbackground.placed

theorem rule (hr : d.nextRole? c = some .rule) (hc : c.PlacedIn source) :
    Progress source c [Visit.rule d c] (rule d c).2 ∧
      PassesLine source c.offset (Grammar.rule d c).2.offset := by
  obtain ⟨hheader, hpass⟩ := header .rule hr rfl rfl hc
  have hbody := body d hheader.placed
  have hpass := hpass.mono hbody.offset_le
  exact ⟨(hheader.append hbody).visit (by decide) fun _ => hpass, hpass⟩

theorem ruleRound (d : Dialect) : Round source (ruleOrSkip? d) (Visit.ruleRound d) := by
  intro c xs n hc hs
  cases ha : d.peek? c with
  | none =>
    simp only [ruleOrSkip?, ha] at hs
    cases hs
  | some a =>
    by_cases hr : d.nextRole? c = some .rule
    · rw [ruleOrSkip?_eq ha hr] at hs
      cases hs
      simp only [Visit.ruleRound, ha, Dialect.roleAhead_eq ha, hr]
      exact ahead ha (rule ((Dialect.nextRole?_cursor ha).trans hr) (hc.peek ha))
    · rw [ruleOrSkip?_of_not_rule ha hr] at hs
      cases hs
      simp only [Visit.ruleRound, ha, Dialect.roleAhead_eq ha]
      exact skipLine hc ha

theorem impliedHeader (d : Dialect) (hc : c.PlacedIn source) :
    Progress source c (Visit.impliedHeader d c) (impliedHeader d c).2 := by
  have himplied : (implied c).PlacedIn source := hc.advance.congr rfl rfl
  have hle : c.offset ≤ (implied c).offset := Nat.le_add_right _ _
  cases hs : textLine? d (implied c) with
  | none =>
    have hdesc := description d himplied
    have hcursor : (Grammar.description d (implied c)).2 = implied c := by
      simp [Grammar.description, Cursor.collect_of_none hs]
    rw [impliedHeader_of_not_text rfl hs]
    simp only [Visit.impliedHeader, hs]
    rw [hcursor] at hdesc
    exact hdesc.of_le hle
  | some p =>
    obtain ⟨ts, n⟩ := p
    rw [impliedHeader_of_text rfl hs]
    simp only [Visit.impliedHeader, hs]
    have hname := (textLine (implied c) ts n himplied hs).1
    exact (hname.append (description d hname.placed)).of_le hle

theorem featureHeader (d : Dialect) (hc : c.PlacedIn source) :
    Progress source c (Visit.featureHeader d c) (featureHeader d c).2 := by
  cases ha : d.peek? c with
  | none =>
    simp only [Grammar.featureHeader, Visit.featureHeader, ha]
    exact impliedHeader d hc
  | some a =>
    have hrole := Dialect.roleAhead_eq ha
    by_cases hr : d.nextRole? c = some .feature
    · simp only [Grammar.featureHeader, Visit.featureHeader, ha, hrole, hr]
      have hr := (Dialect.nextRole?_cursor ha).trans hr
      exact (header .feature hr rfl rfl (hc.peek ha)).1.of_le
        (Cursor.PlacedIn.offset_le_peek ha)
    · simp only [Grammar.featureHeader, Visit.featureHeader, ha, hrole]
      exact impliedHeader d hc

theorem feature (d : Dialect) (hc : c.PlacedIn source) :
    Progress source c [Visit.feature d c] (feature d c).2 := by
  have hheader := featureHeader d hc
  have hbody := body d hheader.placed
  have hrules := (ruleRound d).collect (headway_ruleOrSkip? d) hbody.placed
  exact ((hheader.append hbody).append hrules).visit (by decide) (by exact nofun)

theorem document (d : Dialect) (hc : c.PlacedIn source) :
    Progress source c (Visit.feature? d c) (document d c).2 := by
  -- the end of the file comes behind the blank lines and comments that are left
  have hend {n : Cursor} (hn : n.PlacedIn source) :
      Progress source n [] { n.advance with pending := [] } :=
    .nil (hn.advance.congr rfl rfl) (Nat.le_add_right _ _)
  cases ha : d.peek? c with
  | none =>
    simp only [Grammar.document, Visit.feature?, feature?, ha]
    exact hend hc
  | some a =>
    simp only [Grammar.document, Visit.feature?, feature?, ha]
    have hfeature := (feature d (hc.peek ha)).of_le (Cursor.PlacedIn.offset_le_peek ha)
    exact hfeature.append (hend hfeature.placed)

end Grammar

theorem parse (d : Dialect) (source : Text) :
    (Visit.parse d source).Forward source := by
  have hvisits := (document (Preamble.read d 0 (Line.split source)).dialect
    (Preamble.placedIn_cursor d source)).of_le (c := ⟨Line.split source, 0, [], []⟩)
    (Nat.zero_le _)
  exact (hvisits.visit (k := .document) (by decide) (by exact nofun)).inner _ List.mem_cons_self

end Progress

namespace Cursor

/-- A loop without a bound: rounds, as many as counted, up to a cursor at which there is none. -/
inductive Loops {α : Type} (step : Cursor → Option (List α × Cursor)) :
    Cursor → Nat → List α × Cursor → Prop where
  | done {c : Cursor} (h : step c = none) : Loops step c 0 ([], c)
  | round {c next last : Cursor} {n : Nat} {xs ys : List α} (h : step c = some (xs, next))
      (rest : Loops step next n (ys, last)) : Loops step c (n + 1) (xs ++ ys, last)

/-- From everywhere the loop ends with what is collected, after no more rounds than there are
lines. -/
def Terminates {α : Type} (step : Cursor → Option (List α × Cursor)) : Prop :=
  ∀ c : Cursor, ∃ n, Loops step c n (c.collect step) ∧
    n + (c.collect step).2.lines.length ≤ c.lines.length

theorem terminates_of_headway {α : Type} {step : Cursor → Option (List α × Cursor)}
    (h : Headway step) : Terminates step := by
  refine fun c => h.collect_induction
    (P := fun c p => ∃ n, Loops step c n p ∧ n + p.2.lines.length ≤ c.lines.length) ?_ ?_ c
  · exact fun c hs => ⟨0, .done hs, Nat.le_of_eq (Nat.zero_add _)⟩
  · intro c xs next hs ih
    obtain ⟨n, hrest, hle⟩ := ih
    have hlt := (h c xs next hs).1
    refine ⟨n + 1, .round hs hrest, ?_⟩
    dsimp only at hle ⊢
    omega

end Cursor

/-- Every loop of the grammar ends by itself. -/
structure Dialect.LoopsEnd (d : Dialect) : Prop where
  tags : Cursor.Terminates (Grammar.tagLine? d)
  description : Cursor.Terminates (Grammar.textLine? d)
  table : ∀ outline, Cursor.Terminates (Grammar.row? d outline)
  steps : ∀ outline, Cursor.Terminates (Grammar.stepOrSkip? d outline)
  examples : Cursor.Terminates (Grammar.examplesOrSkip? d)
  search : Cursor.Terminates (Grammar.skipToSection? d)
  scenarios : Cursor.Terminates (Grammar.scenarioOrSkip? d)
  rules : Cursor.Terminates (Grammar.ruleOrSkip? d)

open Grammar in
theorem Dialect.loopsEnd (d : Dialect) : d.LoopsEnd where
  tags := Cursor.terminates_of_headway (headway_tagLine? d)
  description := Cursor.terminates_of_headway (headway_textLine? d)
  table outline := Cursor.terminates_of_headway (headway_row? d outline)
  steps outline := Cursor.terminates_of_headway (headway_stepOrSkip? d outline)
  examples := Cursor.terminates_of_headway (headway_examplesOrSkip? d)
  search := Cursor.terminates_of_headway (headway_skipToSection? d)
  scenarios := Cursor.terminates_of_headway (headway_scenarioOrSkip? d)
  rules := Cursor.terminates_of_headway (headway_ruleOrSkip? d)

/-- Reading goes forward on every source: offsets do not decrease and stay in the source, every
round and every call for a line passes the end of the line that it begins on, no construct has more
rounds than lines, and the loops end without a bound on their rounds. -/
theorem forward_parse (d : Dialect) (source : Text) :
    (Visit.parse d source).Forward source ∧
      (Preamble.read d 0 (Line.split source)).dialect.LoopsEnd :=
  ⟨Progress.parse d source, Dialect.loopsEnd _⟩

end GherkinTree
