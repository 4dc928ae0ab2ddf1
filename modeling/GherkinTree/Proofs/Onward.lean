import GherkinTree.Proofs.Section

/-!
Reading goes forward. A run takes no line back and forgets nothing that has happened, and each round
of a loop of the grammar leaves fewer lines, so that a loop ends where it finds nothing more. Main
statements: induction over the rounds of such a loop, and the loops of the grammar are such loops.
-/

namespace GherkinTree

namespace Cursor

/-- A later place of the reader: no line has come back and nothing is forgotten. -/
structure Onward (c c' : Cursor) : Prop where
  length_le : c'.lines.length ≤ c.lines.length
  events : c.events <+: c'.events

namespace Onward

variable {c c' c'' : Cursor}

theorem refl (c : Cursor) : c.Onward c := ⟨Nat.le_refl _, List.prefix_rfl⟩

theorem trans (h : c.Onward c') (h' : c'.Onward c'') : c.Onward c'' :=
  ⟨Nat.le_trans h'.length_le h.length_le, h.events.trans h'.events⟩

end Onward

end Cursor

variable {d : Dialect} {s s' : Scope} {c c' : Cursor} {a : Ahead} {ls : List Leaf}
  {fs : List Fate}

theorem Move.onward (h : Move d s c ls fs s' c') : c.Onward c' := by
  refine ⟨h.length_le, ?_⟩
  cases h with
  | advance => exact List.prefix_rfl
  | skip ahead =>
    rw [← Cursor.events_advance c, ← (Dialect.fits_of_peek? ahead).cursor]
    exact List.prefix_append _ _
  | keep ahead =>
    rw [← Cursor.events_advance c, ← (Dialect.fits_of_peek? ahead).cursor]
    exact List.prefix_append _ _
  | imply => exact List.prefix_append _ _
  | content => exact List.prefix_rfl
  | unclosed => exact List.prefix_append _ _

theorem Run.onward (h : Run d s c ls fs s' c') : c.Onward c' := by
  induction h with
  | done s c => exact .refl c
  | move first _ ih => exact first.onward.trans ih

theorem Reads.onward {post : Scope → Prop} (h : Reads d s c ls c' post) : c.Onward c' := by
  obtain ⟨fs, s', hr, -⟩ := h
  exact hr.onward

theorem Cursor.Onward.peek (h : d.peek? c = some a) : c.Onward a.cursor := by
  rw [(Dialect.fits_of_peek? h).cursor]
  exact (Move.advance (d := d) .initial c).onward

theorem Cursor.Onward.skip (h : d.peek? c = some a) : c.Onward a.skip := by
  refine (peek h).trans ⟨?_, List.prefix_append _ _⟩
  exact Nat.le_of_lt (Dialect.length_tail_lt (Dialect.peek?_cursor h))

/-- Every round of a loop takes a line and forgets nothing. -/
def Headway {α : Type} (step : Cursor → Option (List α × Cursor)) : Prop :=
  ∀ c xs c', step c = some (xs, c') → c'.lines.length < c.lines.length ∧ c.Onward c'

namespace Headway

variable {α : Type} {step : Cursor → Option (List α × Cursor)}

/-- Induction over the rounds of a loop. -/
theorem collect_induction {P : Cursor → List α × Cursor → Prop} (h : Headway step)
    (done : ∀ c, step c = none → P c ([], c))
    (round : ∀ c xs next, step c = some (xs, next) → P next (next.collect step) →
      P c (xs ++ (next.collect step).1, (next.collect step).2))
    (c : Cursor) : P c (c.collect step) := by
  cases hs : step c with
  | none =>
    rw [Cursor.collect_of_none hs]
    exact done c hs
  | some p =>
    obtain ⟨xs, next⟩ := p
    have hl := (h c xs next hs).1
    rw [Cursor.collect_of_some hs hl]
    exact round c xs next hs (collect_induction h done round next)
termination_by c.lines.length

/-- Behind a loop there is no further round. -/
theorem collect_eq_none (h : Headway step) (c : Cursor) : step (c.collect step).2 = none :=
  h.collect_induction (P := fun _ p => step p.2 = none) (fun _ hs => hs)
    (fun _ _ _ _ ih => ih) c

theorem onward_collect (h : Headway step) (c : Cursor) : c.Onward (c.collect step).2 :=
  h.collect_induction (P := fun c p => c.Onward p.2) (fun c _ => .refl c)
    (fun c xs next hs ih => (h c xs next hs).2.trans ih) c

end Headway

namespace Grammar

/-- A scope below the kept keyword of a role. -/
def within (r : Role) : Scope := ⟨some (r, true), false, .elsewhere⟩

theorem headway_of_skip (h : d.peek? c = some a) :
    a.skip.lines.length < c.lines.length ∧ c.Onward a.skip :=
  ⟨Dialect.length_tail_lt h, .skip h⟩

theorem headway_of_take (h : d.peek? c = some a) (es : List Event) :
    (a.take es).lines.length < c.lines.length ∧ c.Onward (a.take es) := by
  refine ⟨Dialect.length_tail_lt h, (Cursor.Onward.peek h).trans ⟨?_, List.prefix_append _ _⟩⟩
  exact Nat.le_of_lt (Dialect.length_tail_lt (Dialect.peek?_cursor h))

theorem headway_tagLine? (d : Dialect) : Headway (tagLine? d) := by
  intro c xs c' h
  by_cases hk : ∃ a, d.peek? c = some a ∧ a.kind = .tags
  · obtain ⟨a, ha, hk⟩ := hk
    obtain ⟨ts, es, -, heq⟩ := tagLine?_eq ha hk
    rw [heq] at h
    cases h
    exact headway_of_take ha es
  · rw [tagLine?_eq_none fun a ha hk' => hk ⟨a, ha, hk'⟩] at h
    cases h

theorem headway_textLine? (d : Dialect) : Headway (textLine? d) := by
  intro c xs c' h
  by_cases hk : ∃ a, d.peek? c = some a ∧ a.kind = .text
  · obtain ⟨a, ha, hk⟩ := hk
    obtain ⟨ts, -, heq⟩ := textLine?_eq ha hk
    rw [heq] at h
    cases h
    exact headway_of_take ha []
  · rw [textLine?_eq_none fun a ha hk' => hk ⟨a, ha, hk'⟩] at h
    cases h

theorem headway_row? (d : Dialect) (outline : Bool) : Headway (row? d outline) := by
  intro c xs c' h
  by_cases hk : ∃ a, d.peek? c = some a ∧ a.kind = .tableRow
  · obtain ⟨a, ha, hk⟩ := hk
    obtain ⟨n, ts, es, -, -, heq⟩ := row?_eq outline ha hk
    rw [heq] at h
    cases h
    exact headway_of_take ha es
  · rw [row?_eq_none outline fun a ha hk' => hk ⟨a, ha, hk'⟩] at h
    cases h

theorem headway_stepOrSkip? (d : Dialect) (outline : Bool) : Headway (stepOrSkip? d outline) := by
  intro c xs c' h
  cases ha : d.peek? c with
  | none => simp [stepOrSkip?, ha] at h
  | some a =>
    by_cases hk : ∃ m, a.kind = .keyword m ∧ m.role.isStep = true
    · obtain ⟨m, hk, hm⟩ := hk
      rw [stepOrSkip?_of_step outline ha hk hm] at h
      cases h
      have ht : (within .scenario).takes m.role = true := by
        rw [Scope.takes_step hm (show Role.givenStep.isStep = true from rfl)]
        rfl
      obtain ⟨hlt, hread⟩ := reads_step outline ha hk hm ht
      exact ⟨hlt, hread.onward⟩
    · rw [stepOrSkip?_of_not_step outline ha fun m hm => by simpa using fun hs => hk ⟨m, hm, hs⟩] at h
      split at h
      · cases h
      · cases h
        exact headway_of_skip ha

theorem headway_examplesOrSkip? (d : Dialect) : Headway (examplesOrSkip? d) := by
  intro c xs c' h
  cases ha : d.peek? c with
  | none => simp [examplesOrSkip?, ha] at h
  | some a =>
    rw [examplesOrSkip?_eq ha] at h
    split at h
    · rename_i hr
      cases h
      rw [← Dialect.nextRole?_cursor ha] at hr
      obtain ⟨hlt, hread⟩ := reads_examples (s := within .examples) hr rfl
      exact ⟨Nat.lt_of_lt_of_le hlt (Dialect.length_cursor_le ha), (hread.of_peek? ha).onward⟩
    · split at h
      · cases h
      · cases h
        exact headway_of_skip ha

theorem headway_skipToSection? (d : Dialect) : Headway (skipToSection? d) := by
  intro c xs c' h
  cases ha : d.peek? c with
  | none => simp [skipToSection?, ha] at h
  | some a =>
    rw [skipToSection?_eq ha] at h
    split at h
    · cases h
    · cases h
      exact headway_of_skip ha

theorem headway_scenarioOrSkip? (d : Dialect) : Headway (scenarioOrSkip? d) := by
  intro c xs c' h
  cases ha : d.peek? c with
  | none => simp [scenarioOrSkip?, ha] at h
  | some a =>
    rw [scenarioOrSkip?_eq ha] at h
    split at h
    · rename_i hany
      cases h
      obtain ⟨r, hr, hs⟩ := (Option.any_eq_true _ _).1 hany
      rw [← Dialect.nextRole?_cursor ha] at hr
      obtain ⟨hlt, -, hread⟩ := reads_scenario (s := .initial) hr hs
      exact ⟨Nat.lt_of_lt_of_le hlt (Dialect.length_cursor_le ha), (hread.of_peek? ha).onward⟩
    · split at h
      · cases h
      · cases h
        exact headway_of_skip ha

theorem ruleOrSkip?_of_not_rule (ha : d.peek? c = some a) (hr : d.nextRole? c ≠ some .rule) :
    ruleOrSkip? d c = some ([], a.skip) := by
  unfold ruleOrSkip?
  rw [ha]
  dsimp only
  rw [Dialect.roleAhead_eq ha]
  dsimp only
  split
  · rename_i h
    exact absurd h hr
  · rfl

theorem headway_ruleOrSkip? (d : Dialect) : Headway (ruleOrSkip? d) := by
  intro c xs c' h
  cases ha : d.peek? c with
  | none => simp [ruleOrSkip?, ha] at h
  | some a =>
    by_cases hr : d.nextRole? c = some .rule
    · rw [ruleOrSkip?_eq ha hr] at h
      cases h
      rw [← Dialect.nextRole?_cursor ha] at hr
      obtain ⟨hlt, -, hread⟩ := reads_rule (s := .initial) hr
      exact ⟨Nat.lt_of_lt_of_le hlt (Dialect.length_cursor_le ha), (hread.of_peek? ha).onward⟩
    · rw [ruleOrSkip?_of_not_rule ha hr] at h
      cases h
      exact headway_of_skip ha

end Grammar

end GherkinTree
