import GherkinTree.Text

/-!
Blanks at the ends of a text. A text without blanks at an end keeps that end, and blanks at the end
of a line hide no keyword at its start.
-/

namespace GherkinTree

namespace Text

theorem isBlank_of_trimStart_eq {t u : Text} {c : Char} (h : trimStart t = c :: u) :
    isBlank c = false := by
  have hc := List.head?_dropWhile_not isBlank t
  rw [trimStart] at h
  simpa [h] using hc

theorem trimStart_cons_of_not_blank {c : Char} (h : isBlank c = false) (t : Text) :
    trimStart (c :: t) = c :: t := by simp [trimStart, h]

theorem leadingBlanks_cons_of_not_blank {c : Char} (h : isBlank c = false) (t : Text) :
    leadingBlanks (c :: t) = [] := by simp [leadingBlanks, h]

/-- There is nothing to drop a second time. -/
theorem trimStart_trimStart (t : Text) : trimStart (trimStart t) = trimStart t := by
  cases ht : trimStart t with
  | nil => rfl
  | cons c u => exact trimStart_cons_of_not_blank (isBlank_of_trimStart_eq ht) u

theorem trimStart_eq_nil_iff {t : Text} : trimStart t = [] ↔ ∀ c ∈ t, isBlank c = true := by
  rw [trimStart]
  induction t with
  | nil => simp
  | cons c t ih =>
    by_cases hc : isBlank c = true
    · rw [List.dropWhile_cons_of_pos hc, ih, List.forall_mem_cons, and_iff_right hc]
    · rw [List.dropWhile_cons_of_neg hc, List.forall_mem_cons]
      exact iff_of_false (List.cons_ne_nil c t) fun h => hc h.1

/-- There are no blanks in a word. -/
theorem solid_word (t : Text) : ∀ c ∈ t.takeWhile (!isBlank ·), isBlank c = false := by
  intro c hc
  have hword := List.all_eq_true.1 List.all_takeWhile c hc
  simpa using hword

/-- Behind a word stands a blank, if anything. -/
theorem blank_behind_word (t : Text) :
    ∀ c ∈ (t.dropWhile (!isBlank ·)).head?, isBlank c = true := by
  intro c hc
  have hhead := List.head?_dropWhile_not (!isBlank ·) t
  rw [hc] at hhead
  simpa using hhead

theorem mem_of_mem_trimStart {t : Text} {c : Char} (h : c ∈ trimStart t) : c ∈ t :=
  (List.dropWhile_suffix _).mem h

theorem mem_of_mem_trimEnd {t : Text} {c : Char} (h : c ∈ trimEnd t) : c ∈ t := by
  rw [← trimEnd_append_trailingBlanks t]
  exact List.mem_append_left _ h

theorem mem_of_mem_trim {t : Text} {c : Char} (h : c ∈ trim t) : c ∈ t :=
  mem_of_mem_trimStart (mem_of_mem_trimEnd h)

@[simp] theorem trimStart_nil : trimStart [] = [] := rfl
@[simp] theorem trimEnd_nil : trimEnd [] = [] := rfl

theorem trimEnd_cons_ne_nil {c : Char} (h : isBlank c = false) (t : Text) :
    trimEnd (c :: t) ≠ [] := by
  unfold trimEnd cutEnd
  split <;> simp [h]

/-- A text whose first character is no blank is not all blank. -/
theorem trimEnd_ne_nil {t : Text} (h : trimStart t = t) (ht : t ≠ []) : trimEnd t ≠ [] := by
  cases t with
  | nil => exact absurd rfl ht
  | cons c u => exact trimEnd_cons_ne_nil (isBlank_of_trimStart_eq h) u

theorem trimEnd_cons (c : Char) (t : Text) :
    trimEnd (c :: t) = if trimEnd t = [] ∧ isBlank c = true then [] else c :: trimEnd t := by
  unfold trimEnd
  rw [cutEnd]
  split <;> rename_i h <;> rw [h]
  · by_cases hc : isBlank c = true <;> simp [hc]
  · simp

/-- Blanks are dropped behind a text that does not end with one. -/
theorem width_trimEnd_le (t : Text) : width (trimEnd t) ≤ width t := by
  have h := congrArg width (trimEnd_append_trailingBlanks t)
  rw [width_append] at h
  omega

theorem trimEnd_append {p : Text} (h : trimEnd p = p) (r : Text) :
    trimEnd (p ++ r) = p ++ trimEnd r := by
  induction p with
  | nil => rfl
  | cons c p ih =>
    rw [trimEnd_cons] at h
    split at h
    · cases h
    · rename_i hc
      have hp : trimEnd p = p := List.cons.inj h |>.2
      rw [List.cons_append, trimEnd_cons, ih hp, if_neg, List.cons_append]
      rintro ⟨he, hb⟩
      exact hc ⟨by rw [hp]; exact (List.append_eq_nil_iff.1 he).1, hb⟩

theorem trimEnd_concat {c : Char} (h : isBlank c = false) (t : Text) :
    trimEnd (t ++ [c]) = t ++ [c] := by
  induction t with
  | nil => rw [List.nil_append, trimEnd_cons, if_neg (by simp [h]), trimEnd_nil]
  | cons b t ih => simp [trimEnd_cons, ih]

/-- A text that does not end with a blank begins a line whether the blanks at its end are there or
not. -/
theorem after?_trimEnd {p : Text} (h : trimEnd p = p) (t : Text) :
    after? p (trimEnd t) = (after? p t).map trimEnd := by
  cases hr : after? p t with
  | some r =>
    rw [Option.map_some, after?_eq_some_iff, after?_eq_some_iff.1 hr, trimEnd_append h]
  | none =>
    rw [Option.map_none, Option.eq_none_iff_forall_ne_some]
    intro r hr'
    have ht : t = p ++ (r ++ trailingBlanks t) := by
      rw [← List.append_assoc, ← after?_eq_some_iff.1 hr', trimEnd_append_trailingBlanks]
    rw [after?_eq_some_iff.2 ht] at hr
    cases hr

theorem head?_trimEnd_of_not_blank {c : Char} (h : isBlank c = false) (t : Text) :
    (trimEnd (c :: t)).head? = some c := by
  rw [trimEnd_cons, if_neg (by simp [h])]
  rfl

theorem trimEnd_of_blank {b : Text} (h : ∀ c ∈ b, isBlank c = true) : trimEnd b = [] := by
  induction b with
  | nil => rfl
  | cons c b ih =>
    rw [List.forall_mem_cons] at h
    rw [trimEnd_cons, if_pos ⟨ih h.2, h.1⟩]

theorem trimEnd_append_of_blank {b : Text} (h : ∀ c ∈ b, isBlank c = true) (t : Text) :
    trimEnd (t ++ b) = trimEnd t := by
  induction t with
  | nil => exact trimEnd_of_blank h
  | cons c t ih => rw [List.cons_append, trimEnd_cons, trimEnd_cons, ih]

theorem trimStart_append_of_blank {b : Text} (h : ∀ c ∈ b, isBlank c = true) (t : Text) :
    trimStart (b ++ t) = trimStart t :=
  List.dropWhile_append_of_pos h

/-- The ends of a text are trimmed in any order. -/
theorem trimStart_trimEnd (t : Text) : trimStart (trimEnd t) = trimEnd (trimStart t) := by
  induction t with
  | nil => rfl
  | cons c t ih =>
    rw [trimEnd_cons]
    by_cases hc : isBlank c = true
    · have hstart (u : Text) : trimStart (c :: u) = trimStart u := by simp [trimStart, hc]
      rw [hstart, ← ih]
      by_cases ht : trimEnd t = []
      · rw [if_pos ⟨ht, hc⟩, ht]
      · rw [if_neg (fun h => ht h.1), hstart]
    · have hb : isBlank c = false := by simpa using hc
      rw [if_neg (fun h => hc h.2), trimStart_cons_of_not_blank hb, trimStart_cons_of_not_blank hb,
        trimEnd_cons, if_neg (fun h => hc h.2)]

theorem trim_append_of_blank {b : Text} (h : ∀ c ∈ b, isBlank c = true) (t : Text) :
    trim (t ++ b) = trim t := by
  rw [trim, ← trimStart_trimEnd, trimEnd_append_of_blank h, trimStart_trimEnd, trim]

/-- Blanks at the end do not touch the first word. -/
theorem takeWhile_trimEnd (t : Text) :
    (trimEnd t).takeWhile (!isBlank ·) = t.takeWhile (!isBlank ·) := by
  induction t with
  | nil => rfl
  | cons c t ih =>
    rw [trimEnd_cons]
    by_cases hc : isBlank c = true
    · split
      · simp [hc]
      · simp [hc]
    · rw [if_neg (fun h => hc h.2), List.takeWhile_cons, List.takeWhile_cons, ih]

end Text

end GherkinTree
