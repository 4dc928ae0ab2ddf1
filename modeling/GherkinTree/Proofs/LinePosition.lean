import GherkinTree.Proofs.LineTable
import Mathlib

/-!
Positions by line and column. A position moves on by a column with each character, and to the start
of the next line with each line feed. Main statements: the position of an offset counts the line
feeds in front of it and the characters behind the last of them, and it is the one found in the table
of line starts.
-/

namespace GherkinTree

namespace LinePosition

variable {p q r : LinePosition} {t u : Text}

/-- Positions are ordered by their lines, then by their columns. -/
def Before (p q : LinePosition) : Prop :=
  p.line < q.line ∨ (p.line = q.line ∧ p.column < q.column)

theorem Before.trans (h : p.Before q) (h' : q.Before r) : p.Before r := by
  unfold Before at *
  omega

/-- The position behind a text that begins at a position. -/
def past (p : LinePosition) : Text → LinePosition
  | [] => p
  | c :: t => past (if c = '\n' then ⟨p.line + 1, 0⟩ else ⟨p.line, p.column + 1⟩) t

theorem past_append (p : LinePosition) (t u : Text) : p.past (t ++ u) = (p.past t).past u := by
  induction t generalizing p with
  | nil => rfl
  | cons c t ih => exact ih _

theorem past_of_not_mem (h : '\n' ∉ t) (p : LinePosition) :
    p.past t = ⟨p.line, p.column + t.length⟩ := by
  induction t generalizing p with
  | nil => rfl
  | cons c t ih =>
    rw [List.mem_cons, not_or] at h
    rw [past, if_neg (Ne.symm h.1), ih h.2, List.length_cons, Nat.add_assoc, Nat.add_comm 1]

theorem line_past (p : LinePosition) (t : Text) : (p.past t).line = p.line + t.count '\n' := by
  induction t generalizing p with
  | nil => rfl
  | cons c t ih =>
    rw [past, ih, List.count_cons]
    by_cases hc : c = '\n'
    · simp [hc]
      omega
    · simp [hc]

/-- Every character moves on. -/
theorem before_past (p : LinePosition) (h : t ≠ []) : p.Before (p.past t) := by
  induction t generalizing p with
  | nil => exact absurd rfl h
  | cons c t ih =>
    have hstep : p.Before (p.past [c]) := by
      by_cases hc : c = '\n'
      · exact .inl (by simp [past, hc])
      · exact .inr (by simp [past, hc])
    by_cases ht : t = []
    · rwa [ht]
    · rw [← List.singleton_append, past_append]
      exact hstep.trans (ih _ ht)

end LinePosition

namespace Source

variable {s : Source} {t u v : Text} {o : Nat}

section Scan

/-- The scan for an offset goes over the text in front of it. -/
theorem positionFrom_add (p : LinePosition) (t u : Text) (n : Nat) :
    positionFrom p.line p.column (t ++ u) (Text.width t + n) =
      positionFrom (p.past t).line (p.past t).column u n := by
  induction t generalizing p with
  | nil => rw [Text.width_nil, Nat.zero_add]; rfl
  | cons c t ih =>
    have hpos := c.utf8Size_pos
    obtain ⟨m, hm⟩ : ∃ m, Text.width (c :: t) + n = m + 1 :=
      ⟨Text.width (c :: t) + n - 1, by rw [Text.width_cons]; omega⟩
    have hrest : m + 1 - c.utf8Size = Text.width t + n := by
      rw [Text.width_cons] at hm
      omega
    have hge : ¬m + 1 < c.utf8Size := by
      rw [Text.width_cons] at hm
      omega
    rw [List.cons_append, hm, positionFrom, if_neg hge, hrest, LinePosition.past]
    split
    · exact ih ⟨p.line + 1, 0⟩
    · exact ih ⟨p.line, p.column + 1⟩

theorem position_eq_past (h : s.text = t ++ u) :
    s.position (Text.width t) = LinePosition.past ⟨0, 0⟩ t := by
  have hscan := positionFrom_add ⟨0, 0⟩ t u 0
  rw [Nat.add_zero, ← h] at hscan
  rw [position, hscan]
  cases u <;> rfl

theorem position_of_width_le (h : s.width ≤ o) : s.position o = LinePosition.past ⟨0, 0⟩ s.text := by
  obtain ⟨n, rfl⟩ := Nat.exists_eq_add_of_le h
  have hscan := positionFrom_add ⟨0, 0⟩ s.text [] n
  rw [List.append_nil] at hscan
  rw [position]
  exact hscan.trans (by cases n <;> rfl)

/-- An offset inside a character has the line of the character and column zero. -/
theorem position_inside {c : Char} {n : Nat} (h : s.text = t ++ c :: u) (hn : 0 < n)
    (hc : n < c.utf8Size) : s.position (Text.width t + n) = ⟨t.count '\n', 0⟩ := by
  obtain ⟨m, rfl⟩ := Nat.exists_eq_succ_of_ne_zero (Nat.ne_of_gt hn)
  have hscan := positionFrom_add ⟨0, 0⟩ t (c :: u) (m + 1)
  rw [← h, positionFrom, if_pos hc, LinePosition.line_past, Nat.zero_add] at hscan
  exact hscan

end Scan

section Table

theorem length_startsFrom (o : Nat) (t : Text) : (startsFrom o t).length = t.count '\n' := by
  induction t generalizing o with
  | nil => rfl
  | cons c t ih =>
    rw [startsFrom, List.count_cons]
    by_cases hc : c = '\n'
    · simp [hc, ih]
    · simp [hc, ih]

theorem le_of_mem_startsFrom {n : Nat} (h : n ∈ startsFrom o t) : n ≤ o + Text.width t := by
  induction t generalizing o with
  | nil => cases h
  | cons c t ih =>
    rw [Text.width_cons, ← Nat.add_assoc]
    rw [startsFrom] at h
    split at h
    · rcases List.mem_cons.1 h with rfl | h
      · exact Nat.le_add_right _ _
      · exact ih h
    · exact ih h

/-- A line starts behind the first character of the text, or further behind. -/
theorem lt_of_mem_startsFrom {n : Nat} (h : n ∈ startsFrom o t) :
    ∃ c u, t = c :: u ∧ o + c.utf8Size ≤ n := by
  induction t generalizing o with
  | nil => cases h
  | cons c t ih =>
    refine ⟨c, t, rfl, ?_⟩
    have hlater (h : n ∈ startsFrom (o + c.utf8Size) t) : o + c.utf8Size ≤ n := by
      obtain ⟨d, -, -, hd⟩ := ih h
      omega
    rw [startsFrom] at h
    split at h
    · rcases List.mem_cons.1 h with rfl | h
      · exact Nat.le_refl _
      · exact hlater h
    · exact hlater h

/-- The part of a text behind its last line feed. -/
structure LastLine (t above x : Text) : Prop where
  text : t = above ++ x
  inline : '\n' ∉ x
  above : above = [] ∨ ∃ w, above = w ++ ['\n']

theorem exists_lastLine (t : Text) : ∃ above x, LastLine t above x := by
  induction t using List.reverseRecOn with
  | nil => exact ⟨[], [], rfl, List.not_mem_nil, .inl rfl⟩
  | append_singleton t c ih =>
    by_cases hc : c = '\n'
    · exact ⟨t ++ [c], [], (List.append_nil _).symm, List.not_mem_nil, .inr ⟨t, by rw [hc]⟩⟩
    · obtain ⟨above, x, rfl, hx, habove⟩ := ih
      refine ⟨above, x ++ [c], List.append_assoc _ _ _, ?_, habove⟩
      simpa using ⟨hx, Ne.symm hc⟩

variable {above x : Text}

/-- The position behind a text is on its last line. -/
theorem LastLine.past_eq (h : LastLine t above x) :
    LinePosition.past ⟨0, 0⟩ t = ⟨t.count '\n', x.length⟩ := by
  have hline : (LinePosition.past ⟨0, 0⟩ t).line = t.count '\n' := by
    rw [LinePosition.line_past, Nat.zero_add]
  have hcolumn : (LinePosition.past ⟨0, 0⟩ above).column = 0 := by
    rcases h.above with rfl | ⟨w, rfl⟩
    · rfl
    · rw [LinePosition.past_append]
      rfl
  rw [← hline, h.text, LinePosition.past_append, LinePosition.past_of_not_mem h.inline, hcolumn,
    Nat.zero_add]

/-- In the table, the start of the last line of a text stands behind the starts of the lines in
front of it. -/
theorem LastLine.exists_starts (h : LastLine t above x) (hs : s.text = t ++ u) :
    ∃ starts, s.lineStarts = starts ++ Text.width above :: startsFrom (Text.width t) u ∧
      starts.length = t.count '\n' ∧ ∀ n ∈ starts, n ≤ Text.width t := by
  have hcount : t.count '\n' = above.count '\n' := by
    rw [h.text, List.count_append, List.count_eq_zero_of_not_mem h.inline, Nat.add_zero]
  have hrest : startsFrom (Text.width above) (x ++ u) = startsFrom (Text.width t) u := by
    rw [startsFrom_append, startsFrom_of_not_mem h.inline, List.nil_append, h.text,
      Text.width_append]
  have hfound : s.lineStarts = 0 :: (startsFrom 0 above ++ startsFrom (Text.width t) u) := by
    rw [lineStarts, hs, h.text, List.append_assoc, startsFrom_append, Nat.zero_add, hrest, h.text]
  rw [hcount]
  rcases h.above with rfl | ⟨w, rfl⟩
  · exact ⟨[], hfound, rfl, List.forall_mem_nil _⟩
  · have hlast : startsFrom 0 (w ++ ['\n']) = startsFrom 0 w ++ [Text.width (w ++ ['\n'])] := by
      rw [startsFrom_append, Nat.zero_add, Text.width_append]
      rfl
    refine ⟨0 :: startsFrom 0 w, by simp [hfound, hlast], ?_, ?_⟩
    · simp [length_startsFrom]
    · refine List.forall_mem_cons.2 ⟨Nat.zero_le _, fun n hn => ?_⟩
      have hle := le_of_mem_startsFrom hn
      have hwidth := congrArg Text.width h.text
      simp only [Text.width_append] at hwidth
      omega

theorem LastLine.getElem?_lineStarts (h : LastLine t above x) (hs : s.text = t ++ u) :
    s.lineStarts[t.count '\n']? = some (Text.width above) := by
  obtain ⟨starts, hstarts, hlength, -⟩ := h.exists_starts hs
  rw [hstarts, ← hlength, List.getElem?_append_right (Nat.le_refl _), Nat.sub_self]
  rfl

/-- The lines that start in front of an offset or at it, the offset being at the end of a text or
inside the character behind it. -/
theorem LastLine.length_takeWhile (h : LastLine t above x) (hs : s.text = t ++ u)
    (ho : Text.width t ≤ o) (hu : ∀ n ∈ startsFrom (Text.width t) u, o < n) :
    (s.lineStarts.takeWhile (· ≤ o)).length = t.count '\n' + 1 := by
  obtain ⟨starts, hstarts, hlength, hle⟩ := h.exists_starts hs
  have hwidth := congrArg Text.width h.text
  rw [Text.width_append] at hwidth
  have hall : ∀ n ∈ starts ++ [Text.width above], decide (n ≤ o) = true := by
    refine List.forall_mem_append.2 ⟨fun n hn => ?_, List.forall_mem_singleton.2 ?_⟩
    · have := hle n hn
      exact decide_eq_true (by omega)
    · exact decide_eq_true (by omega)
  have hnone : (startsFrom (Text.width t) u).takeWhile (· ≤ o) = [] := by
    cases hd : startsFrom (Text.width t) u with
    | nil => rfl
    | cons n ns =>
      have := hu n (by rw [hd]; exact List.mem_cons_self)
      rw [List.takeWhile_cons_of_neg]
      simpa using this
  rw [hstarts, ← List.singleton_append, ← List.append_assoc, List.takeWhile_append_of_pos hall,
    hnone, ← hlength]
  simp

end Table

/-- The position of an offset by the table of line starts. An offset behind the end counts as the
end. The line is the last that starts in front of the offset or at it, and the column counts the
characters from there; it is zero if the offset is inside a character. -/
def lookup (s : Source) (offset : Nat) : LinePosition :=
  let offset := min offset s.width
  let line := (s.lineStarts.takeWhile (· ≤ offset)).length - 1
  let start := (s.lineStarts[line]?).getD 0
  ⟨line, ((s.slice? (.between start offset)).map List.length).getD 0⟩

section Lookup

variable {above x : Text}

/-- Every offset up to the end of a text is between two characters or inside one. -/
theorem exists_cut {t : Text} (h : o ≤ Text.width t) :
    (∃ a b, t = a ++ b ∧ o = Text.width a) ∨
      ∃ a c b n, t = a ++ c :: b ∧ o = Text.width a + n ∧ 0 < n ∧ n < c.utf8Size := by
  induction t generalizing o with
  | nil => exact .inl ⟨[], [], rfl, Nat.le_zero.1 h⟩
  | cons c t ih =>
    rw [Text.width_cons] at h
    by_cases hzero : o = 0
    · exact .inl ⟨[], c :: t, rfl, hzero⟩
    by_cases hin : o < c.utf8Size
    · exact .inr ⟨[], c, t, o, rfl, (Nat.zero_add o).symm, by omega, hin⟩
    rcases @ih (o - c.utf8Size) (by omega) with ⟨a, b, rfl, ha⟩ | ⟨a, d, b, n, rfl, ha, hn, hd⟩
    · exact .inl ⟨c :: a, b, rfl, by rw [Text.width_cons]; omega⟩
    · exact .inr ⟨c :: a, d, b, n, rfl, by rw [Text.width_cons]; omega, hn, hd⟩

/-- The slice from the start of the last line of a text to the end of the text. -/
theorem LastLine.slice?_eq (h : LastLine t above x) (hs : s.text = t ++ u) :
    s.slice? (.between (Text.width above) (Text.width t)) = some x := by
  rw [h.text, Text.width_append, Span.between_add]
  exact slice?_eq_some_iff.2 ⟨above, u, by rw [hs, h.text], rfl, (Span.width_ofWidth _ _).symm⟩

/-- No slice ends inside a character. -/
theorem slice?_inside {c : Char} {n start : Nat} (hs : s.text = t ++ c :: u) (hn : 0 < n)
    (hc : n < c.utf8Size) (hstart : start ≤ Text.width t + n) :
    s.slice? (.between start (Text.width t + n)) = none := by
  rw [Option.eq_none_iff_forall_ne_some]
  intro y hy
  obtain ⟨a, b, htext, ha, hwidth⟩ := slice?_eq_some_iff.1 hy
  rw [Span.between, dif_pos hstart] at ha hwidth
  have hay : Text.width (a ++ y) = Text.width t + n := by
    rw [Text.width_append, ha, hwidth, Span.width]
    dsimp only
    omega
  obtain ⟨w, hw, hcw⟩ := Text.append_of_width_le (hs.symm.trans htext) (by omega)
  have hwn : Text.width w = n := by
    rw [hw, Text.width_append] at hay
    omega
  cases w with
  | nil => exact absurd hwn.symm (Nat.ne_of_gt hn)
  | cons d w =>
    obtain ⟨rfl, -⟩ := List.cons.inj hcw
    rw [Text.width_cons] at hwn
    omega

/-- The scan of the text and the table of line starts give the same positions. -/
theorem position_eq_lookup (s : Source) (o : Nat) : s.position o = s.lookup o := by
  -- offsets behind the end count as the end
  obtain ⟨m, hm, hle, hposition⟩ : ∃ m, m = min o s.width ∧ m ≤ s.width ∧
      s.position o = s.position m := by
    by_cases ho : o ≤ s.width
    · exact ⟨o, (Nat.min_eq_left ho).symm, ho, rfl⟩
    · have ho : s.width ≤ o := by omega
      refine ⟨s.width, (Nat.min_eq_right ho).symm, Nat.le_refl _, ?_⟩
      rw [position_of_width_le ho, position_of_width_le (Nat.le_refl _)]
  rw [hposition, lookup, ← hm]
  rcases exists_cut hle with ⟨t, u, hs, rfl⟩ | ⟨t, c, u, n, hs, rfl, hn, hc⟩
  · obtain ⟨above, x, h⟩ := exists_lastLine t
    have hu : ∀ n ∈ startsFrom (Text.width t) u, Text.width t < n := by
      intro n hn
      obtain ⟨c, -, -, hc⟩ := lt_of_mem_startsFrom hn
      have := c.utf8Size_pos
      omega
    rw [h.length_takeWhile hs (Nat.le_refl _) hu, Nat.add_sub_cancel, h.getElem?_lineStarts hs,
      Option.getD_some, h.slice?_eq hs, position_eq_past hs, h.past_eq]
    rfl
  · obtain ⟨above, x, h⟩ := exists_lastLine t
    have hu : ∀ m ∈ startsFrom (Text.width t) (c :: u), Text.width t + n < m := by
      intro m hm
      obtain ⟨d, v, hv, hd⟩ := lt_of_mem_startsFrom hm
      obtain ⟨rfl, -⟩ := List.cons.inj hv
      omega
    have hstart : Text.width above ≤ Text.width t + n := by
      rw [h.text, Text.width_append]
      omega
    rw [h.length_takeWhile hs (Nat.le_add_right _ _) hu, Nat.add_sub_cancel,
      h.getElem?_lineStarts hs, Option.getD_some, slice?_inside hs hn hc hstart,
      position_inside hs hn hc]
    rfl

end Lookup

/-- The offset of a position: the start of its line, and behind it as many characters of the line as
the column counts. -/
def offset? (s : Source) (p : LinePosition) : Option Nat := do
  let start ← s.lineStarts[p.line]?
  let rest ← s.text.dropBytes? start
  return start + Text.width ((rest.takeWhile (· != '\n')).take p.column)

/-- A position is that of the offset behind a text with which the source begins. -/
structure PositionBehind (s : Source) (t : Text) (p : LinePosition) : Prop where
  line : p.line = t.count '\n'
  /-- The column counts the characters from the start of the line on. -/
  column : ∃ start x, s.lineStarts[p.line]? = some start ∧ start ≤ Text.width t ∧
    s.slice? (.between start (Text.width t)) = some x ∧ '\n' ∉ x ∧ p.column = x.length
  offset : s.offset? p = some (Text.width t)

theorem positionBehind_position (h : s.text = t ++ u) :
    s.PositionBehind t (s.position (Text.width t)) := by
  obtain ⟨above, x, hlast⟩ := exists_lastLine t
  have hstart := hlast.getElem?_lineStarts h
  have hwidth := congrArg Text.width hlast.text
  rw [Text.width_append] at hwidth
  rw [position_eq_past h, hlast.past_eq]
  refine ⟨rfl, ⟨_, x, hstart, by omega, hlast.slice?_eq h, hlast.inline, rfl⟩, ?_⟩
  have hdrop : s.text.dropBytes? (Text.width above) = some (x ++ u) :=
    Text.dropBytes?_eq_some_iff.2 ⟨above, by rw [h, hlast.text, List.append_assoc], rfl⟩
  have hall := Text.bne_of_not_mem hlast.inline
  have htake : ((x ++ u).takeWhile (· != '\n')).take x.length = x := by
    rw [List.takeWhile_append_of_pos hall, List.take_left']
    rfl
  simp only [offset?, hstart, hdrop, Option.bind_eq_bind, Option.bind_some, htake, hwidth]
  rfl

/-- Columns count characters, not bytes; an offset inside a character has column zero. -/
example :
    let s : Source := ⟨"aé\nü".toList⟩
    [0, 1, 2, 3, 4, 5, 6, 7].map s.position =
        [⟨0, 0⟩, ⟨0, 1⟩, ⟨0, 0⟩, ⟨0, 2⟩, ⟨1, 0⟩, ⟨1, 0⟩, ⟨1, 1⟩, ⟨1, 1⟩] ∧
      s.offset? ⟨1, 1⟩ = some 6 := by decide

/-- Of two boundaries, the position of the first is before that of the second. -/
theorem before_position {o' : Nat} (ho : s.IsBoundary o) (ho' : s.IsBoundary o') (h : o < o') :
    (s.position o).Before (s.position o') := by
  obtain ⟨t, u, hs, rfl⟩ := ho
  obtain ⟨t', u', hs', rfl⟩ := ho'
  obtain ⟨v, rfl, -⟩ := Text.append_of_width_le (hs.symm.trans hs') (Nat.le_of_lt h)
  have hv : v ≠ [] := by
    rintro rfl
    rw [List.append_nil] at h
    exact Nat.lt_irrefl _ h
  rw [position_eq_past hs, position_eq_past hs', LinePosition.past_append]
  exact LinePosition.before_past _ hv

end Source

end GherkinTree
