import GherkinTree.Proofs.SourceLine

/-!
Places of a source. The reader stands in front of a line or behind the blanks at its start, and all
lines from there on are still to be read. Main statement: behind the line ahead and some of the
lines below it the reader is at a place of the source again, and the line it stood at is passed.
-/

namespace GherkinTree

namespace SourceLine

/-- The number of lines of a text that end behind an offset. -/
def behind (t : Text) (offset : Nat) : Nat := (ofText t).countP fun l => offset < l.stop

end SourceLine

/-- From an offset on a line to the end of the line, with its line break, or further. -/
structure PassesLine (source : Text) (start stop : Nat) : Prop where
  inside : start < Text.width source
  passes : ∀ l ∈ SourceLine.ofText source, l.offset ≤ start → start < l.stop → l.stop ≤ stop

namespace SourceLine

theorem width_pos_of_mem_ofText {t : Text} {l : SourceLine} (h : l ∈ ofText t) :
    0 < l.line.width := width_pos_of_mem (Line.width_pos_of_mem_split t) l h

theorem stop_le_of_mem_ofText {t : Text} {l : SourceLine} (h : l ∈ ofText t) :
    l.stop ≤ Text.width t := by
  have hstop := (bounds_of_mem_listFrom h).2
  rwa [Nat.zero_add, Line.join_split] at hstop

theorem behind_antitone (t : Text) {o o' : Nat} (h : o ≤ o') : behind t o' ≤ behind t o :=
  List.countP_mono_left fun l _ hl => by
    simp only [decide_eq_true_eq] at hl ⊢
    omega

end SourceLine

namespace Faces

variable {b : Bool} {rs : List SourceLine} {c : Cursor}

theorem lines_eq_nil (h : Faces b rs c) (hrs : rs = []) : c.lines = [] := by
  cases h with
  | between =>
    cases hl : c.lines with
    | nil => rfl
    | cons l ls =>
      rw [hl] at hrs
      cases hrs
  | inside => cases hrs

theorem offset_le_of_head? (h : Faces b rs c) : ∀ l ∈ rs.head?, l.offset ≤ c.offset := by
  cases h with
  | between =>
    cases c.lines with
    | nil => exact nofun
    | cons l ls =>
      intro m hm
      obtain rfl := Option.some.inj hm
      exact Nat.le_refl _
  | inside offset =>
    intro m hm
    obtain rfl := Option.some.inj hm
    rw [offset]
    exact SourceLine.offset_le_start _

theorem lt_stop (h : Faces b rs c) (hpos : ∀ l ∈ rs, 0 < l.line.width) :
    ∀ l ∈ rs, c.offset < l.stop := by
  cases h with
  | between =>
    intro l hl
    have hle := (SourceLine.bounds_of_mem_listFrom hl).1
    have hwidth := hpos l hl
    rw [SourceLine.stop]
    omega
  | inside offset _ nontrivial =>
    have hlt := SourceLine.start_lt_stop nontrivial
    rw [offset]
    refine List.forall_mem_cons.2 ⟨hlt, fun m hm => ?_⟩
    have hle := (SourceLine.bounds_of_mem_listFrom hm).1
    rw [SourceLine.stop] at *
    omega

end Faces

namespace PassesLine

variable {source : Text} {m n o : Nat}

theorem of_le (h : PassesLine source n o) (hmn : m ≤ n) (hno : n ≤ o) : PassesLine source m o where
  inside := Nat.lt_of_le_of_lt hmn h.inside
  passes l hl hm hs := by
    by_cases hn : n < l.stop
    · exact h.passes l hl (Nat.le_trans hm hmn) hn
    · omega

theorem mono (h : PassesLine source m n) (hno : n ≤ o) : PassesLine source m o where
  inside := h.inside
  passes l hl hm hs := Nat.le_trans (h.passes l hl hm hs) hno

end PassesLine

namespace Cursor

/-- The cursor is a place of the source: it stands in front of one of its lines or behind the blanks
at the start of one, and nothing is left out. -/
structure PlacedIn (source : Text) (c : Cursor) : Prop where
  faces : ∃ passed rs, SourceLine.ofText source = passed ++ rs ∧ Faces false rs c
  total : c.offset + Text.width (Line.join c.lines) = Text.width source

namespace PlacedIn

variable {source : Text} {c c' : Cursor} {d : Dialect} {a : Ahead}

theorem offset_le (h : c.PlacedIn source) : c.offset ≤ Text.width source := by
  have := h.total
  omega

/-- The lines that end behind the cursor are those that it faces. -/
theorem exists_faced (h : c.PlacedIn source) :
    ∃ passed rs, SourceLine.ofText source = passed ++ rs ∧ Faces false rs c ∧
      (∀ l ∈ passed, l.stop ≤ c.offset) ∧ ∀ l ∈ rs, c.offset < l.stop := by
  obtain ⟨passed, rs, hsource, hf⟩ := h.faces
  have hpairs := SourceLine.pairwise_listFrom 0 (Line.split source)
  rw [← SourceLine.ofText, hsource, List.pairwise_append] at hpairs
  refine ⟨passed, rs, hsource, hf, fun l hl => ?_, hf.lt_stop fun l hl =>
    SourceLine.width_pos_of_mem_ofText (hsource ▸ List.mem_append_right _ hl)⟩
  cases rs with
  | nil =>
    have hstop : l.stop ≤ Text.width source :=
      SourceLine.stop_le_of_mem_ofText (hsource ▸ List.mem_append_left _ hl)
    have htotal := h.total
    rw [hf.lines_eq_nil rfl, Line.join_nil, Text.width_nil] at htotal
    omega
  | cons m ms =>
    have hstop := hpairs.2.2 l hl m List.mem_cons_self
    have hoffset := hf.offset_le_of_head? m rfl
    omega

/-- Cursors with the same lines and offset are at the same place. -/
theorem congr (h : c.PlacedIn source) (hl : c'.lines = c.lines) (ho : c'.offset = c.offset) :
    c'.PlacedIn source := by
  obtain ⟨passed, rs, hsource, hf⟩ := h.faces
  exact ⟨⟨passed, rs, hsource, hf.of_eq hl ho⟩, by rw [hl, ho, h.total]⟩

theorem advance (h : c.PlacedIn source) : c.advance.PlacedIn source := by
  obtain ⟨passed, rs, hsource, hf⟩ := h.faces
  obtain ⟨ts, rs', rfl, -, hf'⟩ := hf.advance
  refine ⟨⟨passed ++ ts, rs', by rw [hsource, List.append_assoc], hf'⟩, ?_⟩
  have hwidth := congrArg Text.width (render_cutTrivia c.lines)
  rw [Text.width_append, Trivia.width_render] at hwidth
  have htotal := h.total
  rw [lines_advance, offset_advance]
  omega

theorem peek (h : c.PlacedIn source) (ha : d.peek? c = some a) : a.cursor.PlacedIn source := by
  rw [(Dialect.fits_of_peek? ha).cursor]
  exact h.advance

theorem offset_le_peek (ha : d.peek? c = some a) : c.offset ≤ a.cursor.offset := by
  rw [(Dialect.fits_of_peek? ha).cursor, offset_advance]
  exact Nat.le_add_right _ _

/-- Behind the line ahead and some of the lines below it the reader is at a place of the source, and
it has passed a line. -/
theorem behind (h : c.PlacedIn source) (ha : d.peek? c = some a) {ls : List Line}
    (hl : a.cursor.lines.tail = ls ++ c'.lines)
    (ho : c'.offset = a.cursor.offset + a.line.width + Text.width (Line.join ls)) :
    c'.PlacedIn source ∧ PassesLine source a.cursor.offset c'.offset := by
  obtain ⟨passed, rs, hsource, hf⟩ := h.faces
  obtain ⟨ts, l, rfl, -, hn, hstart, hcut⟩ := hf.ahead ha
  have hstop : l.stop = a.cursor.offset + a.line.width := by
    rw [← l.start_add_width, ← hstart, ← hcut]
  have hpairs := SourceLine.pairwise_listFrom 0 (Line.split source)
  rw [← SourceLine.ofText, hsource, ← List.append_assoc] at hpairs
  refine ⟨⟨⟨passed ++ ts ++ l :: SourceLine.listFrom l.stop ls, _, ?_, .of_offset _ rfl⟩, ?_⟩, ?_, ?_⟩
  · rw [hsource, hl, SourceLine.listFrom_append, ho, hstop]
    simp
  · have htotal := (h.peek ha).total
    rw [(Dialect.fits_of_peek? ha).lines, hl, Line.join_cons, Line.join_append, Text.width_append,
      Text.width_append] at htotal
    rw [ho, ← htotal, Line.width]
    omega
  · have hlt := SourceLine.start_lt_stop hn
    have hle : l.stop ≤ Text.width source :=
      SourceLine.stop_le_of_mem_ofText (by rw [hsource]; simp)
    omega
  · intro m hm hoffset hend
    rw [hsource, ← List.append_assoc, List.mem_append, List.mem_cons] at hm
    have hpairs := List.pairwise_append.1 hpairs
    rcases hm with hm | rfl | hm
    · have := hpairs.2.2 m hm l List.mem_cons_self
      have := l.offset_le_start
      omega
    · omega
    · have := List.rel_of_pairwise_cons hpairs.2.1 hm
      have := SourceLine.start_lt_stop hn
      omega

/-- Behind the line ahead. -/
theorem behind_line (h : c.PlacedIn source) (ha : d.peek? c = some a)
    (hl : c'.lines = a.cursor.lines.tail) (ho : c'.offset = a.cursor.offset + a.line.width) :
    c'.PlacedIn source ∧ PassesLine source a.cursor.offset c'.offset := by
  have hsplit : a.cursor.lines.tail = [] ++ c'.lines := hl.symm
  exact h.behind ha hsplit (by simpa using ho)

end PlacedIn

end Cursor

/-- Behind the preamble the reader is at a place of the source. -/
theorem Preamble.placedIn_cursor (d : Dialect) (source : Text) :
    (read d 0 (Line.split source)).cursor.PlacedIn source := by
  have hstart : Cursor.PlacedIn source ⟨Line.split source, 0, [], []⟩ :=
    ⟨⟨[], _, rfl, .between ⟨Line.split source, 0, [], []⟩⟩, by simp [Line.join_split]⟩
  refine hstart.advance.congr (lines_read d 0 _) ?_
  rw [Cursor.offset_advance, Nat.zero_add]
  exact widthOf_read d 0 _

/-- Where a line is passed there are fewer lines behind. -/
theorem PassesLine.behind_lt {source : Text} {c : Cursor} {o : Nat}
    (h : PassesLine source c.offset o) (hc : c.PlacedIn source) :
    SourceLine.behind source o < SourceLine.behind source c.offset := by
  obtain ⟨passed, rs, hsource, hf, hpassed, hrest⟩ := hc.exists_faced
  cases rs with
  | nil =>
    have htotal := hc.total
    have hinside := h.inside
    rw [hf.lines_eq_nil rfl, Line.join_nil, Text.width_nil] at htotal
    omega
  | cons l ls =>
    have hstart := hrest l List.mem_cons_self
    have hstop : l.stop ≤ o :=
      h.passes l (by rw [hsource]; simp) (hf.offset_le_of_head? l rfl) hstart
    have hfewer : (l :: ls).countP (fun l => o < l.stop) ≤ ls.length := by
      rw [List.countP_cons_of_neg (by simpa using hstop)]
      exact List.countP_le_length
    have hnone : passed.countP (fun l => o < l.stop) = 0 := by
      refine List.countP_eq_zero.2 fun m hm => ?_
      have := hpassed m hm
      simp only [decide_eq_true_eq]
      omega
    have hall : (l :: ls).countP (fun l => c.offset < l.stop) = (l :: ls).length :=
      List.countP_eq_length.2 (by simpa using hrest)
    rw [SourceLine.behind, SourceLine.behind, hsource, List.countP_append, List.countP_append,
      hnone, hall, List.length_cons]
    omega

end GherkinTree
