import GherkinTree.Proofs.Report

/-!
The lines of a source and where they stand. Lines follow one another without gaps, and a cursor
stands between two of them or behind the blanks at the start of one. Main statement: the line ahead
of a cursor is the first line still to be read that is neither blank nor a comment.
-/

namespace GherkinTree

/-- A line and the offset at which it begins. -/
structure SourceLine where
  offset : Nat
  line : Line
  deriving DecidableEq, Repr

namespace SourceLine

/-- The offset of the first character that is no blank. -/
def start (l : SourceLine) : Nat := l.offset + Text.width (Text.leadingBlanks l.line.content)

/-- The content from its first character that is no blank on. -/
def body (l : SourceLine) : Text := Text.trimStart l.line.content

/-- The offset behind the line break. -/
def stop (l : SourceLine) : Nat := l.offset + l.line.width

/-- Whether the line is blank or a comment. -/
def isTrivial (l : SourceLine) : Bool := Line.isTrivial l.body

/-- The line without the blanks at its start. -/
def cut (l : SourceLine) : Line := ⟨l.body, l.line.ending⟩

theorem start_add_width (l : SourceLine) : l.start + l.cut.width = l.stop := by
  have h := congrArg Text.width (Text.leadingBlanks_append_trimStart l.line.content)
  simp only [start, cut, stop, body, Line.width, Line.full, Text.width_append] at h ⊢
  omega

theorem offset_le_start (l : SourceLine) : l.offset ≤ l.start := Nat.le_add_right _ _

theorem begins_cut {l : SourceLine} (h : l.isTrivial = false) : l.cut.Begins :=
  Line.begins_of_not_trivial h l.line.ending

theorem start_lt_stop {l : SourceLine} (h : l.isTrivial = false) : l.start < l.stop := by
  have hpos := (begins_cut h).width_pos
  rw [← l.start_add_width]
  omega

/-- A line that begins without blanks begins at its first character. -/
theorem start_of_begins {l : SourceLine} (h : l.line.Begins) : l.start = l.offset := by
  simp [start, h.leadingBlanks]

theorem cut_of_begins {l : SourceLine} (h : l.line.Begins) : l.cut = l.line := by
  simp [cut, body, h.trimStart]

theorem not_trivial_of_begins {l : SourceLine} (h : l.line.Begins) : l.isTrivial = false := by
  rw [isTrivial, body, h.trimStart, h.not_trivial]

/-- Lines that follow one another from an offset on. -/
def listFrom (offset : Nat) : List Line → List SourceLine
  | [] => []
  | l :: ls => ⟨offset, l⟩ :: listFrom (offset + l.width) ls

/-- The lines of a text. -/
def ofText (t : Text) : List SourceLine := listFrom 0 (Line.split t)

theorem listFrom_append (o : Nat) (ls ms : List Line) :
    listFrom o (ls ++ ms) = listFrom o ls ++ listFrom (o + Text.width (Line.join ls)) ms := by
  induction ls generalizing o with
  | nil => rfl
  | cons l ls ih =>
    simp only [List.cons_append, listFrom, ih, Line.join_cons, Text.width_append, Line.width,
      Nat.add_assoc]

theorem bounds_of_mem_listFrom {o : Nat} {ls : List Line} {l : SourceLine}
    (h : l ∈ listFrom o ls) : o ≤ l.offset ∧ l.stop ≤ o + Text.width (Line.join ls) := by
  induction ls generalizing o with
  | nil => cases h
  | cons m ls ih =>
    rw [Line.join_cons, Text.width_append]
    change _ ∧ _ ≤ o + (m.width + _)
    rcases List.mem_cons.1 h with rfl | h
    · simp only [stop]
      omega
    · have := ih h
      omega

/-- A line ends where the lines below it begin, or before. -/
theorem pairwise_listFrom (o : Nat) (ls : List Line) :
    (listFrom o ls).Pairwise fun x y => x.stop ≤ y.offset := by
  induction ls generalizing o with
  | nil => exact .nil
  | cons l ls ih => exact .cons (fun y hy => (bounds_of_mem_listFrom hy).1) (ih _)

/-- The first and the last of some lines reach from end to end. -/
theorem exists_ends {ls : List Line} (h : ls ≠ []) (o : Nat) :
    ∃ y ∈ listFrom o ls, ∃ z ∈ listFrom o ls,
      y.offset = o ∧ z.stop = o + Text.width (Line.join ls) := by
  induction ls generalizing o with
  | nil => exact absurd rfl h
  | cons l ls ih =>
    by_cases hl : ls = []
    · subst hl
      refine ⟨⟨o, l⟩, List.mem_cons_self, ⟨o, l⟩, List.mem_cons_self, rfl, ?_⟩
      simp [stop, Line.width]
    · obtain ⟨-, -, z, hz, -, he⟩ := ih hl (o + l.width)
      refine ⟨⟨o, l⟩, List.mem_cons_self, z, List.mem_cons_of_mem _ hz, rfl, ?_⟩
      rw [he, Line.join_cons, Text.width_append, Nat.add_assoc]
      rfl

end SourceLine

/-- A line of a text has a character, if only its line break. -/
theorem Line.width_pos_of_mem_split (t : Text) : ∀ l ∈ split t, 0 < l.width := by
  have hpos (c : Char) (u : Text) : 0 < Text.width (c :: u) := by
    have := c.utf8Size_pos
    rw [Text.width_cons]
    omega
  fun_induction split t with
  | case1 => exact List.forall_mem_nil _
  | case2 t ih => exact List.forall_mem_cons.2 ⟨hpos _ _, ih⟩
  | case3 t ih => exact List.forall_mem_cons.2 ⟨hpos _ _, ih⟩
  | case4 c t h₁ h₂ h ih => simpa [width, full] using hpos c []
  | case5 c t h₁ h₂ l ls h ih =>
    rw [h] at ih
    exact List.forall_mem_cons.2 ⟨hpos _ _, (List.forall_mem_cons.1 ih).2⟩

theorem SourceLine.width_pos_of_mem {o : Nat} {ls : List Line} (h : ∀ l ∈ ls, 0 < l.width) :
    ∀ l ∈ listFrom o ls, 0 < l.line.width := by
  induction ls generalizing o with
  | nil => exact nofun
  | cons l ls ih =>
    rw [List.forall_mem_cons] at h
    exact List.forall_mem_cons.2 ⟨h.1, ih h.2⟩

/-- The lines that a cursor has not passed: it stands in front of the first of them or behind the
blanks at its start. With a doc string open, such blanks are pending. -/
inductive Faces (inFence : Bool) : List SourceLine → Cursor → Prop where
  | between (c : Cursor) : Faces inFence (SourceLine.listFrom c.offset c.lines) c
  | inside {l : SourceLine} {ls : List Line} {c : Cursor} (offset : c.offset = l.start)
      (lines : c.lines = l.cut :: ls) (nontrivial : l.isTrivial = false)
      (pending : inFence = true → c.pending ≠ []) :
      Faces inFence (l :: SourceLine.listFrom l.stop ls) c

namespace Faces

variable {b : Bool} {d : Dialect} {c : Cursor} {rs : List SourceLine}

/-- The cursor stands in front of the lines that follow an offset. -/
theorem of_offset (b : Bool) {c : Cursor} {o : Nat} (h : c.offset = o) :
    Faces b (SourceLine.listFrom o c.lines) c := h ▸ .between c

theorem nil_of_lines (h : Faces b rs c) (hc : c.lines = []) : rs = [] := by
  cases h with
  | between => rw [hc]; rfl
  | inside _ lines => rw [hc] at lines; cases lines

/-- Outside doc strings it does not matter what is pending. -/
theorem of_eq (h : Faces false rs c) {c' : Cursor} (hl : c'.lines = c.lines)
    (ho : c'.offset = c.offset) : Faces false rs c' := by
  cases h with
  | between =>
    rw [← hl, ← ho]
    exact .between c'
  | inside offset lines nontrivial _ =>
    exact .inside (ho.trans offset) (hl.trans lines) nontrivial nofun

/-- Only blank lines and comments are passed on the way to the line ahead. -/
theorem cutTrivia (b : Bool) (o : Nat) (ls : List Line) (pending : List Trivia)
    (events : List Event) :
    ∃ ts rs, SourceLine.listFrom o ls = ts ++ rs ∧ (∀ t ∈ ts, t.isTrivial = true) ∧
      Faces b rs ⟨(Cursor.cutTrivia ls).2, o + Trivia.widthOf (Cursor.cutTrivia ls).1,
        pending ++ (Cursor.cutTrivia ls).1, events⟩ := by
  induction ls generalizing o pending with
  | nil => exact ⟨[], [], rfl, nofun, .between ⟨[], o, pending ++ [], events⟩⟩
  | cons l ls ih =>
    by_cases ht : Line.isTrivial (Text.trimStart l.content) = true
    · obtain ⟨ts, rs, he, hts, hf⟩ := ih (o + l.width) (pending ++ l.pieces .comment)
      refine ⟨⟨o, l⟩ :: ts, rs, by rw [SourceLine.listFrom, he, List.cons_append],
        List.forall_mem_cons.2 ⟨ht, hts⟩, ?_⟩
      have hw : Trivia.widthOf (l.pieces .comment ++ (Cursor.cutTrivia ls).1) =
          l.width + Trivia.widthOf (Cursor.cutTrivia ls).1 := by
        rw [← Trivia.width_render, Trivia.render_append, Text.width_append, Trivia.width_render,
          Trivia.width_render, Trivia.widthOf_pieces]
      simp only [Cursor.cutTrivia, ht, if_true, hw]
      rw [← Nat.add_assoc, ← List.append_assoc]
      exact hf
    · have ht : Line.isTrivial (Text.trimStart l.content) = false := by simpa using ht
      refine ⟨[], _, rfl, nofun, ?_⟩
      simp only [Cursor.cutTrivia, ht, Bool.false_eq_true, if_false]
      by_cases hb : Text.leadingBlanks l.content = []
      · have hl : (⟨Text.trimStart l.content, l.ending⟩ : Line) = l := by
          have := Text.leadingBlanks_append_trimStart l.content
          rw [hb, List.nil_append] at this
          rw [this]
        have hp : Trivia.piece .whitespace [] = [] := rfl
        rw [hb, hl, hp, List.append_nil]
        exact .between ⟨l :: ls, o, pending, events⟩
      · refine .inside (l := ⟨o, l⟩) ?_ rfl ht fun _ => ?_
        · rw [← Trivia.width_render, Trivia.render_piece]
          rfl
        · simp [Trivia.piece, hb]

/-- The preamble passes blank lines and comments only. -/
theorem preamble (d : Dialect) (t : Text) :
    ∃ ts rs, SourceLine.ofText t = ts ++ rs ∧ (∀ l ∈ ts, l.isTrivial = true) ∧
      Faces false rs (Preamble.read d 0 (Line.split t)).cursor := by
  obtain ⟨ts, rs, he, hts, hf⟩ := cutTrivia false 0 (Line.split t) [] []
  refine ⟨ts, rs, he, hts, hf.of_eq (Preamble.lines_read d 0 _) ?_⟩
  rw [Nat.zero_add]
  exact Preamble.widthOf_read d 0 _

theorem advance (h : Faces b rs c) :
    ∃ ts rs', rs = ts ++ rs' ∧ (∀ t ∈ ts, t.isTrivial = true) ∧ Faces b rs' c.advance := by
  cases h with
  | between => exact cutTrivia b c.offset c.lines c.pending c.events
  | @inside l ls _ offset lines nontrivial pending =>
    refine ⟨[], _, rfl, List.forall_mem_nil _, ?_⟩
    rw [Cursor.advance_of_begins (SourceLine.begins_cut nontrivial) lines]
    exact .inside offset lines nontrivial pending

/-- The line ahead is the first that is neither blank nor a comment. -/
theorem ahead {a : Ahead} (h : Faces b rs c) (ha : d.peek? c = some a) :
    ∃ ts l, rs = ts ++ l :: SourceLine.listFrom l.stop a.cursor.lines.tail ∧
      (∀ t ∈ ts, t.isTrivial = true) ∧ l.isTrivial = false ∧ a.cursor.offset = l.start ∧
      a.line = l.cut := by
  obtain ⟨ts, rs', rfl, hts, hf⟩ := h.advance
  have hfit := Dialect.fits_of_peek? ha
  rw [← hfit.cursor] at hf
  have hlines := hfit.lines
  refine ⟨ts, ?_⟩
  cases hf with
  | between =>
    have hb : (⟨a.cursor.offset, a.line⟩ : SourceLine).line.Begins := hfit.begins
    refine ⟨⟨a.cursor.offset, a.line⟩, ?_, hts, SourceLine.not_trivial_of_begins hb,
      (SourceLine.start_of_begins hb).symm, (SourceLine.cut_of_begins hb).symm⟩
    rw [hlines]
    rfl
  | @inside l ls _ offset lines nontrivial pending =>
    rw [lines, List.tail_cons] at hlines
    refine ⟨l, by rw [lines, List.tail_cons], hts, nontrivial, offset, ?_⟩
    exact (List.cons.inj hlines).1.symm

end Faces

end GherkinTree
