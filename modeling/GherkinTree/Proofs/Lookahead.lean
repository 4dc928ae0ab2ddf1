import GherkinTree.Grammar.Section
import GherkinTree.Proofs.Text

/-!
What the reader sees ahead of it. The line ahead begins with a character that is neither blank nor
opens a comment, looking at it again changes nothing, and the keyword that decides what the line
ahead belongs to is the one that stands behind any lines of tags. Main statement: with or without
tags ahead, the role that a section is chosen by is `nextRole?` of the lines still to be read.
-/

namespace GherkinTree

namespace Line

/-- Blanks at the end make no line a comment. -/
theorem isTrivial_trim (t : Text) : isTrivial (Text.trim t) = isTrivial (Text.trimStart t) := by
  cases ht : Text.trimStart t with
  | nil => rw [Text.trim, ht, Text.trimEnd_nil]
  | cons c u =>
    rw [Text.trim, ht, isTrivial,
      Text.head?_trimEnd_of_not_blank (Text.isBlank_of_trimStart_eq ht)]
    rfl

/-- A line begins with a character that is neither blank nor opens a comment. -/
def Begins (l : Line) : Prop := ∃ c t, l.content = c :: t ∧ Text.isBlank c = false ∧ c ≠ '#'

theorem begins_of_not_trivial {t : Text} (h : isTrivial (Text.trimStart t) = false) (e : Text) :
    Begins ⟨Text.trimStart t, e⟩ := by
  cases ht : Text.trimStart t with
  | nil => simp [ht, isTrivial] at h
  | cons c u =>
    refine ⟨c, u, rfl, Text.isBlank_of_trimStart_eq ht, ?_⟩
    simpa [ht, isTrivial] using h

theorem Begins.trimStart {l : Line} (h : l.Begins) : Text.trimStart l.content = l.content := by
  obtain ⟨c, t, hl, hb, -⟩ := h
  rw [hl, Text.trimStart_cons_of_not_blank hb]

theorem Begins.leadingBlanks {l : Line} (h : l.Begins) : Text.leadingBlanks l.content = [] := by
  obtain ⟨c, t, hl, hb, -⟩ := h
  rw [hl, Text.leadingBlanks_cons_of_not_blank hb]

theorem Begins.not_trivial {l : Line} (h : l.Begins) : isTrivial l.content = false := by
  obtain ⟨c, t, hl, -, hc⟩ := h
  simp [hl, isTrivial, hc]

theorem Begins.trimEnd_ne_nil {l : Line} (h : l.Begins) : Text.trimEnd l.content ≠ [] := by
  obtain ⟨c, t, hl, -, -⟩ := id h
  exact Text.trimEnd_ne_nil h.trimStart (by simp [hl])

theorem Begins.width_pos {l : Line} (h : l.Begins) : 0 < l.width := by
  obtain ⟨c, t, hl, -, -⟩ := h
  have := c.utf8Size_pos
  simp only [Line.width, full, hl, List.cons_append, Text.width_cons]
  omega

end Line

namespace Cursor

theorem cutTrivia_of_begins {l : Line} (h : l.Begins) (ls : List Line) :
    cutTrivia (l :: ls) = ([], l :: ls) := by
  simp [cutTrivia, h.trimStart, h.not_trivial, h.leadingBlanks, Trivia.piece]

theorem begins_of_cutTrivia {ls rest : List Line} {l : Line}
    (h : (cutTrivia ls).2 = l :: rest) : l.Begins := by
  fun_induction cutTrivia ls with
  | case1 => simp at h
  | case2 m ls hm ts tail hc ih => simp_all
  | case3 m ls hm =>
    cases h
    exact Line.begins_of_not_trivial (by simpa using hm) _

theorem cutTrivia_cutTrivia (ls : List Line) :
    cutTrivia (cutTrivia ls).2 = ([], (cutTrivia ls).2) := by
  cases h : (cutTrivia ls).2 with
  | nil => rfl
  | cons l rest => exact cutTrivia_of_begins (begins_of_cutTrivia h) rest

@[simp] theorem lines_advance (c : Cursor) : c.advance.lines = (cutTrivia c.lines).2 := rfl
@[simp] theorem offset_advance (c : Cursor) :
    c.advance.offset = c.offset + Trivia.widthOf (cutTrivia c.lines).1 := rfl
@[simp] theorem pending_advance (c : Cursor) :
    c.advance.pending = c.pending ++ (cutTrivia c.lines).1 := rfl
@[simp] theorem events_advance (c : Cursor) : c.advance.events = c.events := rfl

/-- There is nothing to pass in front of a line that begins without blanks. -/
theorem advance_of_begins {l : Line} {ls : List Line} {c : Cursor} (hl : l.Begins)
    (hc : c.lines = l :: ls) : c.advance = c := by
  rw [advance, hc, cutTrivia_of_begins hl, ← hc]
  simp

/-- There is nothing to pass a second time. -/
@[simp] theorem advance_advance (c : Cursor) : c.advance.advance = c.advance := by
  simp [advance, cutTrivia_cutTrivia]

@[simp] theorem lines_report (c : Cursor) (e : Event) : (c.report e).lines = c.lines := rfl
@[simp] theorem offset_report (c : Cursor) (e : Event) : (c.report e).offset = c.offset := rfl
@[simp] theorem pending_report (c : Cursor) (e : Event) : (c.report e).pending = c.pending := rfl

section Collect

variable {α : Type} {step : Cursor → Option (List α × Cursor)} {c next : Cursor} {xs : List α}

theorem collect_of_none (h : step c = none) : c.collect step = ([], c) := by
  rw [collect, h]

theorem collect_of_some (h : step c = some (xs, next))
    (hl : next.lines.length < c.lines.length) :
    c.collect step = (xs ++ (next.collect step).1, (next.collect step).2) := by
  rw [collect, h]
  simp [hl]

end Collect

end Cursor

namespace Ahead

/-- The line that a cursor of a dialect stands in front of. -/
structure Fits (d : Dialect) (c : Cursor) (a : Ahead) : Prop where
  cursor : a.cursor = c.advance
  lines : a.cursor.lines = a.line :: a.cursor.lines.tail
  begins : a.line.Begins
  kind : a.kind = d.classify a.line.content

@[simp] theorem lines_consume (a : Ahead) : a.consume.lines = a.cursor.lines.tail := rfl
@[simp] theorem offset_consume (a : Ahead) :
    a.consume.offset = a.cursor.offset + a.line.width := rfl
@[simp] theorem pending_consume (a : Ahead) : a.consume.pending = [] := rfl
@[simp] theorem events_consume (a : Ahead) : a.consume.events = a.cursor.events := rfl
@[simp] theorem lines_skip (a : Ahead) : a.skip.lines = a.cursor.lines.tail := rfl

end Ahead

namespace Dialect

variable {d : Dialect} {c : Cursor} {a : Ahead}

theorem fits_of_peek? (h : d.peek? c = some a) : a.Fits d c := by
  unfold peek? at h
  split at h
  · cases h
  · rename_i l rest hl
    cases h
    refine ⟨rfl, ?_, Cursor.begins_of_cutTrivia hl, rfl⟩
    dsimp only
    rw [hl, List.tail_cons]

/-- The line ahead of its own start. -/
theorem peek?_of_begins {l : Line} {ls : List Line} (hl : l.Begins) (hc : c.lines = l :: ls) :
    d.peek? c = some ⟨c, l, d.classify l.content⟩ := by
  rw [peek?, Cursor.advance_of_begins hl hc, hc]

theorem peek?_eq_none_iff : d.peek? c = none ↔ c.advance.lines = [] := by
  unfold peek?
  split <;> simp_all

@[simp] theorem peek?_advance (d : Dialect) (c : Cursor) : d.peek? c.advance = d.peek? c := by
  simp only [peek?, Cursor.advance_advance]

/-- The line ahead takes part of the lines that were left. -/
theorem length_tail_lt (h : d.peek? c = some a) :
    a.cursor.lines.tail.length < c.lines.length := by
  have hf := fits_of_peek? h
  have hle := Cursor.length_cutTrivia_le c.lines
  have heq := congrArg List.length hf.lines
  rw [List.length_cons, hf.cursor, Cursor.lines_advance] at heq
  rw [hf.cursor, Cursor.lines_advance]
  omega

/-- Looking again from where the line begins shows the same line. -/
theorem peek?_cursor (h : d.peek? c = some a) : d.peek? a.cursor = some a := by
  rw [(fits_of_peek? h).cursor, peek?_advance, h]

theorem length_cursor_le (h : d.peek? c = some a) :
    a.cursor.lines.length ≤ c.lines.length := by
  rw [(fits_of_peek? h).cursor]
  exact Cursor.length_cutTrivia_le c.lines

theorem kindAfterTags?_of_begins {l : Line} (h : l.Begins) (ls : List Line) :
    d.kindAfterTags? (l :: ls) =
      if d.classify l.content = .tags then d.kindAfterTags? ls else some (d.classify l.content) := by
  rw [kindAfterTags?, h.trimStart]
  simp only [h.not_trivial]
  cases d.classify l.content <;> simp

@[simp] theorem kindAfterTags?_cutTrivia (d : Dialect) (ls : List Line) :
    d.kindAfterTags? (Cursor.cutTrivia ls).2 = d.kindAfterTags? ls := by
  fun_induction Cursor.cutTrivia ls with
  | case1 => rfl
  | case2 l ls h ts rest hc ih => simp_all [kindAfterTags?]
  | case3 l ls h =>
    have hb := Line.begins_of_not_trivial (by simpa using h) l.ending
    simp [kindAfterTags?, hb.trimStart]

/-- The role of the first keyword ahead that no line but tags stands in front of. -/
def nextRole? (d : Dialect) (c : Cursor) : Option Role :=
  (d.kindAfterTags? c.lines).bind LineKind.role?

@[simp] theorem nextRole?_advance (d : Dialect) (c : Cursor) :
    d.nextRole? c.advance = d.nextRole? c := by simp [nextRole?]

theorem nextRole?_congr {c' : Cursor} (h : c'.lines = c.lines) :
    d.nextRole? c' = d.nextRole? c := by rw [nextRole?, nextRole?, h]

theorem nextRole?_cursor (h : d.peek? c = some a) : d.nextRole? a.cursor = d.nextRole? c := by
  rw [(fits_of_peek? h).cursor, nextRole?_advance]

/-- Tags hide what is below them from no one. -/
theorem nextRole?_of_tags (h : d.peek? c = some a) (hk : a.kind = .tags) {c' : Cursor}
    (hc : c'.lines = a.cursor.lines.tail) : d.nextRole? c' = d.nextRole? c := by
  have hf := fits_of_peek? h
  have hcl : d.classify a.line.content = .tags := hf.kind ▸ hk
  rw [← nextRole?_advance d c, ← hf.cursor, nextRole?, nextRole?, hf.lines,
    kindAfterTags?_of_begins hf.begins, if_pos hcl, hc]

theorem nextRole?_of_not_tags (h : d.peek? c = some a) (hk : a.kind ≠ .tags) :
    d.nextRole? c = a.kind.role? := by
  have hf := fits_of_peek? h
  have hcl : d.classify a.line.content ≠ .tags := hf.kind ▸ hk
  rw [← nextRole?_advance d c, ← hf.cursor, nextRole?, hf.lines,
    kindAfterTags?_of_begins hf.begins, if_neg hcl, hf.kind]
  rfl

theorem nextRole?_eq_none (h : d.peek? c = none) : d.nextRole? c = none := by
  have hl : (Cursor.cutTrivia c.lines).2 = [] := peek?_eq_none_iff.1 h
  rw [← nextRole?_advance d c, nextRole?, Cursor.lines_advance, hl]
  rfl

theorem exists_peek? {r : Role} (h : d.nextRole? c = some r) : ∃ a, d.peek? c = some a := by
  cases hp : d.peek? c with
  | none => rw [nextRole?_eq_none hp] at h; cases h
  | some a => exact ⟨a, rfl⟩

/-- The section that the reader chooses is the one that the next keyword names. -/
theorem roleAhead_eq (h : d.peek? c = some a) :
    Grammar.roleAhead d a = (d.nextRole? c, a.kind == .tags) := by
  have hf := fits_of_peek? h
  by_cases hk : a.kind = .tags
  · rw [← nextRole?_advance d c, ← hf.cursor]
    simp [Grammar.roleAhead, hk, nextRole?]
  · rw [nextRole?_of_not_tags h hk]
    unfold Grammar.roleAhead
    split
    · contradiction
    · simp [hk]

end Dialect

end GherkinTree
