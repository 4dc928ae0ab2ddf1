import GherkinTree.Proofs.Line
import GherkinTree.Proofs.Position
import Mathlib

/-!
The two ways to find the lines of a source. The table of line starts is made once, and a line of it
ends where the next begins, less its line break. A search starts at any offset of a line and goes on
to the next line feed. Main statement: both find the same lines, and these are the lines that the
reader reads.
-/

namespace GherkinTree

@[simp] theorem Span.width_ofWidth (o w : Nat) : (ofWidth o w).width = w :=
  Nat.add_sub_cancel_left o w

theorem Span.between_add (o w : Nat) : between o (o + w) = ofWidth o w :=
  dif_pos (Nat.le_add_right o w)

@[simp] theorem Text.width_reverse (t : Text) : width t.reverse = width t := by
  induction t with
  | nil => rfl
  | cons c t ih => simp [ih, Nat.add_comm]

/-- A character that is not in a text is none of its characters. -/
theorem Text.bne_of_not_mem {t : Text} {d : Char} (h : d ∉ t) : ∀ c ∈ t, (c != d) = true := by
  intro c hc
  rw [bne_iff_ne]
  rintro rfl
  exact h hc

namespace Line

variable {l : Line} {p q : Text}

theorem width_eq (l : Line) : l.width = Text.width l.content + Text.width l.ending := by
  rw [width, full, Text.width_append]

/-- The rest of a line is a line again. -/
theorem IsCut.rest (h : l.IsCut) (hl : l.content = p ++ q) : IsCut ⟨q, l.ending⟩ where
  content hq := h.content (hl ▸ List.mem_append_right p hq)
  ending := h.ending
  bare he := by
    have hlast := h.bare he
    rw [hl] at hlast
    exact fun hq => hlast (List.mem_getLast?_append_of_mem_getLast? hq)

/-- The width of a line without its line break is that of its content. -/
theorem IsCut.contentWidth (h : l.IsCut) : Source.contentWidth l.full = Text.width l.content := by
  have hfull : l.full.reverse = l.ending.reverse ++ l.content.reverse := by
    rw [full, List.reverse_append]
  unfold Source.contentWidth
  rw [hfull]
  rcases h.ending with he | he | he
  · have hno (t : Text) : l.content.reverse ≠ '\n' :: t := by
      intro ht
      refine h.content (List.mem_reverse.1 ?_)
      rw [ht]
      exact List.mem_cons_self
    rw [he, List.reverse_nil, List.nil_append]
    split
    · exact absurd ‹_› (hno _)
    · exact absurd ‹_› (hno _)
    · exact Text.width_reverse l.content
  · have hno (t : Text) : l.content.reverse ≠ '\r' :: t := by
      intro ht
      refine h.bare he ?_
      rw [← List.head?_reverse, ht, List.head?_cons]
    rw [he, List.reverse_singleton, List.singleton_append]
    split
    · rename_i ht
      exact absurd (List.cons.inj ht).2 (hno _)
    · rename_i ht
      rw [← (List.cons.inj ht).2, Text.width_reverse]
    · rename_i ht
      exact absurd rfl (ht _)
  · rw [he]
    exact Text.width_reverse l.content

end Line

namespace Source

variable {s : Source} {l : Line} {t u : Text} {o : Nat}

section Table

theorem startsFrom_append (o : Nat) (t u : Text) :
    startsFrom o (t ++ u) = startsFrom o t ++ startsFrom (o + Text.width t) u := by
  induction t generalizing o with
  | nil => rfl
  | cons c t ih =>
    rw [List.cons_append, startsFrom, startsFrom, ih, Text.width_cons, Nat.add_assoc]
    split <;> rfl

theorem startsFrom_of_not_mem (h : '\n' ∉ t) (o : Nat) : startsFrom o t = [] := by
  induction t generalizing o with
  | nil => rfl
  | cons c t ih =>
    rw [List.mem_cons, not_or] at h
    rw [startsFrom, if_neg (Ne.symm h.1), ih h.2]

/-- Behind a line with a line break the next line starts. -/
theorem startsFrom_full (h : l.IsCut) (he : l.ending ≠ []) (o : Nat) (t : Text) :
    startsFrom o (l.full ++ t) = (o + l.width) :: startsFrom (o + l.width) t := by
  have hnext (o : Nat) : startsFrom o l.ending = [o + Text.width l.ending] := by
    rcases h.ending with h | h | h
    · exact absurd h he
    · rw [h]
      rfl
    · rw [h]
      rfl
  rw [startsFrom_append, ← Line.width, Line.full, startsFrom_append, startsFrom_of_not_mem h.content,
    hnext, l.width_eq, Nat.add_assoc]
  rfl

end Table

/-- All lines of a source. Behind a last line break there is one more, which the reader does not
read as it is empty. -/
def lines (s : Source) : List Line :=
  if (Line.split s.text).getLast?.any (·.ending.isEmpty) then Line.split s.text
  else Line.split s.text ++ [⟨[], []⟩]

theorem join_lines (s : Source) : Line.join s.lines = s.text := by
  unfold lines
  split
  · exact Line.join_split s.text
  · rw [Line.join_append, Line.join_split]
    simp [Line.full]

theorem isCut_of_mem_lines : ∀ l ∈ s.lines, l.IsCut := by
  have hsplit := Line.isCut_of_mem_split s.text
  unfold lines
  split
  · exact hsplit
  · refine List.forall_mem_append.2 ⟨hsplit, List.forall_mem_singleton.2 ?_⟩
    exact ⟨List.not_mem_nil, .inl rfl, nofun⟩

/-- Only the last line has no line break, and it never has one. -/
theorem exists_last (s : Source) :
    ∃ ls l, s.lines = ls ++ [l] ∧ l.ending = [] ∧ ∀ m ∈ ls, m.ending ≠ [] := by
  have hdrop := Line.ending_ne_nil_of_mem_dropLast s.text
  unfold lines
  rcases List.eq_nil_or_concat (Line.split s.text) with hnil | ⟨ls, l, hsplit⟩
  · exact ⟨[], ⟨[], []⟩, by simp [hnil], rfl, List.forall_mem_nil _⟩
  · rw [hsplit, List.concat_eq_append] at hdrop ⊢
    rw [List.dropLast_concat] at hdrop
    rw [List.getLast?_concat, Option.any_some]
    by_cases he : l.ending = []
    · exact ⟨ls, l, by simp [he], he, hdrop⟩
    · refine ⟨ls ++ [l], ⟨[], []⟩, by simp [he], rfl, ?_⟩
      exact List.forall_mem_append.2 ⟨hdrop, List.forall_mem_singleton.2 he⟩

/-- The lines above and below a line: a line without a line break is the last. -/
theorem below_eq_nil {above below : List Line} (h : s.lines = above ++ l :: below) :
    l.ending = [] ↔ below = [] := by
  obtain ⟨ls, m, hlines, hm, hls⟩ := s.exists_last
  rw [h] at hlines
  rcases List.eq_nil_or_concat below with rfl | ⟨bs, b, rfl⟩
  · have : l = m := by
      have := (List.append_inj' hlines rfl).2
      simpa using this
    simp [this, hm]
  · rw [List.concat_eq_append, ← List.cons_append, ← List.append_assoc] at hlines
    have hinit := (List.append_inj' hlines rfl).1
    have : l ∈ ls := by
      rw [← hinit]
      simp
    simp [hls l this]

/-- Lines start where the lines stand one behind the other. -/
theorem lineStarts_eq (s : Source) :
    s.lineStarts = (SourceLine.listFrom 0 s.lines).map SourceLine.offset := by
  obtain ⟨ls, l, hlines, hl, hls⟩ := s.exists_last
  have hcut := isCut_of_mem_lines (s := s)
  rw [lineStarts, ← s.join_lines, hlines]
  rw [hlines] at hcut
  generalize 0 = o
  clear hlines
  induction ls generalizing o with
  | nil =>
    have hlast := (hcut l List.mem_cons_self).content
    simp [SourceLine.listFrom, Line.full, hl, startsFrom_of_not_mem hlast]
  | cons m ls ih =>
    rw [List.forall_mem_cons] at hls
    rw [List.cons_append, List.forall_mem_cons] at hcut
    rw [List.cons_append, Line.join_cons, startsFrom_full hcut.1 hls.1, SourceLine.listFrom,
      List.map_cons, ih hls.2 hcut.2]

/-- The offset at which the next line starts; behind the last line it is the end of the source. -/
def nextStart (s : Source) (index : Nat) : Nat := (s.lineStarts[index + 1]?).getD s.width

/-- The bounds of the line that an offset is on, found by a search for the next line feed: the offset
behind the content of the line, and the offset behind its line break. -/
def lineBounds (s : Source) (offset : Nat) : Nat × Nat :=
  match s.text.dropBytes? offset with
  | none => (s.width, s.width)
  | some rest =>
    let ahead := rest.takeWhile (· != '\n')
    match rest.dropWhile (· != '\n') with
    | [] => (s.width, s.width)
    | _ :: _ =>
      let content := if ahead.getLast? = some '\r' then ahead.dropLast else ahead
      (offset + Text.width content, offset + Text.width ahead + 1)

section Bounds

variable {above below : List Line} {p q : Text}

theorem takeWhile_line (h : '\n' ∉ t) (u : Text) :
    (t ++ '\n' :: u).takeWhile (· != '\n') = t ∧
      (t ++ '\n' :: u).dropWhile (· != '\n') = '\n' :: u := by
  have hall := Text.bne_of_not_mem h
  constructor
  · rw [List.takeWhile_append_of_pos hall]
    simp
  · rw [List.dropWhile_append_of_pos hall]
    simp

/-- A search from the start of a line, or of the rest of one, finds the ends of the line. -/
theorem lineBounds_eq (h : l.IsCut) (hs : s.text = t ++ l.full ++ u) (hu : l.ending = [] → u = []) :
    s.lineBounds (Text.width t) = (Text.width t + Text.width l.content, Text.width t + l.width) := by
  have hdrop : s.text.dropBytes? (Text.width t) = some (l.full ++ u) :=
    Text.dropBytes?_eq_some_iff.2 ⟨t, by rw [hs, List.append_assoc], rfl⟩
  unfold lineBounds
  rw [hdrop]
  dsimp only
  rcases h.ending with he | he | he
  · have hnone : (l.full ++ u).dropWhile (· != '\n') = [] := by
      rw [hu he, List.append_nil, Line.full, he, List.append_nil]
      exact List.dropWhile_eq_nil_iff.2 (Text.bne_of_not_mem h.content)
    have hend : s.width = Text.width t + Text.width l.content := by
      rw [width, hs, hu he, List.append_nil, Text.width_append, Line.full, he, List.append_nil]
    rw [hnone, l.width_eq, he, hend]
    rfl
  · have hline : l.full ++ u = l.content ++ '\n' :: u := by
      rw [Line.full, he]
      simp
    obtain ⟨htake, hdropped⟩ := takeWhile_line h.content u
    rw [hline, htake, hdropped]
    dsimp only
    rw [if_neg (h.bare he), l.width_eq, he]
    rfl
  · have hline : l.full ++ u = (l.content ++ ['\r']) ++ '\n' :: u := by
      rw [Line.full, he]
      simp
    have hno : '\n' ∉ l.content ++ ['\r'] := by
      simpa using h.content
    obtain ⟨htake, hdropped⟩ := takeWhile_line hno u
    rw [hline, htake, hdropped]
    dsimp only
    rw [if_pos List.getLast?_concat, List.dropLast_concat, l.width_eq, he, Text.width_append,
      Nat.add_assoc]
    rfl

/-- The line that follows some lines starts where they end. -/
theorem getElem?_lines (h : s.lines = above ++ l :: below) :
    (SourceLine.listFrom 0 s.lines)[above.length]? =
      some ⟨Text.width (Line.join above), l⟩ := by
  have hlength (o : Nat) (ls : List Line) : (SourceLine.listFrom o ls).length = ls.length := by
    rw [← List.length_map SourceLine.line, SourceLine.map_line_listFrom]
  rw [h, SourceLine.listFrom_append, Nat.zero_add,
    List.getElem?_append_right (Nat.le_of_eq (hlength 0 above)), hlength, Nat.sub_self]
  rfl

theorem lineStarts_getElem? (h : s.lines = above ++ l :: below) :
    s.lineStarts[above.length]? = some (Text.width (Line.join above)) := by
  rw [lineStarts_eq, List.getElem?_map, getElem?_lines h]
  rfl

theorem lineCount_eq (s : Source) : s.lineCount = s.lines.length := by
  rw [lineCount, lineStarts_eq, List.length_map, ← List.length_map SourceLine.line,
    SourceLine.map_line_listFrom]

theorem text_eq (h : s.lines = above ++ l :: below) :
    s.text = Line.join above ++ l.full ++ Line.join below := by
  rw [← s.join_lines, h, Line.join_append, Line.join_cons, List.append_assoc]

theorem nextStart_eq (h : s.lines = above ++ l :: below) :
    s.nextStart above.length = Text.width (Line.join above) + l.width := by
  have hjoin : Text.width (Line.join (above ++ [l])) =
      Text.width (Line.join above) + l.width := by
    simp [Line.join_append, Line.width]
  unfold nextStart
  cases below with
  | nil =>
    have hnone : s.lineStarts[above.length + 1]? = none := by
      rw [List.getElem?_eq_none_iff, ← lineCount, lineCount_eq, h]
      simp
    rw [hnone, Option.getD_none, width, text_eq h]
    simp [Line.width]
  | cons m ms =>
    have hnext : s.lines = (above ++ [l]) ++ m :: ms := by simpa using h
    have hstart := lineStarts_getElem? hnext
    rw [List.length_append, List.length_singleton, hjoin] at hstart
    rw [hstart, Option.getD_some]

end Bounds

/-- An offset at which the source can be cut between two characters. -/
def IsBoundary (s : Source) (o : Nat) : Prop := ∃ t u, s.text = t ++ u ∧ Text.width t = o

/-- The line with an index, by the table of line starts and by searches. -/
structure LineAt (s : Source) (index : Nat) (l : Line) (span : Span) : Prop where
  table : s.line? index = some span
  /-- The searches from line to line, from the start of the source on, come to the line. -/
  start : span.start = (fun o => (s.lineBounds o).2)^[index] 0
  /-- A search from anywhere on the content finds the end of the line. -/
  bounds : ∀ o, s.IsBoundary o → span.start ≤ o → o ≤ span.stop →
    s.lineBounds o = (span.stop, s.nextStart index)
  content : s.slice? span = some l.content
  ending : s.slice? (.between span.stop (s.nextStart index)) = some l.ending
  lineBreak : l.ending = ['\n'] ∨ l.ending = ['\r', '\n'] ∨ l.ending = [] ∧ index + 1 = s.lineCount
  /-- The reader reads the line, unless it has not even a line break. -/
  read : l.full ≠ [] → (SourceLine.ofText s.text)[index]? = some ⟨span.start, l⟩

section Agreement

variable {above below : List Line}

/-- A line without a line break has no lines below it. -/
theorem join_below (h : s.lines = above ++ l :: below) (he : l.ending = []) :
    Line.join below = [] := by
  rw [(below_eq_nil h).1 he, Line.join_nil]

/-- The search from a line goes on to the next. -/
theorem iterate_lineBounds (h : s.lines = above ++ below) :
    (fun o => (s.lineBounds o).2)^[above.length] 0 = Text.width (Line.join above) := by
  induction above using List.reverseRecOn generalizing below with
  | nil => rfl
  | append_singleton ls m ih =>
    have hm : s.lines = ls ++ m :: below := by simpa using h
    have hcut : m.IsCut := isCut_of_mem_lines m (by rw [hm]; simp)
    rw [List.length_append, List.length_singleton, Function.iterate_succ_apply', ih hm,
      lineBounds_eq hcut (text_eq hm) (join_below hm), Line.join_append, Text.width_append]
    simp [Line.width]

/-- The reader reads every line but an empty last one. -/
theorem getElem?_ofText (h : s.lines = above ++ l :: below) (hl : l.full ≠ []) :
    (SourceLine.ofText s.text)[above.length]? = some ⟨Text.width (Line.join above), l⟩ := by
  have hfound := getElem?_lines h
  unfold lines at hfound
  split at hfound
  · exact hfound
  · rw [SourceLine.listFrom_append, List.getElem?_append] at hfound
    split at hfound
    · exact hfound
    · -- the line would be the one behind the last line break
      have hmem := List.mem_of_getElem? hfound
      rw [SourceLine.listFrom, SourceLine.listFrom, List.mem_singleton] at hmem
      exact absurd (congrArg (Line.full ∘ SourceLine.line) hmem) hl

/-- The line that follows some lines, by the table and by searches. -/
theorem lineAt_of_lines (h : s.lines = above ++ l :: below) :
    s.LineAt above.length l
      (.ofWidth (Text.width (Line.join above)) (Text.width l.content)) := by
  have hcut : l.IsCut := isCut_of_mem_lines l (by rw [h]; simp)
  have hnext := nextStart_eq h
  have htext := text_eq h
  constructor
  case table =>
    have hslice : s.slice? (.between (Text.width (Line.join above)) (s.nextStart above.length)) =
        some l.full := by
      rw [hnext, Span.between_add]
      exact slice?_eq_some_iff.2 ⟨_, _, htext, rfl, (Span.width_ofWidth _ _).symm⟩
    rw [line?, lineStarts_getElem? h]
    change (do
      let line ← s.slice? (.between _ (s.nextStart above.length))
      some (Span.ofWidth _ (contentWidth line))) = _
    rw [hslice]
    exact congrArg (fun w => some (Span.ofWidth _ w)) hcut.contentWidth
  case start => exact (iterate_lineBounds h).symm
  case bounds =>
    rintro o ⟨p, q, hpq, rfl⟩ hstart hstop
    have hsplit : Line.join above ++ (l.content ++ (l.ending ++ Line.join below)) = p ++ q := by
      rw [← hpq, htext, Line.full]
      simp
    obtain ⟨u, rfl, hu⟩ := Text.append_of_width_le hsplit hstart
    rw [Text.width_append, Span.stop_ofWidth, Nat.add_le_add_iff_left] at hstop
    obtain ⟨v, hc, rfl⟩ := Text.append_of_width_le hu.symm hstop
    -- the rest of the line, from the offset on
    have hrest : s.text = (Line.join above ++ u) ++ Line.full ⟨v, l.ending⟩ ++ Line.join below := by
      rw [hpq, Line.full]
      simp
    rw [lineBounds_eq (hcut.rest hc) hrest fun he => join_below h he, hnext, l.width_eq, hc, Line.width,
      Line.full, Span.stop_ofWidth]
    simp [Nat.add_assoc]
  case content =>
    refine slice?_eq_some_iff.2 ⟨Line.join above, l.ending ++ Line.join below, ?_, rfl,
      (Span.width_ofWidth _ _).symm⟩
    rw [htext, Line.full]
    simp
  case ending =>
    rw [hnext, Span.stop_ofWidth, l.width_eq, ← Nat.add_assoc, Span.between_add]
    refine slice?_eq_some_iff.2 ⟨Line.join above ++ l.content, Line.join below, ?_,
      Text.width_append _ _, (Span.width_ofWidth _ _).symm⟩
    rw [htext, Line.full]
    simp
  case lineBreak =>
    rcases hcut.ending with he | he | he
    · refine .inr (.inr ⟨he, ?_⟩)
      rw [lineCount_eq, h, (below_eq_nil h).1 he]
      simp
    · exact .inl he
    · exact .inr (.inl he)
  case read => exact getElem?_ofText h

end Agreement

/-- The table of line starts and the searches find the same lines. There is one for each index below
the number of lines, and the contents of all lines, each with its line break, make up the source. -/
theorem lines_agree (s : Source) :
    ∃ ls : List Line, ls.length = s.lineCount ∧ Line.join ls = s.text ∧
      ∀ (i : Nat) (h : i < ls.length), ∃ span, s.LineAt i ls[i] span := by
  refine ⟨s.lines, s.lineCount_eq.symm, s.join_lines, fun i h => ?_⟩
  have hsplit : s.lines = s.lines.take i ++ s.lines[i] :: s.lines.drop (i + 1) := by
    rw [← List.drop_eq_getElem_cons h, List.take_append_drop]
  have hline := lineAt_of_lines hsplit
  rw [List.length_take_of_le (Nat.le_of_lt h)] at hline
  exact ⟨_, hline⟩

/-- A carriage return belongs to the line break only if it stands directly in front of a line feed. -/
example :
    let s : Source := ⟨"a\r\r\n\r\n\r".toList⟩
    s.lines.map (·.content) = [['a', '\r'], [], ['\r']] ∧
      [0, 1, 2, 3].map s.lineBounds = [(2, 4), (2, 4), (2, 4), (3, 4)] := by decide

end Source

end GherkinTree
