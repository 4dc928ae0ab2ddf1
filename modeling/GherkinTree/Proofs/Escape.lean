import GherkinTree.Proofs.Argument
import GherkinTree.Proofs.Decoding
import GherkinTree.Proofs.Insertion

/-!
Rows of a table written from values. An escaped value holds no line feed and no bar that ends a
cell, and its ends are no blanks unless those of the value are, so the scanners agree on where each
cell ends. Main statements: the text of a cell stands for the value that it is written from, and a row
written from values is cut into cells with their escaped values as texts.
-/

namespace GherkinTree

namespace Cell

/-- The number of backslashes at the end of a text. -/
def backslashesAtEnd (t : Text) : Nat := (t.reverse.takeWhile (· == '\\')).length

theorem backslashesAtEnd_le (t : Text) : backslashesAtEnd t ≤ t.length := by
  have h := (t.reverse.takeWhile_prefix (· == '\\')).length_le
  rwa [List.length_reverse] at h

/-- A character counts only if nothing but backslashes follows it. -/
theorem backslashesAtEnd_cons (c : Char) (t : Text) :
    backslashesAtEnd (c :: t) =
      if backslashesAtEnd t = t.length then t.length + (if c = '\\' then 1 else 0)
      else backslashesAtEnd t := by
  unfold backslashesAtEnd
  rw [List.reverse_cons, List.takeWhile_append, List.length_reverse]
  split
  · by_cases hc : c = '\\' <;> simp [hc]
  · rfl

theorem backslashesAtEnd_cons_of_ne {c : Char} (hc : c ≠ '\\') (t : Text) :
    backslashesAtEnd (c :: t) = backslashesAtEnd t := by
  rw [backslashesAtEnd_cons, if_neg hc, Nat.add_zero]
  split
  · exact Eq.symm (by assumption)
  · rfl

/-- A pair that a backslash opens leaves the parity. -/
theorem backslashesAtEnd_pair (d : Char) (t : Text) :
    backslashesAtEnd ('\\' :: d :: t) % 2 = backslashesAtEnd t % 2 := by
  have hle := backslashesAtEnd_le t
  rw [backslashesAtEnd_cons, backslashesAtEnd_cons, List.length_cons]
  by_cases hall : backslashesAtEnd t = t.length
  · by_cases hd : d = '\\'
    · simp only [hall, hd, if_true]
      omega
    · simp [hall, hd]
  · rw [if_neg hall, if_neg (by omega)]

/-- A character is escaped by a pair that stands for it, or stays as it is. -/
theorem escape_cons_cases (c : Char) :
    (∃ d, (∀ v, escape (c :: v) = '\\' :: d :: escape v) ∧ (d = '\\' ∨ d = '|' ∨ d = 'n') ∧
        ∀ t, unescape ('\\' :: d :: t) = c :: unescape t) ∨
      ((∀ v, escape (c :: v) = c :: escape v) ∧ c ≠ '\\' ∧ c ≠ '|' ∧ c ≠ '\n') := by
  by_cases hs : c = '\\'
  · exact .inl ⟨'\\', by simp [escape, hs], .inl rfl, by simp [unescape, hs]⟩
  · by_cases hb : c = '|'
    · exact .inl ⟨'|', by simp [escape, hb], .inr (.inl rfl), by simp [unescape, hb]⟩
    · by_cases hn : c = '\n'
      · exact .inl ⟨'n', by simp [escape, hn], .inr (.inr rfl), by simp [unescape, hn]⟩
      · exact .inr ⟨by simp [escape, hs, hb, hn], hs, hb, hn⟩

theorem unescape_cons_of_ne {c : Char} (hc : c ≠ '\\') (t : Text) :
    unescape (c :: t) = c :: unescape t := by
  cases t with
  | nil => rfl
  | cons d t => rw [unescape, if_neg hc]

/-- The text of a cell stands for the value that it is written from. -/
theorem unescape_escape (v : Text) : unescape (escape v) = v := by
  induction v with
  | nil => rfl
  | cons c v ih =>
    rcases escape_cons_cases c with ⟨d, he, -, hd⟩ | ⟨he, hs, -, -⟩
    · rw [he, hd, ih]
    · rw [he, unescape_cons_of_ne hs, ih]

theorem newline_not_mem_escape (v : Text) : '\n' ∉ escape v := by
  induction v with
  | nil => exact List.not_mem_nil
  | cons c v ih =>
    rcases escape_cons_cases c with ⟨d, he, hd, -⟩ | ⟨he, -, -, hn⟩
    · rw [he]
      rcases hd with rfl | rfl | rfl <;> simpa using ih
    · rw [he]
      simpa [Ne.symm hn] using ih

/-- In front of each bar of an escaped value stands an odd number of backslashes. -/
theorem odd_backslashes_of_escape {v p s : Text} (h : escape v = p ++ '|' :: s) :
    backslashesAtEnd p % 2 = 1 := by
  induction v generalizing p with
  | nil => simp [escape] at h
  | cons c v ih =>
    rcases escape_cons_cases c with ⟨d, he, -, -⟩ | ⟨he, hs, hb, -⟩
    · rw [he] at h
      match p with
      | [] => simp at h
      | [x] =>
        obtain ⟨hx, -⟩ := List.cons.inj h
        rw [← hx]
        rfl
      | x :: y :: p =>
        obtain ⟨hx, h⟩ := List.cons.inj h
        rw [← hx, backslashesAtEnd_pair]
        exact ih (List.cons.inj h).2
    · rw [he] at h
      match p with
      | [] => exact absurd (List.cons.inj h).1 hb
      | x :: p =>
        obtain ⟨hx, h⟩ := List.cons.inj h
        rw [← hx, backslashesAtEnd_cons_of_ne hs]
        exact ih h

theorem cutBar_cons {c : Char} (hb : c ≠ '|') (hs : c ≠ '\\') (t : Text) :
    cutBar (c :: t) = (c :: (cutBar t).1, (cutBar t).2) := by
  cases t with
  | nil => simp [cutBar, hb]
  | cons d t => simp [cutBar, hb, hs]

theorem cutBar_pair (d : Char) (t : Text) :
    cutBar ('\\' :: d :: t) = ('\\' :: d :: (cutBar t).1, (cutBar t).2) := by simp [cutBar]

theorem cutBar_bar (t : Text) : cutBar ('|' :: t) = ([], '|' :: t) := by
  cases t <;> simp [cutBar]

/-- The search for the end of a cell passes over an escaped value. -/
theorem cutBar_escape (v t : Text) :
    cutBar (escape v ++ t) = (escape v ++ (cutBar t).1, (cutBar t).2) := by
  induction v with
  | nil => rfl
  | cons c v ih =>
    rcases escape_cons_cases c with ⟨d, he, -, -⟩ | ⟨he, hs, hb, -⟩
    · rw [he, List.cons_append, List.cons_append, cutBar_pair, ih]
      rfl
    · rw [he, List.cons_append, cutBar_cons hb hs, ih]
      rfl

/-- The search for the end of a cell passes over blanks. -/
theorem cutBar_blanks {b : Text} (h : ∀ c ∈ b, Text.isBlank c = true) (t : Text) :
    cutBar (b ++ t) = (b ++ (cutBar t).1, (cutBar t).2) := by
  induction b with
  | nil => rfl
  | cons c b ih =>
    rw [List.forall_mem_cons] at h
    have hb : c ≠ '|' := by
      rintro rfl
      exact absurd h.1 (by decide)
    have hs : c ≠ '\\' := by
      rintro rfl
      exact absurd h.1 (by decide)
    rw [List.cons_append, cutBar_cons hb hs, ih h.2]
    rfl

theorem escape_append (v w : Text) : escape (v ++ w) = escape v ++ escape w := by
  induction v with
  | nil => rfl
  | cons c v ih =>
    rcases escape_cons_cases c with ⟨d, he, -⟩ | ⟨he, -⟩
    · rw [List.cons_append, he, he, ih]
      rfl
    · rw [List.cons_append, he, he, ih]
      rfl

/-- What is written for a character begins and ends with no blank, unless the character is one and
no line feed. -/
theorem ends_escape_singleton {c : Char} (h : Text.isBlank c = true → c = '\n') :
    ∃ x y, (escape [c]).head? = some x ∧ (escape [c]).getLast? = some y ∧
      Text.isBlank x = false ∧ Text.isBlank y = false := by
  rcases escape_cons_cases c with ⟨d, he, hd, -⟩ | ⟨he, -, -, hn⟩
  · refine ⟨'\\', d, by rw [he]; rfl, by rw [he]; rfl, by decide, ?_⟩
    rcases hd with rfl | rfl | rfl <;> decide
  · have hc : Text.isBlank c = false := by simpa using fun hb => hn (h hb)
    exact ⟨c, c, by rw [he]; rfl, by rw [he]; rfl, hc, hc⟩

theorem ends_escape {v : Text} (hv : v ≠ [])
    (h : ∀ c, v.head? = some c ∨ v.getLast? = some c → Text.isBlank c = true → c = '\n') :
    ∃ x y, (escape v).head? = some x ∧ (escape v).getLast? = some y ∧
      Text.isBlank x = false ∧ Text.isBlank y = false := by
  have hfirst : ∃ x, (escape v).head? = some x ∧ Text.isBlank x = false := by
    cases v with
    | nil => exact absurd rfl hv
    | cons c u =>
      obtain ⟨x, -, hx, -, hblank, -⟩ := ends_escape_singleton (h c (.inl rfl))
      have happ := escape_append [c] u
      rw [List.singleton_append] at happ
      exact ⟨x, by rw [happ, List.head?_append, hx, Option.some_or], hblank⟩
  have hlast : ∃ y, (escape v).getLast? = some y ∧ Text.isBlank y = false := by
    rcases List.eq_nil_or_concat v with rfl | ⟨u, c, rfl⟩
    · exact absurd rfl hv
    · rw [List.concat_eq_append] at h ⊢
      obtain ⟨-, y, -, hy, -, hblank⟩ := ends_escape_singleton (h c (.inr List.getLast?_concat))
      exact ⟨y, by rw [escape_append, List.getLast?_append, hy, Option.some_or], hblank⟩
  obtain ⟨x, hx, hxb⟩ := hfirst
  obtain ⟨y, hy, hyb⟩ := hlast
  exact ⟨x, y, hx, hy, hxb, hyb⟩

end Cell

/-- A value whose ends are no blanks but perhaps line feeds, with blanks around it. -/
structure WrittenCell where
  before : Text
  value : Text
  after : Text
  blanks : ∀ c ∈ before ++ after, Text.isBlank c = true ∧ c ≠ '\n'
  ends : ∀ c, value.head? = some c ∨ value.getLast? = some c → Text.isBlank c = true → c = '\n'

namespace WrittenCell

variable (c : WrittenCell)

/-- The value as it is written between two bars. -/
def text : Text := c.before ++ Cell.escape c.value ++ c.after

/-- The cell that the text is read as. -/
def cell : Cell :=
  if c.value = [] then ⟨c.before ++ c.after, [], []⟩ else ⟨c.before, Cell.escape c.value, c.after⟩

theorem raw_cell : c.cell.raw = Cell.escape c.value := by
  unfold cell
  split
  · rename_i h
    rw [h]
    rfl
  · rfl

theorem blank_before : ∀ x ∈ c.before, Text.isBlank x = true :=
  fun x hx => (c.blanks x (List.mem_append_left _ hx)).1

theorem blank_after : ∀ x ∈ c.after, Text.isBlank x = true :=
  fun x hx => (c.blanks x (List.mem_append_right _ hx)).1

theorem newline_not_mem_text : '\n' ∉ c.text := by
  intro h
  simp only [text, List.mem_append] at h
  rcases h with (h | h) | h
  · exact (c.blanks _ (List.mem_append_left _ h)).2 rfl
  · exact Cell.newline_not_mem_escape _ h
  · exact (c.blanks _ (List.mem_append_right _ h)).2 rfl

end WrittenCell

namespace Text

/-- Blanks in front of a text that begins with none. -/
theorem cut_blanks {b t : Text} {x : Char} (hb : ∀ c ∈ b, isBlank c = true)
    (ht : t.head? = some x) (hx : isBlank x = false) :
    leadingBlanks (b ++ t) = b ∧ trimStart (b ++ t) = t := by
  obtain ⟨u, rfl⟩ := List.head?_eq_some_iff.1 ht
  have hstart : trimStart (b ++ x :: u) = x :: u := by
    rw [trimStart_append_of_blank hb, trimStart_cons_of_not_blank hx]
  refine ⟨?_, hstart⟩
  have happ := leadingBlanks_append_trimStart (b ++ x :: u)
  rw [hstart] at happ
  exact List.append_cancel_right happ

/-- Blanks behind a text that ends with none. -/
theorem cut_blanks_behind {b t : Text} {x : Char} (hb : ∀ c ∈ b, isBlank c = true)
    (ht : t.getLast? = some x) (hx : isBlank x = false) :
    trimEnd (t ++ b) = t ∧ trailingBlanks (t ++ b) = b := by
  obtain ⟨u, rfl⟩ := List.getLast?_eq_some_iff.1 ht
  have hend : trimEnd (u ++ [x] ++ b) = u ++ [x] := by
    rw [trimEnd_append_of_blank hb, trimEnd_concat hx]
  refine ⟨hend, ?_⟩
  have happ := trimEnd_append_trailingBlanks (u ++ [x] ++ b)
  rw [hend] at happ
  exact List.append_cancel_left happ

end Text

namespace Row

/-- A bar ends the first cell of what is left of a row. -/
theorem split_of_cutBar {t raw r : Text} (h : Cell.cutBar (Text.trimStart t) = (raw, '|' :: r)) :
    split t = ⟨⟨Text.leadingBlanks t, Text.trimEnd raw, Text.trailingBlanks raw⟩ :: (split r).cells,
      (split r).closed, (split r).rest⟩ := by
  have hne : (Text.trimStart t).isEmpty = false := by
    cases ht : Text.trimStart t with
    | nil =>
      rw [ht] at h
      cases h
    | cons x u => rfl
  rw [split, if_neg (by simp [hne])]
  split
  · rename_i hc
    rw [h] at hc
    cases hc
  · rename_i hc
    rw [h] at hc
    cases hc
    rw [h]

end Row

namespace WrittenCell

/-- A value with a bar behind it is cut off as a cell. -/
theorem split_append (c : WrittenCell) (r : Text) :
    Row.split (c.text ++ '|' :: r) =
      ⟨c.cell :: (Row.split r).cells, (Row.split r).closed, (Row.split r).rest⟩ := by
  by_cases hv : c.value = []
  · -- an empty value has all blanks in front of it
    have htext : c.text ++ '|' :: r = (c.before ++ c.after) ++ '|' :: r := by
      simp [text, hv, Cell.escape]
    obtain ⟨hlead, hstart⟩ := Text.cut_blanks (x := '|') (t := '|' :: r)
      (fun x hx => (c.blanks x hx).1) rfl (by decide)
    rw [htext, Row.split_of_cutBar (by rw [hstart]; exact Cell.cutBar_bar r), hlead]
    simp [cell, hv, Text.trailingBlanks, Text.cutEnd]
  · obtain ⟨x, y, hx, hy, hxb, hyb⟩ := Cell.ends_escape hv c.ends
    have htext : c.text ++ '|' :: r =
        c.before ++ (Cell.escape c.value ++ (c.after ++ '|' :: r)) := by simp [text]
    obtain ⟨hlead, hstart⟩ := Text.cut_blanks (t := Cell.escape c.value ++ (c.after ++ '|' :: r))
      c.blank_before (by rw [List.head?_append, hx, Option.some_or]) hxb
    obtain ⟨htrim, htrail⟩ := Text.cut_blanks_behind c.blank_after hy hyb
    have hcut : Cell.cutBar (Cell.escape c.value ++ (c.after ++ '|' :: r)) =
        (Cell.escape c.value ++ c.after, '|' :: r) := by
      rw [Cell.cutBar_escape, Cell.cutBar_blanks c.blank_after, Cell.cutBar_bar, List.append_nil]
    rw [htext, Row.split_of_cutBar (by rw [hstart]; exact hcut), hlead, htrim, htrail, cell,
      if_neg hv]

end WrittenCell

/-- A line with a bar in front of the first value and one behind each. -/
structure WrittenRow where
  indent : Text
  cells : List WrittenCell
  ending : Text
  blanks : ∀ c ∈ indent, Text.isBlank c = true ∧ c ≠ '\n'

namespace WrittenRow

variable (r : WrittenRow)

def values : List Text := r.cells.map WrittenCell.value

/-- What is written behind the first bar. -/
def behindBar : Text := r.cells.flatMap fun c => c.text ++ ['|']

def line : Line := ⟨r.indent ++ '|' :: r.behindBar, r.ending⟩

def text : Text := r.line.full

/-- The row that the line is read as. -/
def row : Row := ⟨r.cells.map WrittenCell.cell, true, []⟩

/-- The scanner cuts a written row where it has been put together. -/
theorem split_behindBar : Row.split r.behindBar = r.row := by
  unfold behindBar row
  induction r.cells with
  | nil =>
    rw [Row.split]
    rfl
  | cons c cs ih =>
    rw [List.flatMap_cons, List.append_assoc, List.singleton_append, c.split_append, ih,
      List.map_cons]

theorem newline_not_mem_content : '\n' ∉ r.line.content := by
  intro h
  simp only [line, behindBar, List.mem_append, List.mem_cons, List.mem_flatMap] at h
  rcases h with h | h | ⟨c, -, h | h⟩
  · exact (r.blanks _ h).2 rfl
  · cases h
  · exact c.newline_not_mem_text h
  · simp at h

theorem getLast?_content : r.line.content.getLast? = some '|' := by
  unfold line behindBar
  rcases List.eq_nil_or_concat r.cells with h | ⟨cs, c, h⟩
  · simp [h]
  · have hcut : r.indent ++ '|' :: (cs ++ [c]).flatMap (fun c => c.text ++ ['|']) =
        r.indent ++ '|' :: (cs.flatMap (fun c => c.text ++ ['|']) ++ c.text) ++ ['|'] := by simp
    rw [h, List.concat_eq_append, hcut, List.getLast?_concat]

theorem content_ne_nil : r.line.content ≠ [] := by
  intro h
  have hlast := r.getLast?_content
  rw [h] at hlast
  cases hlast

/-- The line begins with a bar behind its indentation. -/
theorem trimStart_content : Text.trimStart r.line.content = '|' :: r.behindBar :=
  (Text.cut_blanks (fun c hc => (r.blanks c hc).1) (t := '|' :: r.behindBar) rfl (by decide)).2

end WrittenRow

namespace Line

/-- A text without line feeds is one line with the line break behind it, or with the end of the text
if that is what follows. -/
theorem split_content {t e u : Text} (hn : '\n' ∉ t) (hr : t.getLast? ≠ some '\r')
    (he : e = ['\n'] ∨ e = ['\r', '\n'] ∨ (e = [] ∧ u = [] ∧ t ≠ [])) :
    split (t ++ (e ++ u)) = ⟨t, e⟩ :: split u := by
  induction t with
  | nil =>
    rcases he with rfl | rfl | ⟨-, -, h⟩
    · rfl
    · rfl
    · exact absurd rfl h
  | cons c t ih =>
    rw [List.mem_cons, not_or] at hn
    rw [List.cons_append, split_cons (Ne.symm hn.1)]
    · by_cases ht : t = []
      · subst ht
        rcases he with rfl | rfl | ⟨rfl, rfl, -⟩ <;> rfl
      · have hlast : t.getLast? ≠ some '\r' := by
          rwa [List.getLast?_cons_of_ne_nil ht] at hr
        rw [ih hn.2 hlast (he.imp_right (.imp_right fun h => ⟨h.1, h.2.1, ht⟩))]
    · -- a carriage return is not the last character in front of the line break
      rintro rfl hnext
      cases t with
      | nil => exact hr rfl
      | cons x t =>
        obtain rfl : x = '\n' := Option.some.inj hnext
        exact hn.2 List.mem_cons_self

end Line

end GherkinTree
