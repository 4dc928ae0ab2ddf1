import GherkinTree.Proofs.Decoding
import GherkinTree.Proofs.Insertion
import GherkinTree.Proofs.Line

/-!
Line feeds written with a carriage return in front of each. The lines stay the same but for their
ends, and so does every kind that is read off them; an offset moves by the number of line feeds
before it, so offsets keep their order. Main statements: the lines of the new text, the preamble
read from them, and where a place between or inside of lines moves to.
-/

namespace GherkinTree

namespace Text

/-- The text with a carriage return in front of every line feed. -/
def crlf (t : Text) : Text := t.flatMap fun c => if c = '\n' then ['\r', '\n'] else [c]

/-- The number of line feeds that begin before an offset. -/
def feedsBefore : Text → Nat → Nat
  | _, 0 => 0
  | [], _ + 1 => 0
  | c :: t, n + 1 => (if c = '\n' then 1 else 0) + feedsBefore t (n + 1 - c.utf8Size)

/-- Where an offset of the text goes if a carriage return is put in front of every line feed. -/
def moved (t : Text) (offset : Nat) : Nat := offset + feedsBefore t offset

@[simp] theorem crlf_nil : crlf [] = [] := rfl
@[simp] theorem crlf_feed (t : Text) : crlf ('\n' :: t) = '\r' :: '\n' :: crlf t := rfl
theorem crlf_cons {c : Char} (h : c ≠ '\n') (t : Text) : crlf (c :: t) = c :: crlf t := by
  simp [crlf, h]
@[simp] theorem crlf_append (a b : Text) : crlf (a ++ b) = crlf a ++ crlf b := List.flatMap_append

theorem crlf_of_not_mem {t : Text} (h : '\n' ∉ t) : crlf t = t := by
  induction t with
  | nil => rfl
  | cons c t ih =>
    obtain ⟨hc, ht⟩ := List.ne_and_not_mem_of_not_mem_cons h
    rw [crlf_cons hc.symm, ih ht]

@[simp] theorem crlf_eq_nil_iff {t : Text} : crlf t = [] ↔ t = [] := by
  cases t with
  | nil => simp
  | cons c t =>
    by_cases h : c = '\n'
    · simp [h]
    · simp [crlf_cons h]

@[simp] theorem isEmpty_crlf (t : Text) : (crlf t).isEmpty = t.isEmpty := by
  rw [Bool.eq_iff_iff]
  simp

theorem head?_crlf_ne (t : Text) : (crlf t).head? ≠ some '\n' := by
  cases t with
  | nil => simp
  | cons c t =>
    by_cases h : c = '\n'
    · simp [h]
    · simp [crlf_cons h, h]

/-- Texts that are written in the new way alike are alike. -/
theorem crlf_inj {a b : Text} : crlf a = crlf b ↔ a = b := by
  refine ⟨fun h => ?_, congrArg crlf⟩
  -- no text written in the new way begins with a line feed, so a carriage return in front of one
  -- has been put there
  have hfeed {c : Char} {s t : Text} (hc : c ≠ '\n') :
      '\r' :: '\n' :: crlf s ≠ c :: crlf t := by
    intro he
    refine head?_crlf_ne t ?_
    rw [← (List.cons.inj he).2, List.head?_cons]
  induction a generalizing b with
  | nil => exact (crlf_eq_nil_iff.1 h.symm).symm
  | cons c a ih =>
    cases b with
    | nil => exact crlf_eq_nil_iff.1 h
    | cons e b =>
      by_cases hc : c = '\n'
      · by_cases he : e = '\n'
        · subst hc he
          simp only [crlf_feed, List.cons.injEq, true_and] at h
          rw [ih h]
        · rw [hc, crlf_feed, crlf_cons he] at h
          exact absurd h (hfeed he)
      · by_cases he : e = '\n'
        · rw [he, crlf_feed, crlf_cons hc] at h
          exact absurd h.symm (hfeed hc)
        · rw [crlf_cons hc, crlf_cons he] at h
          obtain ⟨rfl, htail⟩ := List.cons.inj h
          rw [ih htail]

section Moved

theorem feedsBefore_append (a b : Text) (k : Nat) :
    feedsBefore (a ++ b) (width a + k) = a.count '\n' + feedsBefore b k := by
  induction a with
  | nil => simp
  | cons c a ih =>
    have hpos := c.utf8Size_pos
    obtain ⟨n, hn⟩ : ∃ n, width (c :: a) + k = n + 1 := ⟨width (c :: a) + k - 1, by
      rw [width_cons]
      omega⟩
    have hrest : n + 1 - c.utf8Size = width a + k := by
      rw [width_cons] at hn
      omega
    rw [hn, List.cons_append, feedsBefore, hrest, ih, List.count_cons]
    by_cases h : c = '\n'
    · simp [h]
      omega
    · simp [h]

theorem feedsBefore_of_not_mem {content : Text} (h : '\n' ∉ content) (rest : Text) {k : Nat}
    (hk : k ≤ width content) : feedsBefore (content ++ rest) k = 0 := by
  induction content generalizing k with
  | nil =>
    obtain rfl : k = 0 := Nat.le_zero.1 hk
    cases rest <;> rfl
  | cons c content ih =>
    obtain ⟨hc, hcontent⟩ := List.ne_and_not_mem_of_not_mem_cons h
    cases k with
    | zero => rfl
    | succ k =>
      rw [width_cons] at hk
      rw [List.cons_append, feedsBefore, if_neg hc.symm, ih hcontent (by omega)]

theorem width_crlf (t : Text) : width (crlf t) = width t + t.count '\n' := by
  induction t with
  | nil => rfl
  | cons c t ih =>
    by_cases h : c = '\n'
    · subst h
      have hr : ('\r' : Char).utf8Size = 1 := by decide
      simp only [crlf_feed, width_cons, ih, List.count_cons_self, hr]
      omega
    · have hcount : (c :: t).count '\n' = t.count '\n' := List.count_cons_of_ne h
      rw [crlf_cons h, width_cons, width_cons, ih, hcount, Nat.add_assoc]

@[simp] theorem moved_zero (t : Text) : moved t 0 = 0 := by cases t <;> rfl

/-- The end of a text moves to the end of the new text. -/
theorem moved_append (a b : Text) (k : Nat) :
    moved (a ++ b) (width a + k) = width (crlf a) + moved b k := by
  rw [moved, moved, feedsBefore_append, width_crlf]
  omega

theorem feedsBefore_mono (t : Text) {m n : Nat} (h : m ≤ n) :
    feedsBefore t m ≤ feedsBefore t n := by
  induction t generalizing m n with
  | nil => cases m <;> cases n <;> simp [feedsBefore]
  | cons c t ih =>
    cases m with
    | zero => exact Nat.zero_le _
    | succ m =>
      cases n with
      | zero => cases h
      | succ n => exact Nat.add_le_add_left (ih (by omega)) _

theorem moved_lt_moved (t : Text) {m n : Nat} (h : m < n) : moved t m < moved t n :=
  Nat.add_lt_add_of_lt_of_le h (feedsBefore_mono t (Nat.le_of_lt h))

theorem moved_le_moved (t : Text) {m n : Nat} (h : m ≤ n) : moved t m ≤ moved t n :=
  Nat.add_le_add h (feedsBefore_mono t h)

/-- Offsets keep their order. -/
theorem compare_moved (t : Text) (m n : Nat) : compare (moved t m) (moved t n) = compare m n := by
  rcases Nat.lt_trichotomy m n with h | rfl | h
  · rw [Nat.compare_eq_lt.2 h, Nat.compare_eq_lt.2 (moved_lt_moved t h)]
  · rw [Nat.compare_eq_eq.2 rfl, Nat.compare_eq_eq.2 rfl]
  · rw [Nat.compare_eq_gt.2 h, Nat.compare_eq_gt.2 (moved_lt_moved t h)]

end Moved

section Replace

/-- What a text begins with begins the new text if it holds no line breaks. -/
theorem after?_crlf {p : Text} (hn : '\n' ∉ p) (hr : '\r' ∉ p) (t : Text) :
    after? p (crlf t) = (after? p t).map crlf := by
  induction p generalizing t with
  | nil => rfl
  | cons c p ih =>
    obtain ⟨hcn, hpn⟩ := List.ne_and_not_mem_of_not_mem_cons hn
    obtain ⟨hcr, hpr⟩ := List.ne_and_not_mem_of_not_mem_cons hr
    cases t with
    | nil => rfl
    | cons e t =>
      by_cases he : e = '\n'
      · simp [he, after?, hcn.symm, hcr.symm]
      · by_cases h : c = e
        · simpa [crlf_cons he, after?, h] using ih hpn hpr t
        · simp [crlf_cons he, after?, h]

/-- Replacing one text by another, neither of them with line breaks, leaves the line breaks where
they are. -/
theorem replace_crlf {old new : Text} (hold : old ≠ []) (hn : '\n' ∉ old) (hr : '\r' ∉ old)
    (hnew : '\n' ∉ new) (t : Text) : replace old new (crlf t) = crlf (replace old new t) := by
  fun_induction replace old new t with
  | case1 => rw [crlf_nil, replace]
  | case2 c t r hafter hlen ih =>
    have hsplit := after?_eq_some_iff.1 hafter
    have hc : c ≠ '\n' := by
      rintro rfl
      cases old with
      | nil => exact hold rfl
      | cons x old => exact hn ((List.cons.inj hsplit).1 ▸ List.mem_cons_self)
    have hafter' := after?_crlf hn hr (c :: t)
    rw [crlf_cons hc, hafter, Option.map_some] at hafter'
    have hlen' : (crlf r).length ≤ (crlf t).length := by
      have hsplit' := congrArg List.length (after?_eq_some_iff.1 hafter')
      have hpos := List.length_pos_of_ne_nil hold
      simp only [List.length_cons, List.length_append] at hsplit'
      omega
    rw [crlf_cons hc, replace, hafter']
    simp only [hlen', if_true, ih, crlf_append, crlf_of_not_mem hnew]
  | case3 c t r hafter hlen ih =>
    have hsplit := congrArg List.length (after?_eq_some_iff.1 hafter)
    have hpos := List.length_pos_of_ne_nil hold
    simp only [List.length_cons, List.length_append] at hsplit
    omega
  | case4 c t hafter ih =>
    by_cases hc : c = '\n'
    · rw [hc, crlf_feed, crlf_feed, replace_cons_of_not_mem hr, replace_cons_of_not_mem hn, ih]
    · have hafter' := after?_crlf hn hr (c :: t)
      rw [crlf_cons hc, hafter, Option.map_none] at hafter'
      rw [crlf_cons hc, replace, hafter', crlf_cons hc]
      simp only [ih]

end Replace

end Text

/-- The span whose ends are moved. -/
def Span.moved (t : Text) (s : Span) : Span where
  start := t.moved s.start
  stop := t.moved s.stop
  ordered := t.moved_le_moved s.ordered

theorem Span.le_moved (t : Text) (a b : Span) : (a.moved t).le (b.moved t) = a.le b := by
  simp only [le, compare, moved, Text.compare_moved]

/-- The diagnostic at the moved span. -/
def Diagnostic.moved (t : Text) (d : Diagnostic) : Diagnostic := { d with span := d.span.moved t }

namespace Event

/-- The event at the place that its own is moved to. -/
def moved (t : Text) : Event → Event
  | missing offset kind => missing (t.moved offset) kind
  | skippedLine span found => skippedLine (span.moved t) found
  | skippedAfterTags span => skippedAfterTags (span.moved t)
  | selected code => selected code
  | unknownLanguage span code kept => unknownLanguage (span.moved t) code kept

theorem diagnostic?_moved (t : Text) (e : Event) :
    (e.moved t).diagnostic? = e.diagnostic?.map (Diagnostic.moved t) := by cases e <;> rfl

/-- The diagnostics keep their order. -/
theorem diagnostics_moved (t : Text) (es : List Event) :
    diagnostics (es.map (moved t)) = (diagnostics es).map (Diagnostic.moved t) := by
  have hmap : (es.map (moved t)).filterMap diagnostic? =
      (es.filterMap diagnostic?).map (Diagnostic.moved t) := by
    rw [List.filterMap_map, List.map_filterMap]
    exact congrArg (List.filterMap · es) (funext (diagnostic?_moved t))
  rw [diagnostics, hmap, Diagnostic.sortByPosition]
  exact (List.map_mergeSort fun a _ b _ => (Span.le_moved t a.span b.span).symm).symm

end Event

/-- Escapes of fences hold no line breaks. -/
theorem Fence.unescape_crlf (f : Fence) (raw : Text) :
    f.unescape (Text.crlf raw) = Text.crlf (f.unescape raw) := by
  refine Text.replace_crlf ?_ ?_ ?_ ?_ raw <;> cases f <;> decide

namespace Piece

/-- A piece of the new text: names of placeholders hold no line breaks. -/
def crlf : Piece → Piece
  | literal t => literal (Text.crlf t)
  | placeholder name => placeholder name

theorem takeWhile_isNameChar_crlf (t : Text) :
    (Text.crlf t).takeWhile isNameChar = t.takeWhile isNameChar ∧
      (Text.crlf t).dropWhile isNameChar = Text.crlf (t.dropWhile isNameChar) := by
  induction t with
  | nil => exact ⟨rfl, rfl⟩
  | cons c t ih =>
    by_cases hc : c = '\n'
    · subst hc
      exact ⟨rfl, rfl⟩
    · cases hn : isNameChar c with
      | true => simp [Text.crlf_cons hc, hn, ih.1, ih.2]
      | false => simp [Text.crlf_cons hc, hn]

theorem name?_crlf (t : Text) :
    name? (Text.crlf t) = (name? t).map fun p => (p.1, Text.crlf p.2) := by
  obtain ⟨htake, hdrop⟩ := takeWhile_isNameChar_crlf t
  rw [name?, name?, htake, hdrop]
  cases t.takeWhile isNameChar with
  | nil => rfl
  | cons c name =>
    cases t.dropWhile isNameChar with
    | nil => rfl
    | cons x rest =>
      by_cases hx : x = '\n'
      · subst hx
        rfl
      · rw [Text.crlf_cons hx]
        by_cases hg : x = '>'
        · subst hg
          rfl
        · simp [hg]

theorem cons_crlf {c : Char} (hc : c ≠ '\n') (ps : List Piece) :
    cons c (ps.map crlf) = (cons c ps).map crlf := by
  cases ps with
  | nil => simp [cons, crlf, Text.crlf_cons hc]
  | cons p ps => cases p <;> simp [cons, crlf, Text.crlf_cons hc]

theorem cons_feed_crlf (ps : List Piece) :
    cons '\r' (cons '\n' (ps.map crlf)) = (cons '\n' ps).map crlf := by
  cases ps with
  | nil => rfl
  | cons p ps => cases p <;> rfl

/-- A text is cut at the same placeholders. -/
theorem split_crlf (t : Text) : split (Text.crlf t) = (split t).map crlf := by
  have hplain {c : Char} (hc : c ≠ '<') (t : Text) : split (c :: t) = cons c (split t) := by
    rw [split, if_neg hc]
  fun_induction split t with
  | case1 => rw [Text.crlf_nil, split, List.map_nil]
  | case2 t name rest h ih =>
    have hname := name?_crlf t
    rw [h, Option.map_some] at hname
    rw [Text.crlf_cons (by decide), split, if_pos rfl]
    split
    · rename_i heq
      rw [hname] at heq
      cases heq
      rw [ih, List.map_cons, crlf]
    · rename_i heq
      rw [hname] at heq
      cases heq
  | case3 t h ih =>
    have hname := name?_crlf t
    rw [h, Option.map_none] at hname
    rw [Text.crlf_cons (by decide), split, if_pos rfl]
    split
    · rename_i heq
      rw [hname] at heq
      cases heq
    · rw [ih, cons_crlf (by decide)]
  | case4 c t hc ih =>
    by_cases hn : c = '\n'
    · subst hn
      rw [Text.crlf_feed, hplain (by decide), hplain (by decide), ih, cons_feed_crlf]
    · rw [Text.crlf_cons hn, hplain hc, ih, cons_crlf hn]

end Piece

namespace Trivia

/-- A line break of the new text; other trivia holds none. -/
def crlf (t : Trivia) : Trivia :=
  { t with text := if t.kind = .newline then Text.crlf t.text else t.text }

theorem piece_crlf {k : TriviaKind} (hk : k ≠ .newline) (t : Text) :
    (piece k t).map crlf = piece k t := by
  unfold piece
  split
  · rfl
  · simp [crlf, hk]

theorem piece_newline_crlf (t : Text) :
    (piece .newline t).map crlf = piece .newline (Text.crlf t) := by
  rw [piece, piece, Text.isEmpty_crlf]
  split
  · rfl
  · simp [crlf]

theorem lineEnd_crlf (blanks ending : Text) :
    (lineEnd blanks ending).map crlf = lineEnd blanks (Text.crlf ending) := by
  rw [lineEnd, lineEnd, List.map_append, piece_crlf (by decide), piece_newline_crlf]

end Trivia

namespace Line

/-- A line of the new text. -/
def crlf (l : Line) : Line := ⟨l.content, Text.crlf l.ending⟩

theorem full_crlf {l : Line} (h : '\n' ∉ l.content) : l.crlf.full = Text.crlf l.full := by
  rw [full, full, Text.crlf_append, Text.crlf_of_not_mem h, crlf]

theorem join_map_crlf {ls : List Line} (h : ∀ l ∈ ls, '\n' ∉ l.content) :
    join (ls.map crlf) = Text.crlf (join ls) := by
  induction ls with
  | nil => rfl
  | cons l ls ih =>
    obtain ⟨hl, hls⟩ := List.forall_mem_cons.1 h
    rw [List.map_cons, join_cons, join_cons, Text.crlf_append, full_crlf hl, ih hls]

/-- The lines of the new text, if there were no carriage returns before. -/
theorem split_crlf {t : Text} (h : '\r' ∉ t) : split (Text.crlf t) = (split t).map crlf := by
  induction t with
  | nil => simp [split]
  | cons c t ih =>
    obtain ⟨hc, ht⟩ := List.ne_and_not_mem_of_not_mem_cons h
    by_cases hn : c = '\n'
    · subst hn
      have hsplit : split ('\n' :: t) = ⟨[], ['\n']⟩ :: split t := by simp [split]
      rw [Text.crlf_feed, hsplit, List.map_cons, ← ih ht]
      simp [split, crlf]
    · rw [Text.crlf_cons hn, split_cons hn fun he => absurd he hc.symm,
        split_cons hn fun he => absurd he hc.symm, ih ht]
      cases split t <;> rfl

theorem pieces_crlf {k : TriviaKind} (hk : k ≠ .newline) (l : Line) :
    (l.pieces k).map Trivia.crlf = l.crlf.pieces k := by
  simp only [pieces, List.map_append, Trivia.piece_crlf hk,
    Trivia.piece_crlf (k := .whitespace) (by decide), Trivia.lineEnd_crlf, crlf]

/-- Lines that stand at an offset of a text and hold no line feeds but at their ends. -/
structure Stand (s : Text) (offset : Nat) (ls : List Line) : Prop where
  place : ∃ done, s = done ++ join ls ∧ offset = Text.width done
  contents : ∀ l ∈ ls, '\n' ∉ l.content

namespace Stand

variable {s t : Text} {o : Nat} {l : Line} {ls ms : List Line}

/-- The lines of a text stand at its start. -/
theorem of_split (s : Text) : Stand s 0 (split s) where
  place := ⟨[], (join_split s).symm, rfl⟩
  contents l hl := (isCut_of_mem_split s l hl).content

/-- Lines behind some text of these lines. -/
theorem behind (h : Stand s o ls) (hj : join ls = t ++ join ms)
    (hms : ∀ l ∈ ms, '\n' ∉ l.content) : Stand s (o + Text.width t) ms where
  place := by
    obtain ⟨done, hs, ho⟩ := h.place
    exact ⟨done ++ t, by rw [hs, hj, List.append_assoc], by rw [ho, Text.width_append]⟩
  contents := hms

/-- The text up to there moves by its line feeds. -/
theorem moved_behind (h : Stand s o ls) (hj : join ls = t ++ join ms) :
    s.moved (o + Text.width t) = s.moved o + Text.width (Text.crlf t) := by
  obtain ⟨done, hs, ho⟩ := h.place
  have hstart : s.moved o = Text.width (Text.crlf done) := by
    have happ := Text.moved_append done (join ls) 0
    rwa [Nat.add_zero, ← ho, ← hs, Text.moved_zero, Nat.add_zero] at happ
  have hstop := Text.moved_append (done ++ t) (join ms) 0
  rw [Nat.add_zero, Text.width_append, ← ho, List.append_assoc, ← hj, ← hs, Text.crlf_append,
    Text.width_append, Text.moved_zero, Nat.add_zero] at hstop
  rw [hstop, hstart]

theorem tail (h : Stand s o (l :: ls)) : Stand s (o + l.width) ls :=
  h.behind (join_cons l ls) (List.forall_mem_cons.1 h.contents).2

/-- A line of the new text ends where the line did. -/
theorem moved_width (h : Stand s o (l :: ls)) :
    s.moved (o + l.width) = s.moved o + l.crlf.width := by
  rw [width, h.moved_behind (join_cons l ls),
    ← full_crlf (List.forall_mem_cons.1 h.contents).1, width]

/-- Inside of a line all offsets move alike. -/
theorem moved_inside (h : Stand s o (l :: ls)) {k : Nat} (hk : k ≤ Text.width l.content) :
    s.moved (o + k) = s.moved o + k := by
  obtain ⟨done, hs, ho⟩ := h.place
  have hcontent := (List.forall_mem_cons.1 h.contents).1
  have hin {k : Nat} (hk : k ≤ Text.width l.content) :
      s.moved (o + k) = Text.width (Text.crlf done) + k := by
    rw [hs, ho, Text.moved_append, join_cons, full, List.append_assoc, Text.moved,
      Text.feedsBefore_of_not_mem hcontent _ hk, Nat.add_zero]
  have hstart := hin (Nat.zero_le _)
  rw [Nat.add_zero, Nat.add_zero] at hstart
  rw [hin hk, hstart]

theorem ofWidth_moved (h : Stand s o (l :: ls)) {k w : Nat} (hk : k + w ≤ Text.width l.content) :
    Span.ofWidth (s.moved o + k) w = (Span.ofWidth (o + k) w).moved s := by
  have hstart := h.moved_inside (k := k) (by omega)
  have hstop := h.moved_inside hk
  simp only [Span.ofWidth, Span.moved, Span.mk.injEq]
  rw [hstart, Nat.add_assoc o, hstop, Nat.add_assoc]
  exact ⟨rfl, rfl⟩

end Stand

end Line

namespace Cursor

open Line (Stand)

variable {s : Text} {o : Nat} {ls : List Line}

theorem cutTrivia_crlf (ls : List Line) :
    cutTrivia (ls.map Line.crlf) =
      ((cutTrivia ls).1.map Trivia.crlf, (cutTrivia ls).2.map Line.crlf) := by
  fun_induction cutTrivia ls with
  | case1 => rfl
  | case2 l ls h ts rest hc ih =>
    rw [hc] at ih
    have hl : Line.isTrivial (Text.trimStart l.crlf.content) = true := h
    rw [List.map_cons, cutTrivia, if_pos hl, ih, List.map_append, Line.pieces_crlf (by decide)]
  | case3 l ls h =>
    have hl : ¬Line.isTrivial (Text.trimStart l.crlf.content) = true := h
    rw [List.map_cons, cutTrivia, if_neg hl, List.map_cons, Trivia.piece_crlf (by decide)]
    rfl

theorem contents_cutTrivia (h : ∀ l ∈ ls, '\n' ∉ l.content) :
    ∀ l ∈ (cutTrivia ls).2, '\n' ∉ l.content := by
  fun_induction cutTrivia ls with
  | case1 => exact h
  | case2 l ls hl ts rest hc ih =>
    rw [hc] at ih
    exact ih (List.forall_mem_cons.1 h).2
  | case3 l ls hl =>
    obtain ⟨hcontent, hls⟩ := List.forall_mem_cons.1 h
    exact List.forall_mem_cons.2 ⟨fun hmem => hcontent (Text.mem_of_mem_trimStart hmem), hls⟩

/-- Blank lines and comments in front of other lines. -/
theorem stand_cutTrivia (h : Stand s o ls) :
    Stand s (o + Trivia.widthOf (cutTrivia ls).1) (cutTrivia ls).2 := by
  rw [← Trivia.width_render]
  exact h.behind (render_cutTrivia ls).symm (contents_cutTrivia h.contents)

theorem moved_cutTrivia (h : Stand s o ls) :
    s.moved (o + Trivia.widthOf (cutTrivia ls).1) =
      s.moved o + Trivia.widthOf ((cutTrivia ls).1.map Trivia.crlf) := by
  have hjoin := render_cutTrivia (ls.map Line.crlf)
  rw [cutTrivia_crlf, Line.join_map_crlf h.contents,
    Line.join_map_crlf (contents_cutTrivia h.contents), ← render_cutTrivia ls,
    Text.crlf_append] at hjoin
  rw [← Trivia.width_render, h.moved_behind (render_cutTrivia ls).symm, ← Trivia.width_render,
    List.append_cancel_right hjoin]

end Cursor

namespace Dialect

/-- What follows tags does not depend on how lines end. -/
theorem kindAfterTags?_crlf (d : Dialect) (ls : List Line) :
    d.kindAfterTags? (ls.map Line.crlf) = d.kindAfterTags? ls := by
  induction ls with
  | nil => rfl
  | cons l ls ih => simp only [List.map_cons, kindAfterTags?, Line.crlf, ih]

/-- Nor does whether there are examples. -/
theorem hasExamples_crlf (d : Dialect) (fence : Option Fence) (ls : List Line) :
    d.hasExamples fence (ls.map Line.crlf) = d.hasExamples fence ls := by
  induction ls generalizing fence with
  | nil => rfl
  | cons l ls ih => cases fence <;> simp only [List.map_cons, hasExamples, Line.crlf, ih]

end Dialect

namespace Preamble

variable {s : Text} {o : Nat} {ls : List Line}

/-- The preamble of the new text. -/
def crlf (s : Text) (p : Preamble) : Preamble :=
  ⟨p.dialect, p.trivia.map Trivia.crlf, p.events.map (Event.moved s), p.lines.map Line.crlf⟩

/-- The comments in front of the new text select the same language. -/
theorem read_crlf (d : Dialect) (h : Line.Stand s o ls) :
    read d (s.moved o) (ls.map Line.crlf) = (read d o ls).crlf s := by
  induction ls generalizing d o with
  | nil => rfl
  | cons l ls ih =>
    have ih (d : Dialect) := ih d h.tail
    rw [h.moved_width] at ih
    have hwidth : Text.width (Text.leadingBlanks l.content) + Text.width (Text.trim l.content) ≤
        Text.width l.content := by
      have hcontent := congrArg Text.width (Text.leadingBlanks_append_trimStart l.content)
      rw [Text.width_append] at hcontent
      have := Text.width_trimEnd_le (Text.trimStart l.content)
      rw [Text.trim]
      omega
    have hcontent : l.crlf.content = l.content := rfl
    rw [List.map_cons, read, read, hcontent]
    split
    · cases languageCode? (Text.trim l.content) with
      | none => simp only [ih, crlf, List.map_append, Line.pieces_crlf (k := .comment) (by decide)]
      | some code =>
        dsimp only
        cases Dialect.find (String.ofList code) with
        | ok found =>
          simp only [ih, crlf, List.map_append, List.map_cons, Event.moved,
            Line.pieces_crlf (k := .languageDirective) (by decide)]
        | error e =>
          simp only [ih, crlf, List.map_append, List.map_cons, Event.moved,
            Line.pieces_crlf (k := .languageDirective) (by decide), ← h.ofWidth_moved hwidth]
    · simp only [crlf, List.map_cons, Trivia.piece_crlf (k := .whitespace) (by decide)]
      rfl

end Preamble

end GherkinTree
