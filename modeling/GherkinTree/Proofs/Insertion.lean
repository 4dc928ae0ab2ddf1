import GherkinTree.Proofs.Argument
import GherkinTree.Proofs.Preamble

/-!
A blank line or a comment put between the lines of a text. Main statements: whatever looks ahead
over the lines passes over it, and the preamble selects the same dialect unless the line is a
directive in front of the first line that is neither blank nor a comment.
-/

namespace GherkinTree

/-- Blanks behind a directive do not change the language that it names. -/
theorem languageCode?_trimEnd (t : Text) : languageCode? (Text.trimEnd t) = languageCode? t := by
  have hafter {p : Text} (hp : Text.trimEnd p = p) (t : Text) := Text.after?_trimEnd hp t
  have hmark : Text.trimEnd ['#'] = ['#'] := by decide
  have hword : Text.trimEnd "language".toList = "language".toList := by decide
  have hcolon : Text.trimEnd [':'] = [':'] := by decide
  unfold languageCode?
  rw [hafter hmark]
  cases Text.after? ['#'] t with
  | none => rfl
  | some t =>
    simp only [Option.map_some, Option.bind_eq_bind, Option.bind_some, Text.trimStart_trimEnd]
    rw [hafter hword]
    cases Text.after? "language".toList (Text.trimStart t) with
    | none => rfl
    | some t =>
      simp only [Option.map_some, Option.bind_some, Text.trimStart_trimEnd]
      rw [hafter hcolon]
      cases Text.after? [':'] (Text.trimStart t) with
      | none => rfl
      | some t =>
        simp only [Option.map_some, Option.bind_some, Text.trimStart_trimEnd,
          Text.takeWhile_trimEnd]

namespace Line

/-- A character that does not begin a line break begins the first line. -/
theorem split_cons {c : Char} {t : Text} (hn : c ≠ '\n') (hr : c = '\r' → t.head? ≠ some '\n') :
    split (c :: t) =
      match split t with
      | [] => [⟨[c], []⟩]
      | l :: ls => ⟨c :: l.content, l.ending⟩ :: ls := by
  refine split.eq_4 c t hn fun u hc ht => hr hc ?_
  rw [ht, List.head?_cons]

theorem split_ne_nil {t : Text} (h : t ≠ []) : split t ≠ [] := by
  fun_cases split t <;> simp_all

/-- The lines of a text that is cut behind a line break. -/
theorem split_append {a : Text} (h : a = [] ∨ a.getLast? = some '\n') (b : Text) :
    split (a ++ b) = split a ++ split b := by
  have hbehind {c : Char} {t : Text} (h : c :: t = [] ∨ (c :: t).getLast? = some '\n') :
      t = [] ∨ t.getLast? = some '\n' := by
    cases t with
    | nil => exact .inl rfl
    | cons d u => simpa using h
  fun_induction split a with
  | case1 => rfl
  | case2 t ih => simp [split, ih (hbehind h)]
  | case3 t ih => simp [split, ih (hbehind (hbehind h))]
  | case4 c t hn hr hs ih =>
    -- the text would end with a character that is no line break
    cases t with
    | nil => exact absurd (by simpa using h) hn
    | cons x u => exact absurd hs (split_ne_nil (List.cons_ne_nil x u))
  | case5 c t hn hr l ls hs ih =>
    cases t with
    | nil => cases hs
    | cons x u =>
      rw [List.cons_append, split_cons hn, ih (hbehind h), hs]
      · rfl
      · intro hc hx
        obtain rfl : x = '\n' := by simpa using hx
        exact hr u hc rfl

/-- A text without line feeds, ended by one, is one line. -/
theorem split_line {t : Text} (h : '\n' ∉ t) :
    ∃ l, split (t ++ ['\n']) = [l] ∧ (t = l.content ∨ t = l.content ++ ['\r']) := by
  induction t with
  | nil => exact ⟨_, rfl, .inl rfl⟩
  | cons c t ih =>
    rw [List.mem_cons, not_or] at h
    obtain ⟨l, hl, ht⟩ := ih h.2
    by_cases hc : c = '\r' ∧ t = []
    · obtain ⟨rfl, rfl⟩ := hc
      exact ⟨_, rfl, .inr rfl⟩
    · refine ⟨⟨c :: l.content, l.ending⟩, ?_, ?_⟩
      · rw [List.cons_append, split_cons (Ne.symm h.1), hl]
        intro hr hx
        cases t with
        | nil => exact hc ⟨hr, rfl⟩
        | cons x u =>
          obtain rfl : x = '\n' := by simpa using hx
          exact h.2 List.mem_cons_self
      · rcases ht with ht | ht
        · exact .inl (by rw [← ht])
        · exact .inr (by rw [List.cons_append, ← ht])

/-- Blanks, possibly with a comment behind them, and a line break are one line, blank or a
comment. -/
theorem split_trivial {blanks comment ending : Text}
    (hblanks : ∀ c ∈ blanks, Text.isBlank c = true ∧ c ≠ '\n')
    (hcomment : comment = [] ∨ comment.head? = some '#') (hn : '\n' ∉ comment)
    (hending : ending = ['\n'] ∨ ending = ['\r', '\n']) :
    ∃ l, split (blanks ++ comment ++ ending) = [l] ∧
      isTrivial (Text.trimStart l.content) = true ∧
      languageCode? (Text.trim l.content) = languageCode? comment := by
  obtain ⟨r, hr, rfl⟩ : ∃ r, (r = [] ∨ r = ['\r']) ∧ ending = r ++ ['\n'] := by
    rcases hending with rfl | rfl
    · exact ⟨_, .inl rfl, rfl⟩
    · exact ⟨_, .inr rfl, rfl⟩
  have hreturn : ∀ c ∈ ['\r'], Text.isBlank c = true := by
    simp only [List.mem_singleton, forall_eq]
    decide
  have hblank : ∀ c ∈ r, Text.isBlank c = true := by
    rcases hr with rfl | rfl
    · exact nofun
    · exact hreturn
  have hline : '\n' ∉ blanks ++ comment ++ r := by
    simp only [List.mem_append, not_or]
    refine ⟨⟨fun h => (hblanks _ h).2 rfl, hn⟩, ?_⟩
    rcases hr with rfl | rfl <;> decide
  have hstart : Text.trimStart comment = comment := by
    rcases hcomment with rfl | h
    · rfl
    · obtain ⟨t, rfl⟩ := List.head?_eq_some_iff.1 h
      exact Text.trimStart_cons_of_not_blank (by decide) t
  obtain ⟨l, hl, ht⟩ := split_line hline
  have htrim : Text.trim l.content = Text.trim comment := by
    have hbehind : Text.trim l.content = Text.trim (blanks ++ comment ++ r) := by
      rcases ht with ht | ht
      · rw [ht]
      · rw [ht, Text.trim_append_of_blank hreturn]
    rw [hbehind, Text.trim_append_of_blank hblank, Text.trim,
      Text.trimStart_append_of_blank fun c hc => (hblanks c hc).1, Text.trim]
  refine ⟨l, by rw [← List.append_assoc, hl], ?_, ?_⟩
  · rw [← isTrivial_trim, htrim, isTrivial_trim, hstart, isTrivial]
    rcases hcomment with rfl | h
    · rfl
    · rw [h]
      rfl
  · rw [htrim, Text.trim, hstart, languageCode?_trimEnd]

/-- The second list of lines is the first, or the first with `l` put in at the byte offset `p`; the
first line begins at the offset `o`. -/
def Inserted (p : Nat) (l : Line) (o : Nat) (ls ls' : List Line) : Prop :=
  ls' = ls ∨ ∃ xs ys, ls = xs ++ ys ∧ ls' = xs ++ l :: ys ∧ o + Text.width (join xs) = p

variable {l : Line} {p o : Nat} {ls ls' : List Line}

/-- Lines in front of which nothing is put in go on alike. -/
theorem Inserted.heads (h : Inserted p l o ls ls') (hne : ls'.head? ≠ some l) :
    (ls = [] ∧ ls' = []) ∨ ∃ m ms ms', ls = m :: ms ∧ ls' = m :: ms' ∧
      Inserted p l (o + m.width) ms ms' := by
  rcases h with rfl | ⟨xs, ys, rfl, rfl, hp⟩
  · cases ls' with
    | nil => exact .inl ⟨rfl, rfl⟩
    | cons m ms => exact .inr ⟨m, ms, ms, rfl, rfl, .inl rfl⟩
  · cases xs with
    | nil => exact absurd rfl hne
    | cons x xs =>
      refine .inr ⟨x, _, _, rfl, rfl, .inr ⟨xs, ys, rfl, rfl, ?_⟩⟩
      rw [join_cons, Text.width_append] at hp
      rw [width, Nat.add_assoc, hp]

theorem Begins.ne_of_trivial {m : Line} (h : m.Begins)
    (hl : isTrivial (Text.trimStart l.content) = true) : m ≠ l := by
  rintro rfl
  rw [h.trimStart, h.not_trivial] at hl
  cases hl

/-- A line that is put in is left behind with the blank lines and comments around it. -/
theorem Inserted.cutTrivia (h : Inserted p l o ls ls')
    (hl : isTrivial (Text.trimStart l.content) = true) :
    Inserted p l (o + Trivia.widthOf (Cursor.cutTrivia ls).1) (Cursor.cutTrivia ls).2
      (Cursor.cutTrivia ls').2 := by
  rcases h with rfl | ⟨xs, ys, rfl, rfl, hp⟩
  · exact .inl rfl
  · induction xs generalizing o with
    | nil => exact .inl (by simp [Cursor.cutTrivia, hl])
    | cons x xs ih =>
      rw [join_cons, Text.width_append] at hp
      by_cases hx : isTrivial (Text.trimStart x.content) = true
      · have ih := @ih (o + x.width) (by rw [width]; omega)
        simp only [List.cons_append, Cursor.cutTrivia, hx, if_true]
        rw [← Trivia.width_render, Trivia.render_append, render_pieces, Text.width_append,
          Trivia.width_render, ← Nat.add_assoc]
        exact ih
      · simp only [List.cons_append, Cursor.cutTrivia, hx, Bool.false_eq_true, if_false]
        refine .inr ⟨⟨Text.trimStart x.content, x.ending⟩ :: xs, ys, rfl, rfl, ?_⟩
        have hw := congrArg Text.width (Text.leadingBlanks_append_trimStart x.content)
        rw [← Trivia.width_render]
        simp only [Trivia.render_piece, join_cons, full, Text.width_append] at hp hw ⊢
        omega

end Line

namespace Fence

variable (f : Fence)

theorem not_closes_of_trivial {l : Line}
    (hl : Line.isTrivial (Text.trimStart l.content) = true) : f.closes l.content = false := by
  rw [Bool.eq_false_iff]
  intro hc
  obtain ⟨u, hu⟩ := trimStart_of_closes hc
  rw [hu, (f.begins_text u l.ending).not_trivial] at hl
  cases hl

/-- A doc string is not closed by a blank line or a comment. -/
theorem head?_behindBody_ne {l : Line} (hl : Line.isTrivial (Text.trimStart l.content) = true)
    (ls : List Line) : (f.behindBody ls).head? ≠ some l := by
  intro hhead
  have hcloses := f.closes_behindBody hhead
  rw [f.not_closes_of_trivial hl] at hcloses
  cases hcloses

end Fence

/-- A line that is put in behind the fence that closes a doc string leaves the body as it is. -/
theorem Line.Inserted.body {p o : Nat} {l : Line} {ls ls' : List Line} (h : l.Inserted p o ls ls')
    (f : Fence) (hout : ¬(o ≤ p ∧ p ≤ o + Text.width (join (f.body ls)))) :
    f.body ls' = f.body ls ∧
      l.Inserted p (o + Text.width (join (f.body ls))) (f.behindBody ls) (f.behindBody ls') := by
  rcases h with rfl | ⟨xs, ys, rfl, rfl, hp⟩
  · exact ⟨rfl, .inl rfl⟩
  · induction xs generalizing o with
    | nil =>
      rw [join_nil, Text.width_nil] at hp
      omega
    | cons x xs ih =>
      simp only [List.cons_append, Fence.body_cons, Fence.behindBody_cons] at hout ⊢
      by_cases hx : f.closes x.content = true
      · rw [if_pos hx, if_pos hx, if_pos hx, if_pos hx]
        exact ⟨rfl, .inr ⟨x :: xs, ys, rfl, rfl, by simpa using hp⟩⟩
      · rw [if_neg hx, join_cons, Text.width_append] at hout
        rw [join_cons, Text.width_append] at hp
        have hxs := @ih (o + x.width) (by rw [width]; omega) (by rw [width]; omega)
        rw [if_neg hx, if_neg hx, if_neg hx, if_neg hx, join_cons, Text.width_append,
          ← Nat.add_assoc]
        exact ⟨by rw [hxs.1], hxs.2⟩

/-- Both doc strings end with the same fence, and both documents go on behind it. -/
theorem Line.Inserted.last {p o : Nat} {l : Line} {ls ls' : List Line}
    (h : l.Inserted p o ls ls') (hne : ls'.head? ≠ some l) :
    Fence.last ls' = Fence.last ls ∧
      l.Inserted p (o + (Fence.last ls).fullWidth) ls.tail ls'.tail := by
  obtain ⟨hn, hn'⟩ | ⟨m, ms, ms', hm, hm', hi⟩ := h.heads hne
  · rw [hn, hn']
    exact ⟨rfl, .inl rfl⟩
  · rw [hm, hm']
    refine ⟨rfl, ?_⟩
    rw [Fence.last, Fence.fullWidth_closing]
    exact hi

namespace Dialect

variable {l : Line}

/-- A blank line or a comment comes between no tags and their section. -/
theorem kindAfterTags?_insert (d : Dialect) (hl : Line.isTrivial (Text.trimStart l.content) = true)
    (xs ys : List Line) : d.kindAfterTags? (xs ++ l :: ys) = d.kindAfterTags? (xs ++ ys) := by
  induction xs with
  | nil => simp [kindAfterTags?, hl]
  | cons x xs ih => simp only [List.cons_append, kindAfterTags?, ih]

/-- Nor does it begin or end a doc string, or stop the search for examples. -/
theorem hasExamples_insert (d : Dialect) (hl : Line.isTrivial (Text.trimStart l.content) = true)
    (fence : Option Fence) (xs ys : List Line) :
    d.hasExamples fence (xs ++ l :: ys) = d.hasExamples fence (xs ++ ys) := by
  induction xs generalizing fence with
  | nil =>
    cases fence with
    | none => simp [hasExamples, Line.isTrivial_trim, hl]
    | some f => simp [hasExamples, f.not_closes_of_trivial hl]
  | cons x xs ih => cases fence <;> simp only [List.cons_append, hasExamples, ih]

end Dialect

/-- The dialect that is read in below a blank line or a comment. -/
def Line.select (d : Dialect) (l : Line) : Dialect :=
  match languageCode? (Text.trim l.content) with
  | none => d
  | some code =>
    match Dialect.find (String.ofList code) with
    | .ok found => found
    | .error _ => d

namespace Preamble

variable {l : Line}

theorem dialect_read_cons (hl : Line.isTrivial (Text.trimStart l.content) = true) (d : Dialect)
    (o : Nat) (ls : List Line) :
    (read d o (l :: ls)).dialect = (read (l.select d) (o + l.width) ls).dialect := by
  rw [read, if_pos hl, Line.select]
  cases languageCode? (Text.trim l.content) with
  | none => rfl
  | some code =>
    dsimp only
    cases Dialect.find (String.ofList code) <;> rfl

theorem dialect_read_of_not_trivial (hl : Line.isTrivial (Text.trimStart l.content) = false)
    (d : Dialect) (o : Nat) (ls : List Line) : (read d o (l :: ls)).dialect = d := by
  rw [read, if_neg (by simp [hl])]

/-- Which dialect is selected does not depend on where the lines begin. -/
theorem dialect_read_offset (d : Dialect) (o o' : Nat) (ls : List Line) :
    (read d o ls).dialect = (read d o' ls).dialect := by
  induction ls generalizing d o o' with
  | nil => rfl
  | cons l ls ih =>
    cases hl : Line.isTrivial (Text.trimStart l.content) with
    | true => rw [dialect_read_cons hl, dialect_read_cons hl, ih]
    | false => rw [dialect_read_of_not_trivial hl, dialect_read_of_not_trivial hl]

/-- A line that is no directive selects nothing, and no line does behind the preamble. -/
theorem dialect_read_insert (hl : Line.isTrivial (Text.trimStart l.content) = true) (d : Dialect)
    (o o' : Nat) (xs ys : List Line)
    (h : languageCode? (Text.trim l.content) = none ∨
      ∃ x ∈ xs, Line.isTrivial (Text.trimStart x.content) = false) :
    (read d o (xs ++ l :: ys)).dialect = (read d o' (xs ++ ys)).dialect := by
  induction xs generalizing d o o' with
  | nil =>
    have hnone : languageCode? (Text.trim l.content) = none := by simpa using h
    rw [List.nil_append, List.nil_append, dialect_read_cons hl, Line.select, hnone]
    exact dialect_read_offset d _ o' ys
  | cons x xs ih =>
    rw [List.cons_append, List.cons_append]
    cases hx : Line.isTrivial (Text.trimStart x.content) with
    | true =>
      rw [dialect_read_cons hx, dialect_read_cons hx]
      exact ih _ _ _ (by simpa [hx] using h)
    | false => rw [dialect_read_of_not_trivial hx, dialect_read_of_not_trivial hx]

end Preamble

end GherkinTree
