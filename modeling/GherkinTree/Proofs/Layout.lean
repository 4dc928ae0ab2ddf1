import GherkinTree.Proofs.Line
import GherkinTree.Proofs.Position
import GherkinTree.Proofs.PureTrivia

/-!
How trivia is laid out. A piece of trivia is normal if its text is what its kind says, and a piece
that is a line break has to be the one of a line of the source, where that line has it. Main
statements: whole lines that become trivia are laid out, and so are the tokens of one line if only
the first of them has trivia of other lines in front of it and only the last ends with a line break.
-/

namespace GherkinTree

namespace Text

variable {t : Text}

/-- A text that neither begins nor ends with a blank. -/
structure Trimmed (t : Text) : Prop where
  head : ∀ c ∈ t.head?, isBlank c = false
  last : ∀ c ∈ t.getLast?, isBlank c = false

theorem trimmed_nil : Trimmed [] := ⟨nofun, nofun⟩

theorem trimmed_of_forall (h : ∀ c ∈ t, isBlank c = false) : Trimmed t where
  head c hc := h c (List.mem_of_mem_head? hc)
  last c hc := h c (List.mem_of_getLast? hc)

theorem not_blank_of_getLast?_trimEnd (t : Text) :
    ∀ c ∈ (trimEnd t).getLast?, isBlank c = false := by
  induction t with
  | nil => exact nofun
  | cons b t ih =>
    rw [trimEnd_cons]
    split
    · exact nofun
    · rename_i hb
      cases ht : trimEnd t with
      | nil => simpa [ht] using hb
      | cons d u =>
        rw [ht] at ih
        rwa [List.getLast?_cons_cons]

theorem trimmed_trimEnd (h : trimStart t = t) : (trimEnd t).Trimmed where
  head := by
    cases t with
    | nil => exact nofun
    | cons c u =>
      have hc := isBlank_of_trimStart_eq h
      rw [head?_trimEnd_of_not_blank hc]
      rintro _ ⟨⟩
      exact hc
  last := not_blank_of_getLast?_trimEnd t

theorem trimmed_trim (t : Text) : (trim t).Trimmed := trimmed_trimEnd (trimStart_trimStart t)

/-- Blanks on one line. -/
def Blanks (t : Text) : Prop := ∀ c ∈ t, isBlank c = true ∧ c ≠ '\n'

theorem Blanks.of_forall (h : ∀ c ∈ t, isBlank c = true) (hn : '\n' ∉ t) : t.Blanks := by
  rintro c hc
  refine ⟨h c hc, ?_⟩
  rintro rfl
  exact hn hc

theorem blanks_leadingBlanks (h : '\n' ∉ t) : (leadingBlanks t).Blanks :=
  .of_forall (List.all_eq_true.1 List.all_takeWhile) fun hc => h ((List.takeWhile_prefix _).mem hc)

theorem isBlank_of_mem_trailingBlanks (t : Text) : ∀ c ∈ trailingBlanks t, isBlank c = true := by
  induction t with
  | nil => exact nofun
  | cons b t ih =>
    unfold trailingBlanks at ih ⊢
    unfold cutEnd
    split <;> rename_i h <;> rw [h] at ih
    · split
      · rename_i hb
        exact List.forall_mem_cons.2 ⟨hb, ih⟩
      · exact ih
    · exact ih

theorem blanks_trailingBlanks (h : '\n' ∉ t) : (trailingBlanks t).Blanks := by
  refine .of_forall (isBlank_of_mem_trailingBlanks t) fun hc => h ?_
  rw [← trimEnd_append_trailingBlanks t]
  exact List.mem_append_right _ hc

/-- A text that is all blank. -/
theorem blanks_of_trimStart_eq_nil (ht : trimStart t = []) (h : '\n' ∉ t) : t.Blanks :=
  .of_forall (trimStart_eq_nil_iff.1 ht) h

end Text

namespace Trivia

/-- A piece of trivia whose text is what its kind says. -/
structure Normal (p : Trivia) : Prop where
  nonempty : p.text ≠ []
  blanks : p.kind = .whitespace → p.text.Blanks
  lineBreak : p.kind = .newline → p.text = ['\n'] ∨ p.text = ['\r', '\n']
  comment : p.isComment = true → p.text.head? = some '#'
  words : p.isComment = true ∨ p.kind = .skippedText → '\n' ∉ p.text ∧ p.text.Trimmed

/-- Normal pieces without line breaks. -/
def Inline (ps : List Trivia) : Prop := ∀ p ∈ ps, p.Normal ∧ p.kind ≠ .newline

variable {ps qs : List Trivia} {t : Text}

theorem inline_nil : Inline [] := List.forall_mem_nil _

theorem Inline.append (hp : Inline ps) (hq : Inline qs) : Inline (ps ++ qs) :=
  List.forall_mem_append.2 ⟨hp, hq⟩

theorem inline_piece {k : TriviaKind} (hk : k ≠ .newline) (h : t ≠ [] → Normal ⟨k, t⟩) :
    Inline (piece k t) := by
  by_cases ht : t = []
  · simp [ht, piece, inline_nil]
  · simpa [ht, piece, Inline, hk] using h ht

theorem inline_blanks (h : t.Blanks) : Inline (piece .whitespace t) :=
  inline_piece (by decide) fun ht => ⟨ht, fun _ => h, nofun, nofun, by simp [isComment]⟩

theorem inline_skipped (hn : '\n' ∉ t) (ht : t.Trimmed) : Inline (piece .skippedText t) :=
  inline_piece (by decide) fun hne => ⟨hne, nofun, nofun, nofun, fun _ => ⟨hn, ht⟩⟩

theorem inline_comment {k : TriviaKind} (hk : k = .comment ∨ k = .languageDirective)
    (hh : ∀ c ∈ t.head?, c = '#') (hn : '\n' ∉ t) (ht : t.Trimmed) : Inline (piece k t) := by
  refine inline_piece (by rcases hk with rfl | rfl <;> decide) fun hne => ?_
  obtain ⟨c, u, rfl⟩ := List.exists_cons_of_ne_nil hne
  obtain rfl := hh c rfl
  refine ⟨hne, ?_, ?_, fun _ => rfl, fun _ => ⟨hn, ht⟩⟩
  · rcases hk with rfl | rfl <;> exact nofun
  · rcases hk with rfl | rfl <;> exact nofun

end Trivia

theorem SourceLine.isCut_of_mem_ofText {source : Text} {l : SourceLine} (h : l ∈ ofText source) :
    l.line.IsCut := by
  refine Line.isCut_of_mem_split source _ ?_
  rw [← map_line_listFrom 0 (Line.split source)]
  exact List.mem_map_of_mem h

/-- Whether a line break of a text stands at an offset. -/
def Text.BreaksAt (source : Text) (o : Nat) (lineBreak : Text) : Prop :=
  ∃ l ∈ SourceLine.ofText source, l.line.ending = lineBreak ∧ o + Text.width lineBreak = l.stop

/-- Normal pieces that stand one behind the other from an offset on, each line break where the
source has it. -/
def Trivia.Laid (source : Text) (o : Nat) (ps : List Trivia) : Prop :=
  ∀ x ∈ ps.zip (PlacedToken.triviaSpans o ps),
    x.1.Normal ∧ (x.1.kind = .newline → source.BreaksAt x.2.start x.1.text)

namespace Trivia

variable {source : Text} {o : Nat} {ps qs : List Trivia} {l : SourceLine}

theorem laid_nil : Laid source o [] := nofun

theorem laid_cons {p : Trivia} : Laid source o (p :: ps) ↔
    (p.Normal ∧ (p.kind = .newline → source.BreaksAt o p.text)) ∧ Laid source (o + p.width) ps := by
  rw [Laid, PlacedToken.triviaSpans, List.zip_cons_cons, List.forall_mem_cons]
  rfl

theorem laid_append : Laid source o (ps ++ qs) ↔
    Laid source o ps ∧ Laid source (o + widthOf ps) qs := by
  induction ps generalizing o with
  | nil => simp [laid_nil]
  | cons p ps ih =>
    rw [List.cons_append, laid_cons, laid_cons, ih, widthOf_cons, Nat.add_assoc]
    exact and_assoc.symm

theorem Laid.normal (h : Laid source o ps) : ∀ p ∈ ps, p.Normal := by
  induction ps generalizing o with
  | nil => exact List.forall_mem_nil _
  | cons p ps ih =>
    obtain ⟨hp, hps⟩ := laid_cons.1 h
    exact List.forall_mem_cons.2 ⟨hp.1, ih hps⟩

theorem Inline.laid (h : Inline ps) : Laid source o ps := by
  induction ps generalizing o with
  | nil => exact laid_nil
  | cons p ps ih =>
    obtain ⟨hp, hps⟩ := List.forall_mem_cons.1 h
    exact laid_cons.2 ⟨⟨hp.1, fun hk => absurd hk hp.2⟩, ih hps⟩

/-- What ends where a line of the source ends, with its line break. -/
theorem laid_ended (h : Inline ps) (hl : l ∈ SourceLine.ofText source)
    (ho : o + widthOf ps + Text.width l.line.ending = l.stop) :
    Laid source o (ps ++ piece .newline l.line.ending) := by
  refine laid_append.2 ⟨h.laid, ?_⟩
  by_cases he : l.line.ending = []
  · simp [he, piece, laid_nil]
  · have hcut := SourceLine.isCut_of_mem_ofText hl
    have hnormal : Normal ⟨.newline, l.line.ending⟩ :=
      ⟨he, by simp, fun _ => hcut.ending.resolve_left he, by simp [isComment], by simp [isComment]⟩
    simpa [he, piece, laid_cons, laid_nil] using ⟨hnormal, l, hl, rfl, ho⟩

/-- Only the last piece of what ends a line is the line break. -/
theorem mem_of_mem_dropLast_ended {p : Trivia} {t : Text}
    (h : p ∈ (ps ++ piece .newline t).dropLast) : p ∈ ps := by
  by_cases ht : t = []
  · rw [ht, piece, List.isEmpty_nil, if_pos rfl, List.append_nil] at h
    exact (List.dropLast_sublist ps).mem h
  · rw [piece, if_neg (by simpa using ht), List.dropLast_concat] at h
    exact h

end Trivia

namespace SourceLine

variable {source : Text} {l : SourceLine} {o : Nat}

/-- A line of a source stands behind the lines above it. -/
theorem exists_above (h : l ∈ ofText source) :
    ∃ above below, Line.split source = above ++ l.line :: below ∧
      l.offset = Text.width (Line.join above) := by
  suffices hall : ∀ (o : Nat) (ls : List Line), l ∈ listFrom o ls →
      ∃ above below, ls = above ++ l.line :: below ∧ l.offset = o + Text.width (Line.join above) by
    simpa using hall 0 _ h
  intro o ls h
  induction ls generalizing o with
  | nil => cases h
  | cons m ls ih =>
    rcases List.mem_cons.1 h with rfl | h
    · exact ⟨[], ls, rfl, rfl⟩
    · obtain ⟨above, below, rfl, ho⟩ := ih _ h
      exact ⟨m :: above, below, rfl, by simp [ho, Line.width, Nat.add_assoc]⟩

end SourceLine

/-- A line break stands in the source where it is said to, and behind no carriage return that does
not belong to it. -/
theorem Text.BreaksAt.exists_before {source lineBreak : Text} {o : Nat}
    (h : source.BreaksAt o lineBreak) :
    ∃ before after, source = before ++ lineBreak ++ after ∧ Text.width before = o ∧
      (lineBreak = ['\n'] → before.getLast? ≠ some '\r') := by
  obtain ⟨l, hl, rfl, ho⟩ := h
  obtain ⟨above, below, hsplit, hoffset⟩ := SourceLine.exists_above hl
  refine ⟨Line.join above ++ l.line.content, Line.join below, ?_, ?_, fun he => ?_⟩
  · rw [← Line.join_split source, hsplit]
    simp [Line.join, Line.full]
  · rw [SourceLine.stop, hoffset, Line.width, Line.full, Text.width_append] at ho
    rw [Text.width_append]
    omega
  · rw [List.getLast?_append]
    cases hc : l.line.content.getLast? with
    | some c => simpa [hc] using (SourceLine.isCut_of_mem_ofText hl).bare he
    | none =>
      rcases Line.ends_above hsplit with rfl | habove
      · simp
      · simp [habove]

section Lines

/-! Whole lines that become trivia. -/

open Trivia Cursor

variable {source : Text} {o : Nat} {m : Line} {l : SourceLine} {ls : List Line}

theorem Trivia.laid_pieces {k : TriviaKind} (hl : l ∈ SourceLine.ofText source)
    (he : m.ending = l.line.ending) (hn : '\n' ∉ m.content) (ho : o + m.width = l.stop)
    (hk : Inline (piece k (Text.trim m.content))) : Laid source o (m.pieces k) := by
  have hwidth := widthOf_pieces k m
  rw [Line.pieces, lineEnd, ← List.append_assoc] at hwidth ⊢
  rw [widthOf_append, widthOf_piece, he] at hwidth
  rw [he]
  refine laid_ended (.append (.append ?_ hk) ?_) hl (by omega)
  · exact inline_blanks (Text.blanks_leadingBlanks hn)
  · exact inline_blanks (Text.blanks_trailingBlanks fun h => hn (Text.mem_of_mem_trimStart h))

/-- The text of a line that is blank or a comment. -/
theorem Line.inline_comment {k : TriviaKind} (hk : k = .comment ∨ k = .languageDirective)
    (ht : isTrivial (Text.trimStart m.content) = true) (hn : '\n' ∉ m.content) :
    Inline (piece k (Text.trim m.content)) := by
  refine Trivia.inline_comment hk ?_ (fun h => hn (Text.mem_of_mem_trim h))
    (Text.trimmed_trim m.content)
  rw [← isTrivial_trim, isTrivial, Option.all_eq_true] at ht
  exact fun c hc => beq_iff_eq.1 (ht c hc)

/-- A line of the source that is blank or a comment. -/
theorem SourceLine.laid_comment {k : TriviaKind} (hk : k = .comment ∨ k = .languageDirective)
    (hl : l ∈ ofText source) (ht : Line.isTrivial (Text.trimStart l.line.content) = true) :
    Laid source l.offset (l.line.pieces k) :=
  have hn := (isCut_of_mem_ofText hl).content
  laid_pieces hl rfl hn rfl (Line.inline_comment hk ht hn)

theorem Cursor.laid_cutTrivia (h : ∀ l ∈ SourceLine.listFrom o ls, l ∈ SourceLine.ofText source) :
    Laid source o (cutTrivia ls).1 := by
  fun_induction cutTrivia ls generalizing o with
  | case1 => exact laid_nil
  | case2 l ls ht ts rest hc ih =>
    rw [SourceLine.listFrom, List.forall_mem_cons] at h
    refine laid_append.2 ⟨SourceLine.laid_comment (.inl rfl) h.1 ht, ?_⟩
    rw [widthOf_pieces]
    simpa [hc] using ih h.2
  | case3 l ls ht =>
    rw [SourceLine.listFrom, List.forall_mem_cons] at h
    exact (inline_blanks
      (Text.blanks_leadingBlanks (SourceLine.isCut_of_mem_ofText h.1).content)).laid

theorem Preamble.laid_read (d : Dialect)
    (h : ∀ l ∈ SourceLine.listFrom o ls, l ∈ SourceLine.ofText source) :
    Laid source o (read d o ls).trivia := by
  fun_induction read d o ls with
  | case1 => exact laid_nil
  | case2 d o l ls ht hnone p ih =>
    rw [SourceLine.listFrom, List.forall_mem_cons] at h
    refine laid_append.2 ⟨SourceLine.laid_comment (.inl rfl) h.1 ht, ?_⟩
    rw [widthOf_pieces]
    exact ih h.2
  | case3 d o l ls ht code hsome trivia found hfind p ih =>
    rw [SourceLine.listFrom, List.forall_mem_cons] at h
    refine laid_append.2 ⟨SourceLine.laid_comment (.inr rfl) h.1 ht, ?_⟩
    rw [widthOf_pieces]
    exact ih h.2
  | case4 d o l ls ht code hsome trivia e hfind span p ih =>
    rw [SourceLine.listFrom, List.forall_mem_cons] at h
    refine laid_append.2 ⟨SourceLine.laid_comment (.inr rfl) h.1 ht, ?_⟩
    rw [widthOf_pieces]
    exact ih h.2
  | case5 d o l ls ht =>
    rw [SourceLine.listFrom, List.forall_mem_cons] at h
    exact (inline_blanks
      (Text.blanks_leadingBlanks (SourceLine.isCut_of_mem_ofText h.1).content)).laid

namespace Cursor.PlacedIn

variable {c : Cursor} {d : Dialect} {a : Ahead}

theorem laid_cutTrivia (h : c.PlacedIn source) : Laid source c.offset (cutTrivia c.lines).1 := by
  obtain ⟨passed, rs, hsource, hf⟩ := h.faces
  cases hf with
  | between =>
    refine Cursor.laid_cutTrivia fun l hl => ?_
    rw [hsource]
    exact List.mem_append_right passed hl
  | inside offset lines nontrivial pending =>
    rw [lines, cutTrivia_of_begins (SourceLine.begins_cut nontrivial)]
    exact laid_nil

/-- The line ahead is a line of the source without the blanks at its start, between lines that have
been passed and lines that are still to be read. -/
theorem exists_above (h : c.PlacedIn source) (ha : d.peek? c = some a) :
    ∃ (above : List Line) (l : SourceLine),
      Line.split source = above ++ l.line :: a.cursor.lines.tail ∧
      l.offset = Text.width (Line.join above) ∧ a.cursor.offset = l.start ∧ a.line = l.cut := by
  obtain ⟨passed, rs, hsource, hf⟩ := h.faces
  obtain ⟨ts, l, rfl, -, -, hstart, hcut⟩ := hf.ahead ha
  have hsplit : Line.split source =
      (passed ++ ts).map SourceLine.line ++ l.line :: a.cursor.lines.tail := by
    rw [← SourceLine.map_line_listFrom 0 (Line.split source), ← SourceLine.ofText, hsource]
    simp
  refine ⟨_, l, hsplit, ?_, hstart, hcut⟩
  have htotal := (h.peek ha).total
  rw [(Dialect.fits_of_peek? ha).lines, ← Line.join_split source, hsplit] at htotal
  have hcutWidth := l.start_add_width
  simp only [Line.join_append, Line.join_cons, Text.width_append, hcut, hstart] at htotal
  simp only [SourceLine.stop, Line.width] at hcutWidth
  omega

theorem exists_line (h : c.PlacedIn source) (ha : d.peek? c = some a) :
    ∃ l ∈ SourceLine.ofText source, a.cursor.offset = l.start ∧ a.line = l.cut ∧
      ∀ m ∈ SourceLine.listFrom l.stop a.cursor.lines.tail, m ∈ SourceLine.ofText source := by
  obtain ⟨above, l, hsplit, hoffset, hstart, hcut⟩ := h.exists_above ha
  have hlines : SourceLine.ofText source = SourceLine.listFrom 0 above ++
      l :: SourceLine.listFrom l.stop a.cursor.lines.tail := by
    rw [SourceLine.ofText, hsplit, SourceLine.listFrom_append, Nat.zero_add, ← hoffset]
    rfl
  rw [hlines]
  exact ⟨l, List.mem_append_right _ List.mem_cons_self, hstart, hcut,
    fun m hm => List.mem_append_right _ (List.mem_cons_of_mem _ hm)⟩

end Cursor.PlacedIn

end Lines

namespace Token

open Trivia

/-- A token whose trivia is laid out; a line break can only be the last thing behind it. -/
structure LaidOut (source : Text) (o : Nat) (t : Token) : Prop where
  leading : Laid source o t.leading
  trailing : Laid source (o + t.leadingWidth + t.width) t.trailing
  inner : ∀ p ∈ t.trailing.dropLast, p.kind ≠ .newline

/-- Tokens of a line that ends with a line break, from one with some trivia in front of it on. What
follows the line break is lacking. -/
inductive Along (lineBreak : Text) : List Trivia → List Token → Prop where
  | last {leading inner : List Trivia} {t : Token} {ts : List Token} (hl : t.leading = leading)
      (ht : t.trailing = inner ++ piece .newline lineBreak) (hi : Inline inner)
      (hs : ∀ u ∈ ts, ∃ k, u = .absent k [] []) : Along lineBreak leading (t :: ts)
  | cons {leading next : List Trivia} {t : Token} {ts : List Token} (hl : t.leading = leading)
      (ht : Inline t.trailing) (hn : Inline next) (h : Along lineBreak next ts) :
      Along lineBreak leading (t :: ts)

variable {source : Text} {o : Nat} {t : Token} {leading : List Trivia} {ts : List Token}

theorem Along.single {lineBreak : Text} {inner : List Trivia} (hl : t.leading = leading)
    (ht : t.trailing = inner ++ piece .newline lineBreak) (hi : Inline inner) :
    Along lineBreak leading [t] := .last hl ht hi (List.forall_mem_nil _)

theorem laidOut_of_inline (hl : Laid source o t.leading) (ht : Inline t.trailing) :
    t.LaidOut source o where
  leading := hl
  trailing := ht.laid
  inner p hp := (ht p ((List.dropLast_sublist _).mem hp)).2

/-- Tokens without line breaks may stand anywhere. -/
theorem laidOut_sites_of_inline (h : ∀ t ∈ ts, Inline t.leading ∧ Inline t.trailing) :
    ∀ x ∈ sites o ts, x.2.LaidOut source x.1 := fun x hx =>
  have h := h x.2 (mem_of_mem_sites hx)
  laidOut_of_inline h.1.laid h.2

theorem widthAll_of_absent (h : ∀ t ∈ ts, ∃ k, t = .absent k [] []) : widthAll ts = 0 := by
  induction ts with
  | nil => rfl
  | cons t ts ih =>
    obtain ⟨⟨k, rfl⟩, hts⟩ := List.forall_mem_cons.1 h
    rw [widthAll_cons, ih hts, fullWidth_absent, widthOf_nil]

/-- The tokens of a line of the source are laid out if what stands in front of the first is. -/
theorem Along.laidOut_sites {l : SourceLine} (hl : l ∈ SourceLine.ofText source)
    (h : Along l.line.ending leading ts) (hleading : Laid source o leading)
    (ho : o + widthAll ts = l.stop) : ∀ x ∈ sites o ts, x.2.LaidOut source x.1 := by
  induction h generalizing o with
  | @last leading inner t ts hlead htrail hinner hlack =>
    subst hlead
    simp only [widthAll_cons, widthAll_of_absent hlack, fullWidth, trailingWidth, htrail,
      widthOf_append, widthOf_piece] at ho
    refine List.forall_mem_cons.2 ⟨⟨hleading, ?_, fun p hp => ?_⟩, ?_⟩
    · rw [htrail]
      exact laid_ended hinner hl (by dsimp only; omega)
    · rw [htrail] at hp
      exact (hinner p (mem_of_mem_dropLast_ended hp)).2
    · refine laidOut_sites_of_inline fun u hu => ?_
      obtain ⟨k, rfl⟩ := hlack u hu
      exact ⟨inline_nil, inline_nil⟩
  | @cons leading next t ts hlead htrail hnext hts ih =>
    subst hlead
    rw [widthAll_cons, ← Nat.add_assoc] at ho
    rw [sites_cons]
    exact List.forall_mem_cons.2 ⟨laidOut_of_inline hleading htrail, ih hnext.laid ho⟩

/-- Tokens without line breaks in front of the rest of a line. -/
theorem Along.append_inline {lineBreak : Text} {next : List Trivia} {us : List Token}
    (h : ∀ t ∈ ts, Inline t.leading ∧ Inline t.trailing) (hn : Inline next)
    (hu : Along lineBreak next us) :
    ∃ leading, Inline leading ∧ Along lineBreak leading (ts ++ us) := by
  induction ts with
  | nil => exact ⟨next, hn, hu⟩
  | cons t ts ih =>
    obtain ⟨ht, hts⟩ := List.forall_mem_cons.1 h
    obtain ⟨leading, hleading, halong⟩ := ih hts
    exact ⟨t.leading, ht.1, .cons rfl ht.2 hleading halong⟩

end Token

end GherkinTree
