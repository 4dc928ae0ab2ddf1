import GherkinTree.Proofs.Document

/-!
The comments in front of a document and the run that follows them. Main statements: the preamble
keeps all text, reports exactly the directives with unknown languages, and selects a dialect of the
library if it begins with one; reading a document is a run from behind its preamble to its end.
-/

namespace GherkinTree

namespace Trivia

/-- Pieces that hold some text. -/
def Solid (ps : List Trivia) : Prop := ∀ p ∈ ps, 0 < p.width

theorem solid_piece (k : TriviaKind) (t : Text) : Solid (piece k t) := by
  intro p hp
  unfold piece at hp
  split at hp
  · cases hp
  · rename_i ht
    cases List.mem_singleton.1 hp
    exact Nat.pos_of_ne_zero fun h => ht (by simp [(Text.width_eq_zero_iff t).1 h])

theorem Solid.append {ps qs : List Trivia} (hp : Solid ps) (hq : Solid qs) : Solid (ps ++ qs) := by
  intro p h
  rcases List.mem_append.1 h with h | h
  · exact hp p h
  · exact hq p h

theorem solid_pieces (k : TriviaKind) (l : Line) : Solid (l.pieces k) :=
  ((solid_piece _ _).append (solid_piece _ _)).append ((solid_piece _ _).append (solid_piece _ _))

/-- A problem of a piece lies where the piece lies. -/
theorem bounds_of_mem_reports {f : Trivia → Option Problem} {ps : List Trivia} (h : Solid ps)
    {o : Nat} {x : Diagnostic} (hx : x ∈ reports f o ps) :
    o ≤ x.span.start ∧ x.span.start < o + widthOf ps := by
  induction ps generalizing o with
  | nil => cases hx
  | cons p ps ih =>
    have hp := h p List.mem_cons_self
    rw [reports_cons, List.mem_append] at hx
    rw [widthOf_cons]
    rcases hx with hx | hx
    · obtain ⟨y, -, rfl⟩ : ∃ y, f p = some y ∧ (⟨.ofWidth o p.width, y⟩ : Diagnostic) = x := by
        simpa using hx
      simp
      omega
    · have := ih (fun q hq => h q (List.mem_cons_of_mem p hq)) hx
      omega

end Trivia

/-- Spans in the order of their starts, then of their ends. -/
def Span.Before (s t : Span) : Prop := s.start < t.start ∨ (s.start = t.start ∧ s.stop < t.stop)

/-- The problems of pieces come in the order of the pieces. -/
theorem Trivia.pairwise_reports {f : Trivia → Option Problem} {ps : List Trivia} (h : Solid ps)
    (o : Nat) : (reports f o ps).Pairwise fun x y => x.span.Before y.span := by
  induction ps generalizing o with
  | nil => exact .nil
  | cons p ps ih =>
    have hs : Solid ps := fun q hq => h q (List.mem_cons_of_mem p hq)
    have hp := h p List.mem_cons_self
    rw [reports_cons, List.pairwise_append]
    refine ⟨?_, ih hs _, fun x hx y hy => .inl ?_⟩
    · cases f p with
      | none => exact .nil
      | some y => exact List.pairwise_singleton _ _
    · obtain ⟨z, -, rfl⟩ : ∃ z, f p = some z ∧ (⟨.ofWidth o p.width, z⟩ : Diagnostic) = x := by
        simpa using hx
      have := (bounds_of_mem_reports hs hy).1
      simp
      omega

namespace Preamble

theorem render_cons {p : Preamble} {ls : List Line} (k : TriviaKind) (l : Line)
    (h : Trivia.render p.trivia ++ Line.join p.lines = Line.join ls) :
    Trivia.render (l.pieces k ++ p.trivia) ++ Line.join p.lines = Line.join (l :: ls) := by
  rw [Trivia.render_append, Line.render_pieces, List.append_assoc, h, Line.join_cons]

/-- The preamble and what follows make up the document. -/
theorem render_read (d : Dialect) (o : Nat) (ls : List Line) :
    Trivia.render (read d o ls).trivia ++ Line.join (read d o ls).lines = Line.join ls := by
  fun_induction read d o ls with
  | case1 => rfl
  | case2 d o l ls h hn p ih => exact render_cons .comment l ih
  | case3 d o l ls h code hc trivia found hf p ih => exact render_cons .languageDirective l ih
  | case4 d o l ls h code hc trivia e hf span p ih => exact render_cons .languageDirective l ih
  | case5 d o l ls h => simp [Line.full, ← List.append_assoc]

/-- The preamble ends where blank lines and comments end. -/
theorem lines_read (d : Dialect) (o : Nat) (ls : List Line) :
    (read d o ls).lines = (Cursor.cutTrivia ls).2 := by
  fun_induction read d o ls with
  | case1 => rfl
  | case2 d o l ls h hn p ih => simpa [Cursor.cutTrivia, h] using ih
  | case3 d o l ls h code hc trivia found hf p ih => simpa [Cursor.cutTrivia, h] using ih
  | case4 d o l ls h code hc trivia e hf span p ih => simpa [Cursor.cutTrivia, h] using ih
  | case5 d o l ls h => simp [Cursor.cutTrivia, h]

theorem widthOf_read (d : Dialect) (o : Nat) (ls : List Line) :
    Trivia.widthOf (read d o ls).trivia = Trivia.widthOf (Cursor.cutTrivia ls).1 := by
  have h := (render_read d o ls).trans (Cursor.render_cutTrivia ls).symm
  rw [lines_read] at h
  rw [← Trivia.width_render, List.append_cancel_right h, Trivia.width_render]

theorem solid_read (d : Dialect) (o : Nat) (ls : List Line) :
    Trivia.Solid (read d o ls).trivia := by
  fun_induction read d o ls with
  | case1 => exact nofun
  | case2 d o l ls h hn p ih => exact (Trivia.solid_pieces _ l).append ih
  | case3 d o l ls h code hc trivia found hf p ih => exact (Trivia.solid_pieces _ l).append ih
  | case4 d o l ls h code hc trivia e hf span p ih => exact (Trivia.solid_pieces _ l).append ih
  | case5 d o l ls h => exact Trivia.solid_piece _ _

theorem mem_bundled_read {d : Dialect} (hd : d ∈ Dialect.bundled) (o : Nat) (ls : List Line) :
    (read d o ls).dialect ∈ Dialect.bundled := by
  fun_induction read d o ls with
  | case1 => exact hd
  | case2 d o l ls h hn p ih => exact ih hd
  | case3 d o l ls h code hc trivia found hf p ih => exact ih (Dialect.mem_bundled_of_find hf)
  | case4 d o l ls h code hc trivia e hf span p ih => exact ih hd
  | case5 d o l ls h => exact hd

end Preamble

/-- The dialect that a document is read in keeps its words apart, as all of the library do. -/
theorem Dialect.proper_parse {d : Dialect} (hd : d ∈ bundled) (source : Text) :
    (parse d source).dialect.Proper :=
  proper_of_mem_bundled (Preamble.mem_bundled_read hd 0 _)

namespace Trivia

theorem widthOf_pieces (k : TriviaKind) (l : Line) : widthOf (l.pieces k) = l.width := by
  rw [← width_render, Line.render_pieces]
  rfl

/-- A line as trivia is worth what its text is worth. -/
theorem reports_pieces (d : Dialect) (k : TriviaKind) (l : Line) (o : Nat) :
    reports (problem? d) o (l.pieces k) =
      reports (problem? d) (o + Text.width (Text.leadingBlanks l.content))
        (piece k (Text.trim l.content)) := by
  have hw : widthOf (piece .whitespace (Text.leadingBlanks l.content)) =
      Text.width (Text.leadingBlanks l.content) := by rw [← width_render, render_piece]
  rw [Line.pieces, reports_append, reports_append, (quiet_blanks _).shows_nothing,
    (quiet_lineEnd _ _).shows_nothing, hw]
  simp

/-- A blank line or a comment that is no directive is worth nothing. -/
theorem reports_comment (d : Dialect) (l : Line) (o : Nat) :
    reports (problem? d) o (l.pieces .comment) = [] := by
  rw [reports_pieces]
  exact (quiet_piece (by decide) _).shows_nothing d _

end Trivia

namespace Preamble

variable {d : Dialect} {code : Text}

/-- A directive is reported if the library does not know its language. -/
theorem reports_directive (d : Dialect) {l : Line}
    (h : languageCode? (Text.trim l.content) = some code) (o : Nat) :
    Trivia.reports (Trivia.problem? d) o (l.pieces .languageDirective) =
      if Dialect.bundled.any (·.code == String.ofList code) then []
      else [.unknownLanguage (.ofWidth (o + Text.width (Text.leadingBlanks l.content))
        (Text.width (Text.trim l.content))) (String.ofList code)] := by
  have hne : Text.trim l.content ≠ [] := by
    intro he
    rw [he] at h
    cases h
  have hproblem : Trivia.problem? d ⟨.languageDirective, Text.trim l.content⟩ =
      if Dialect.bundled.any (·.code == String.ofList code) then none
      else some (.unknownLanguage (String.ofList code)) := by
    simp only [Trivia.problem?, Trivia.language?, if_true, h, Option.bind_some]
  rw [Trivia.reports_pieces, Trivia.piece, if_neg (by simpa using hne), Trivia.reports_cons,
    hproblem]
  split
  · rfl
  · rfl

/-- What the preamble reports is what its trivia shows. -/
theorem diagnostics_read (d d' : Dialect) (o : Nat) (ls : List Line) :
    (read d o ls).events.filterMap Event.diagnostic? =
      Trivia.reports (Trivia.problem? d') o (read d o ls).trivia := by
  fun_induction read d o ls with
  | case1 => rfl
  | case2 d o l ls h hn p ih =>
    rw [Trivia.reports_append, Trivia.reports_comment, Trivia.widthOf_pieces, List.nil_append]
    exact ih
  | case3 d o l ls h code hc trivia found hf p ih =>
    have hany := (Dialect.find_eq_ok_iff_any (String.ofList code)).1 ⟨found, hf⟩
    rw [Trivia.reports_append, reports_directive d' hc, if_pos hany, Trivia.widthOf_pieces,
      List.nil_append]
    exact ih
  | case4 d o l ls h code hc trivia e hf span p ih =>
    have hany : ¬Dialect.bundled.any (·.code == String.ofList code) = true := by
      intro hany
      obtain ⟨found, hf'⟩ := (Dialect.find_eq_ok_iff_any _).2 hany
      rw [hf] at hf'
      cases hf'
    rw [Trivia.reports_append, reports_directive d' hc, if_neg hany, Trivia.widthOf_pieces, ← ih]
    rfl
  | case5 d o l ls h => exact ((Trivia.quiet_blanks _).shows_nothing d' o).symm

/-- Behind the preamble nothing has been reported yet. -/
theorem unreported_cursor (d : Dialect) (ls : List Line) : (read d 0 ls).cursor.Unreported := by
  intro x hx
  change x ∈ (read d 0 ls).events.filterMap Event.diagnostic? at hx
  rw [diagnostics_read d d] at hx
  have := (Trivia.bounds_of_mem_reports (solid_read d 0 ls) hx).2
  rwa [Nat.zero_add] at this

end Preamble

/-- What reading a document amounts to: a run from behind the preamble through all lines, and the
end of the file. -/
theorem exists_run (d : Dialect) (source : Text) :
    ∃ ls fs s c, Run (parse d source).dialect .initial
        (Preamble.read d 0 (Line.split source)).cursor ls fs s c ∧
      c.lines = [] ∧ (parse d source).events = c.events ∧
      (parse d source).root.leaves =
        ls ++ [.token (.plain .endOfFileToken [] c.pending [])] := by
  obtain ⟨ls, c, ⟨fs, s, hrun, -⟩, hlines, hleaves, hevents⟩ :=
    Grammar.reads_document (Preamble.read d 0 (Line.split source)).dialect
      (Preamble.unreported_cursor d (Line.split source))
  exact ⟨ls, fs, s, c, hrun, hlines, hevents, hleaves⟩

end GherkinTree
