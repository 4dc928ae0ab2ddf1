import GherkinTree.Proofs.LinePosition
import GherkinTree.Proofs.Report
import Mathlib

/-!
Where diagnostics are located. Whatever the reader reports is about some characters of the source, or
about a place between two characters, so both ends of its span have a line and a column that lead
back to them. Main statement: positions are exact on all boundaries of a source, and the ends of all
diagnostics are such boundaries.
-/

namespace GherkinTree

namespace Source

variable {s : Source} {a b c : Text} {x : Diagnostic} {d : Dialect}

/-- Both ends of a span are between two characters of the source. -/
def Cuts (s : Source) (span : Span) : Prop := s.IsBoundary span.start ∧ s.IsBoundary span.stop

theorem cuts_ofWidth (h : s.text = a ++ b ++ c) : s.Cuts (.ofWidth (Text.width a) (Text.width b)) :=
  ⟨⟨a, b ++ c, by rw [h, List.append_assoc], rfl⟩, ⟨a ++ b, c, h, Text.width_append a b⟩⟩

theorem cuts_empty (h : s.text = a ++ b) : s.Cuts (.empty (Text.width a)) :=
  ⟨⟨a, b, h, rfl⟩, ⟨a, b, h, rfl⟩⟩

/-- What pieces of trivia show is about whole pieces. -/
theorem cuts_of_mem_reports {f : Trivia → Option Problem} {ps : List Trivia}
    (h : s.text = a ++ Trivia.render ps ++ c)
    (hx : x ∈ Trivia.reports f (Text.width a) ps) : s.Cuts x.span := by
  induction ps generalizing a with
  | nil => cases hx
  | cons p ps ih =>
    have hp : s.text = a ++ p.text ++ (Trivia.render ps ++ c) := by
      rw [h]
      simp [Trivia.render]
    rw [Trivia.reports_cons, List.mem_append] at hx
    rcases hx with hx | hx
    · obtain ⟨y, -, rfl⟩ := Option.map_eq_some_iff.1 (Option.mem_toList.1 hx)
      exact cuts_ofWidth hp
    · have hnext : Text.width a + p.width = Text.width (a ++ p.text) :=
        (Text.width_append a p.text).symm
      rw [hnext] at hx
      exact ih (by rw [hp]; simp) hx

/-- What a token shows is about whole pieces of trivia or about its text. -/
theorem cuts_of_mem_diagnosticsAt {t : Token} (h : s.text = a ++ t.render ++ c)
    (hx : x ∈ t.diagnosticsAt d (Text.width a)) : s.Cuts x.span := by
  have hlead : Text.width a + t.leadingWidth = Text.width (a ++ Trivia.render t.leading) := by
    rw [Text.width_append, Trivia.width_render, Token.leadingWidth]
  have htext : s.text = a ++ Trivia.render t.leading ++ t.text ++
      (Trivia.render t.trailing ++ c) := by
    rw [h, Token.render]
    simp
  rw [Token.diagnosticsAt, hlead, List.mem_append, List.mem_append] at hx
  rcases hx with (hx | hx) | hx
  · exact cuts_of_mem_reports (htext.trans (List.append_assoc _ _ _)) hx
  · split at hx
    · rw [List.mem_singleton.1 hx]
      exact cuts_ofWidth htext
    · cases hx
  · rw [Token.width, ← Text.width_append] at hx
    exact cuts_of_mem_reports (htext.trans (List.append_assoc _ _ _).symm) hx

theorem cuts_of_mem_diagnosticsAll {ts : List Token} (h : s.text = a ++ Token.renderAll ts ++ c)
    (hx : x ∈ Token.diagnosticsAll d (Text.width a) ts) : s.Cuts x.span := by
  induction ts generalizing a with
  | nil => cases hx
  | cons t ts ih =>
    have ht : s.text = a ++ t.render ++ (Token.renderAll ts ++ c) := by
      rw [h]
      simp
    rw [Token.diagnosticsAll_cons, List.mem_append] at hx
    rcases hx with hx | hx
    · exact cuts_of_mem_diagnosticsAt ht hx
    · rw [← Token.width_render, ← Text.width_append] at hx
      exact ih (by rw [ht]; simp) hx

end Source

/-- What the reader has handed on and what it still holds make up the source, and all that it has
reported begins and ends between two characters. -/
structure Cursor.Locates (c : Cursor) (source : Source) : Prop where
  held : ∃ a, source.text = a ++ c.text ∧ c.StartsAt (Text.width a)
  reports : ∀ x ∈ c.reported, source.Cuts x.span

variable {source : Source} {d : Dialect} {s s' : Scope} {c c' : Cursor} {ls : List Leaf}
  {fs : List Fate}

theorem Cursor.Locates.cuts_offset (h : c.Locates source) : source.Cuts (.empty c.offset) := by
  obtain ⟨a, ha, hstart⟩ := h.held
  have hoffset : c.offset = Text.width (a ++ Trivia.render c.pending) := by
    rw [Text.width_append, Trivia.width_render]
    exact hstart
  rw [hoffset]
  refine Source.cuts_empty (b := Line.join c.lines) ?_
  rw [ha, text, List.append_assoc]

/-- What a skipped line or a kept one is reported for is on the line. -/
theorem Cursor.Locates.cuts_ahead {a : Ahead} (h : c.Locates source) (ha : d.peek? c = some a) :
    source.Cuts (.ofWidth a.cursor.offset (Text.width (Text.trimEnd a.line.content))) ∧
      ∀ ts es, Kept d a ts es → ∀ x ∈ es.filterMap Event.diagnostic?, source.Cuts x.span := by
  obtain ⟨p, hp, hstart⟩ := h.held
  have hstart := Dialect.startsAt_of_peek? ha hstart
  rw [Dialect.text_of_peek? ha] at hp
  constructor
  · have hoffset : a.cursor.offset = Text.width (p ++ Trivia.render a.cursor.pending) := by
      rw [Text.width_append, Trivia.width_render]
      exact hstart
    rw [hoffset]
    have hfull : a.line.full = Text.trimEnd a.line.content ++
        (Text.trailingBlanks a.line.content ++ a.line.ending) := by
      rw [Line.full, ← List.append_assoc, Text.trimEnd_append_trailingBlanks]
    refine Source.cuts_ofWidth (c := Text.trailingBlanks a.line.content ++ a.line.ending ++
      Line.join a.cursor.lines.tail) ?_
    rw [hp, hfull]
    simp only [List.append_assoc]
  · intro ts es kept x hx
    have htext : source.text = p ++ Token.renderAll ts ++ Line.join a.cursor.lines.tail := by
      rw [hp, kept.render]
      simp
    have hshown : x ∈ Token.diagnosticsAll d (Text.width p) ts := by
      rw [kept.shows _ hstart.symm]
      exact List.mem_append_right _ hx
    exact Source.cuts_of_mem_diagnosticsAll htext hshown

/-- Every move reports at boundaries of the source only. -/
theorem Move.locates (h : Move d s c ls fs s' c') (hc : c.Locates source) : c'.Locates source := by
  obtain ⟨a, ha, hstart⟩ := hc.held
  refine ⟨⟨a ++ Token.renderAll (Leaf.tokensAll ls), ?_, ?_⟩, ?_⟩
  · rw [ha, ← h.render, List.append_assoc]
  · rw [Text.width_append]
    exact h.startsAt hstart
  · have hnew {es : List Event} (hes : c'.reported = c.reported ++ es.filterMap Event.diagnostic?)
        (hcuts : ∀ x ∈ es.filterMap Event.diagnostic?, source.Cuts x.span) :
        ∀ x ∈ c'.reported, source.Cuts x.span := by
      rw [hes]
      exact List.forall_mem_append.2 ⟨hc.reports, hcuts⟩
    have hlack (k : Kind) : ∀ x ∈ [Event.missing c.offset k].filterMap Event.diagnostic?,
        source.Cuts x.span := List.forall_mem_singleton.2 hc.cuts_offset
    cases h with
    | advance => exact hc.reports
    | @skip a ahead _ =>
      have hskipped : ∀ x ∈ [Event.skippedLine _ a.kind.describe].filterMap Event.diagnostic?,
          source.Cuts x.span := List.forall_mem_singleton.2 (hc.cuts_ahead ahead).1
      refine hnew ?_ hskipped
      rw [← Dialect.reported_of_peek? ahead]
      exact List.filterMap_append
    | keep ahead _ kept =>
      refine hnew ?_ ((hc.cuts_ahead ahead).2 _ _ kept)
      rw [← Dialect.reported_of_peek? ahead]
      exact List.filterMap_append
    | imply => exact hnew List.filterMap_append (hlack .featureKeyword)
    | content => exact hc.reports
    | unclosed => exact hnew List.filterMap_append (hlack .docStringDelimiterToken)

theorem Run.locates (h : Run d s c ls fs s' c') (hc : c.Locates source) : c'.Locates source := by
  induction h with
  | done => exact hc
  | move first _ ih => exact ih (first.locates hc)

theorem Preamble.locates_cursor (d : Dialect) (source : Source) :
    (read d 0 (Line.split source.text)).cursor.Locates source := by
  have hrender : source.text = [] ++ (read d 0 (Line.split source.text)).cursor.text := by
    rw [Cursor.text, cursor, render_read, Line.join_split, List.nil_append]
  refine ⟨⟨[], hrender, (Nat.zero_add _).symm⟩, fun x hx => ?_⟩
  change x ∈ (read d 0 (Line.split source.text)).events.filterMap Event.diagnostic? at hx
  rw [diagnostics_read d d] at hx
  exact Source.cuts_of_mem_reports (hrender.trans (List.append_assoc _ _ _).symm) hx

/-- The ends of every diagnostic are between two characters of the source. -/
theorem FeatureFile.cuts_of_mem_diagnostics {o : Options} {text : Text} {x : Diagnostic}
    (h : x ∈ (parse o text).diagnostics) : (parse o text).source.Cuts x.span := by
  obtain ⟨ls, fs, s, c, hrun, -, hevents, -⟩ := exists_run o.dialect text
  have hmem : x ∈ (GherkinTree.parse o.dialect text).events.filterMap Event.diagnostic? :=
    List.mem_mergeSort.1 h
  rw [hevents] at hmem
  exact (hrun.locates (Preamble.locates_cursor o.dialect ⟨text⟩)).reports x hmem

/-- Positions are exact. At each boundary of a source the position counts the line feeds in front of
it and the characters on its line, and the boundary is found again from it; so positions follow the
order of the boundaries, and every offset behind the end has the position of the end. All positions
are the ones found in the table of line starts. The ends of the diagnostics of a document, whatever
its options, are boundaries in order. -/
theorem Source.position_exact (s : Source) :
    (∀ t u, s.text = t ++ u → s.PositionBehind t (s.position (Text.width t))) ∧
      (∀ o o', s.IsBoundary o → s.IsBoundary o' → o < o' →
        (s.position o).Before (s.position o')) ∧
      (∀ o, s.width ≤ o → s.position o = s.position s.width) ∧
      (∀ o, s.position o = s.lookup o) ∧
      ∀ (options : Options), ∀ x ∈ (FeatureFile.parse options s.text).diagnostics,
        let ends := (FeatureFile.parse options s.text).location x.span
        s.IsBoundary x.span.start ∧ s.IsBoundary x.span.stop ∧
          (ends.1 = ends.2 ∨ ends.1.Before ends.2) := by
  refine ⟨fun t u h => positionBehind_position h, fun o o' ho ho' h => before_position ho ho' h,
    fun o h => ?_, s.position_eq_lookup, fun options x hx => ?_⟩
  · rw [position_of_width_le h, position_of_width_le (Nat.le_refl _)]
  · obtain ⟨hstart, hstop⟩ : s.Cuts x.span := FeatureFile.cuts_of_mem_diagnostics hx
    refine ⟨hstart, hstop, ?_⟩
    rcases Nat.eq_or_lt_of_le x.span.ordered with h | h
    · exact .inl (congrArg s.position h)
    · exact .inr (before_position hstart hstop h)

end GherkinTree
