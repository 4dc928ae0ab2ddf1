import GherkinTree.Proofs.KeywordTable
import GherkinTree.Proofs.Ledger
import GherkinTree.Proofs.Recovery
import Mathlib

/-!
What the tree of a document says about the document. The problems that it shows are the diagnostics
of the document. A line is kept if a token of the tree begins where the line does, and skipped if a
piece of skipped text does. Main statements: the diagnostics are exactly what the tree shows, in
strict order; outside the bodies of doc strings every line that is neither blank nor a comment is
either kept or skipped and opens with what its kind tells; it is kept exactly if it fits between the
lines above and below it.
-/

namespace GherkinTree

namespace Span

/-- Two spans have a byte in common. -/
def Overlaps (s t : Span) : Prop := s.start < t.stop ∧ t.start < s.stop

end Span

namespace SourceLine

/-- The bytes of the line and its line break. -/
def span (l : SourceLine) : Span := .ofWidth l.offset l.line.width

end SourceLine

namespace PlacedToken

/-- The spans of the skipped text in front of a token and behind it. -/
def skippedSpans (t : PlacedToken) : List Span :=
  ((t.token.leading.zip t.leadingSpans ++ t.token.trailing.zip t.trailingSpans).filter
    fun p => p.1.kind == .skippedText).map Prod.snd

end PlacedToken

namespace FeatureFile

/-- The lines of the source. -/
def lines (f : FeatureFile) : List SourceLine := SourceLine.ofText f.source.text

theorem pairwise_lines (f : FeatureFile) : f.lines.Pairwise fun a b => a.stop ≤ b.offset :=
  SourceLine.pairwise_listFrom 0 _

/-- Whether a line stands between the fences of a doc string. -/
def inBody (f : FeatureFile) (l : SourceLine) : Bool := f.bodies.any (·.contains l.offset)

/-- The lines outside doc strings that are neither blank nor comments. -/
def significantLines (f : FeatureFile) : List SourceLine :=
  f.lines.filter fun l => !l.isTrivial && !f.inBody l

/-- The kind of a line in the dialect of the document. -/
def kindOf (f : FeatureFile) (l : SourceLine) : LineKind := f.dialect.classify l.body

/-- The spans of all skipped text. -/
def skippedSpans (f : FeatureFile) : List Span :=
  f.root.descendantTokens.flatMap PlacedToken.skippedSpans

/-- A token that the source has begins where the line does. -/
def Keeps (f : FeatureFile) (l : SourceLine) : Prop :=
  ∃ t ∈ f.root.descendantTokens, t.token.missing = false ∧ t.span.start = l.start

/-- Skipped text begins where the line does. -/
def Skips (f : FeatureFile) (l : SourceLine) : Prop := ∃ s ∈ f.skippedSpans, s.start = l.start

/-- The line opens with the token that its kind tells. -/
def Opens (f : FeatureFile) (l : SourceLine) : Prop :=
  ∃ t ∈ f.root.descendantTokens, t.token.missing = false ∧ t.span.start = l.start ∧
    (f.kindOf l).Opens l.body t.token

end FeatureFile

section Skipped

theorem Trivia.mem_located_iff {problem : Trivia → Option Problem}
    (h : ∀ p, (∃ found, problem p = some (.unexpectedContent found)) ↔ p.kind = .skippedText)
    {ps : List Trivia} {spans : List Span} {s : Span} :
    (∃ x ∈ located problem ps spans, x.IsUnexpected ∧ x.span = s) ↔
      s ∈ ((ps.zip spans).filter fun p => p.1.kind == .skippedText).map Prod.snd := by
  constructor
  · rintro ⟨x, hx, ⟨found, hfound⟩, rfl⟩
    obtain ⟨p, hp, he⟩ := List.mem_filterMap.1 hx
    obtain ⟨y, hy, rfl⟩ := Option.map_eq_some_iff.1 he
    have hk := (h p.1).1 ⟨found, hy.trans (congrArg some hfound)⟩
    exact List.mem_map.2 ⟨p, List.mem_filter.2 ⟨hp, by simp [hk]⟩, rfl⟩
  · intro hs
    obtain ⟨p, hp, rfl⟩ := List.mem_map.1 hs
    obtain ⟨hp, hk⟩ := List.mem_filter.1 hp
    obtain ⟨found, hy⟩ := (h p.1).2 (by simpa using hk)
    exact ⟨⟨p.2, .unexpectedContent found⟩, List.mem_filterMap.2 ⟨p, hp, by rw [hy]; rfl⟩,
      ⟨found, rfl⟩, rfl⟩

theorem Trivia.problem?_unexpected (d : Dialect) (p : Trivia) :
    (∃ found, problem? d p = some (.unexpectedContent found)) ↔ p.kind = .skippedText := by
  unfold problem?
  cases hk : p.kind with
  | languageDirective =>
    cases p.language? with
    | none => simp
    | some code => simp only [Option.bind_some]; split <;> simp
  | _ => simp

theorem Trivia.problemBehind?_unexpected (p : Trivia) :
    (∃ found, problemBehind? p = some (.unexpectedContent found)) ↔ p.kind = .skippedText := by
  by_cases hk : p.kind = .skippedText <;> simp [problemBehind?, hk]

theorem PlacedToken.mem_skippedSpans_iff (d : Dialect) (t : PlacedToken) (s : Span) :
    s ∈ t.skippedSpans ↔ ∃ x ∈ t.diagnostics d, x.IsUnexpected ∧ x.span = s := by
  have hlack : ¬∃ x ∈ (if t.token.isReported then
      [(⟨t.span, .missingToken t.kind⟩ : Diagnostic)] else []), x.IsUnexpected ∧ x.span = s := by
    rintro ⟨x, hx, ⟨found, hu⟩, -⟩
    split at hx
    · rw [List.mem_singleton.1 hx] at hu
      cases hu
    · cases hx
  simp only [diagnostics, List.mem_append, or_and_right, exists_or, hlack, or_false]
  rw [Trivia.mem_located_iff (Trivia.problem?_unexpected d),
    Trivia.mem_located_iff Trivia.problemBehind?_unexpected, skippedSpans, List.filter_append,
    List.map_append, List.mem_append]

/-- Skipped text is what the tree shows as unexpected. -/
theorem FeatureFile.mem_skippedSpans_iff (f : FeatureFile) (s : Span) :
    s ∈ f.skippedSpans ↔ ∃ x ∈ f.shownDiagnostics, x.IsUnexpected ∧ x.span = s := by
  constructor
  · intro h
    obtain ⟨t, ht, hs⟩ := List.mem_flatMap.1 h
    obtain ⟨x, hx, hu⟩ := (t.mem_skippedSpans_iff f.dialect s).1 hs
    exact ⟨x, List.mem_flatMap.2 ⟨t, ht, hx⟩, hu⟩
  · rintro ⟨x, hx, hu⟩
    obtain ⟨t, ht, hx⟩ := List.mem_flatMap.1 hx
    exact List.mem_flatMap.2 ⟨t, ht, (t.mem_skippedSpans_iff f.dialect s).2 ⟨x, hx, hu⟩⟩

end Skipped

theorem Preamble.not_unexpected (d : Dialect) (o : Nat) (ls : List Line) :
    ∀ x ∈ (read d o ls).events.filterMap Event.diagnostic?, ¬x.IsUnexpected := by
  fun_induction read d o ls with
  | case1 => exact List.forall_mem_nil _
  | case2 d o l ls h hn p ih => exact ih
  | case3 d o l ls h code hc trivia found hf p ih => exact ih
  | case4 d o l ls h code hc trivia e hf span p ih =>
    refine List.forall_mem_cons.2 ⟨?_, ih⟩
    rintro ⟨found, hfound⟩
    cases hfound
  | case5 d o l ls h => exact List.forall_mem_nil _

/-- The ledger of a whole document. Its leaves are those of the run and the end of the file. -/
structure FeatureFile.Record (f : FeatureFile) (ls : List Leaf) (fs : List Fate)
    (es : List Entry) : Prop where
  lines : es.map Entry.line = f.lines
  ledger : Ledger f.dialect 0 ls fs f.shownDiagnostics es
  obeys : Scope.initial.Obeys (Fate.kind f.dialect) Fate.kept fs
  leaves : ∃ pending, f.tree.leaves = ls ++ [.token (.plain .endOfFileToken [] pending [])]
  width : Token.widthAll (Leaf.tokensAll f.tree.leaves) = Text.width f.source.text

theorem FeatureFile.exists_record {o : Options} (ho : o.dialect ∈ Dialect.bundled) (text : Text) :
    ∃ ls fs es, (parse o text).Record ls fs es := by
  obtain ⟨ls, fs, s, c, hrun, hlines, hevents, hleaves⟩ := exists_run o.dialect text
  obtain ⟨ts, rs, hts, htrivial, hfaces⟩ := Faces.preamble o.dialect text
  have hd := Dialect.proper_parse ho text
  have hpos := SourceLine.width_pos_of_mem (o := 0) (Line.width_pos_of_mem_split text)
  change ∀ l ∈ SourceLine.ofText text, _ at hpos
  rw [hts] at hpos
  obtain ⟨es, rs', ds, rfl, hfaces', hds, hledger⟩ := hrun.ledger hd (Nat.zero_add _).symm hfaces
    fun l hl => hpos l (List.mem_append_right _ hl)
  rw [hfaces'.nil_of_lines hlines, List.append_nil] at hts
  refine ⟨ls, fs, Ledger.triviaOf ts ++ es, ?_, ?_, hrun.obeys hlines, ⟨_, hleaves⟩, ?_⟩
  · rw [List.map_append, Ledger.map_line_triviaOf]
    exact hts.symm
  · rw [shownDiagnostics_eq_reported ho, hevents]
    change Ledger _ _ _ _ c.reported _
    rw [hds]
    exact (Ledger.of_preamble _ 0 htrivial (Preamble.not_unexpected _ 0 _)).append hledger
  · rw [Token.widthAll]
    exact congrArg Text.width (render_root_parse o.dialect text)

/-- The tokens of the tree are those of its leaves. -/
theorem FeatureFile.mem_sites_iff (f : FeatureFile) (x : Nat × Token) :
    (∃ t ∈ f.root.descendantTokens, t.site = x) ↔
      x ∈ Token.sites 0 (Leaf.tokensAll f.tree.leaves) := by
  rw [← List.mem_map, f.root.sites_descendantTokens, Node.leaves, Element.tokensAll_leaves,
    Node.toElement, Element.tokens_node]
  rfl

namespace FeatureFile.Record

variable {f : FeatureFile} {ls : List Leaf} {fs : List Fate} {es : List Entry} {e : Entry}

theorem mem_lines (h : f.Record ls fs es) {l : SourceLine} :
    l ∈ f.lines ↔ ∃ e ∈ es, e.line = l := by
  rw [← h.lines, List.mem_map]

theorem offset_lt_stop (h : f.Record ls fs es) (he : e ∈ es) : e.line.offset < e.line.stop := by
  have hpos := SourceLine.width_pos_of_mem (Line.width_pos_of_mem_split f.source.text) e.line
    (h.mem_lines.2 ⟨e, he, rfl⟩)
  simp only [SourceLine.stop]
  omega

/-- Two lines have nothing in common. -/
theorem apart (h : f.Record ls fs es) {y : Entry} (he : e ∈ es) (hy : y ∈ es) (hne : e ≠ y) :
    e.line.stop ≤ y.line.offset ∨ y.line.stop ≤ e.line.offset := by
  have hlines := f.pairwise_lines
  rw [← h.lines, List.pairwise_map] at hlines
  have hapart : es.Pairwise fun a b =>
      a.line.stop ≤ b.line.offset ∨ b.line.stop ≤ a.line.offset := hlines.imp Or.inl
  have hsymm : Std.Symm fun a b : Entry =>
      a.line.stop ≤ b.line.offset ∨ b.line.stop ≤ a.line.offset := ⟨fun _ _ hab => hab.symm⟩
  exact hapart.forall he hy hne

theorem mem_bodies_iff (h : f.Record ls fs es) (sp : Span) :
    sp ∈ f.bodies ↔ sp ∈ Leaf.bodies 0 ls := by
  obtain ⟨pending, hleaves⟩ := h.leaves
  rw [f.bodies_eq, ← Element.mem_bodies_leaves]
  change sp ∈ Leaf.bodies 0 f.tree.leaves ↔ _
  rw [hleaves, Leaf.bodies_append]
  simp [Leaf.bodies]

/-- A line that is no content has nothing in common with any body. -/
theorem apart_body (h : f.Record ls fs es) (he : e ∈ es) (hv : e.verdict ≠ .content) {sp : Span}
    (hsp : sp ∈ f.bodies) : e.line.stop ≤ sp.start ∨ sp.stop ≤ e.line.offset := by
  obtain ⟨es₁, bs, es₂, rfl, hbs, y, hy, z, hz, hstart, hstop⟩ :=
    h.ledger.bodies sp ((h.mem_bodies_iff sp).1 hsp)
  have hlines := f.pairwise_lines
  rw [← h.lines, List.pairwise_map, List.pairwise_append, List.pairwise_append] at hlines
  obtain ⟨⟨-, -, h₁⟩, -, h₂⟩ := hlines
  rw [hstart, hstop]
  rcases List.mem_append.1 he with he | he
  · rcases List.mem_append.1 he with he | he
    · exact .inl (h₁ e he y hy)
    · exact absurd (hbs e he) hv
  · exact .inr (h₂ z (List.mem_append_right _ hz) e he)

theorem inBody_iff (h : f.Record ls fs es) (he : e ∈ es) :
    f.inBody e.line = true ↔ e.verdict = .content := by
  have hlt := h.offset_lt_stop he
  simp only [inBody, List.any_eq_true, Span.contains, Bool.and_eq_true, decide_eq_true_eq]
  constructor
  · rintro ⟨sp, hsp, hin⟩
    by_contra hv
    have := h.apart_body he hv hsp
    omega
  · intro hv
    obtain ⟨sp, hsp, hin⟩ := h.ledger.contents e he hv
    exact ⟨sp, (h.mem_bodies_iff sp).2 hsp, hin.1, by omega⟩

/-- A token with some text lies in a kept line or in a body. -/
theorem token_cases (h : f.Record ls fs es) {t : PlacedToken} (ht : t ∈ f.root.descendantTokens)
    (hne : t.token.text ≠ []) :
    (∃ e ∈ es, e.verdict = .kept ∧ e.line.start ≤ t.span.start ∧ t.span.stop ≤ e.line.stop) ∨
      ∃ sp ∈ f.bodies, sp.start ≤ t.span.start ∧ t.span.stop ≤ sp.stop := by
  have hsite := (f.mem_sites_iff t.site).1 ⟨t, ht, rfl⟩
  obtain ⟨pending, hleaves⟩ := h.leaves
  rw [hleaves, Leaf.tokensAll_append, Token.sites_append, List.mem_append] at hsite
  rcases hsite with hsite | hsite
  · rcases h.ledger.tokens t.site hsite hne with hin | ⟨sp, hsp, hin⟩
    · exact .inl hin
    · exact .inr ⟨sp, (h.mem_bodies_iff sp).2 hsp, hin⟩
  · have htok := congrArg Prod.snd (List.mem_singleton.1 hsite)
    exact absurd (congrArg Token.text htok) hne

/-- A token that the source has holds some text, or the document ends with it. -/
theorem solid (h : f.Record ls fs es) {t : PlacedToken} (ht : t ∈ f.root.descendantTokens)
    (hm : t.token.missing = false) :
    t.token.text ≠ [] ∨ t.span.start = Text.width f.source.text := by
  have hsite := (f.mem_sites_iff t.site).1 ⟨t, ht, rfl⟩
  have hwidth := h.width
  obtain ⟨pending, hleaves⟩ := h.leaves
  rw [hleaves, Leaf.tokensAll_append, Token.sites_append, List.mem_append] at hsite
  rw [hleaves, Leaf.tokensAll_append, Token.widthAll_append] at hwidth
  rcases hsite with hsite | hsite
  · exact .inl (h.ledger.solid _ (Token.mem_of_mem_sites hsite) hm)
  · have he := List.mem_singleton.1 hsite
    have hoff : t.offset = _ := congrArg Prod.fst he
    have htok : t.token = _ := congrArg Prod.snd he
    refine .inr ?_
    rw [PlacedToken.span, Span.start_ofWidth, hoff, htok, ← hwidth]
    simp [Leaf.tokens, Token.plain, Token.fullWidth, Token.leadingWidth, Token.width,
      Token.trailingWidth]

theorem isTrivial_of_significant (h : f.Record ls fs es) (he : e ∈ es)
    (hv : e.verdict.isSignificant = true) : e.line.isTrivial = false := by
  rw [Bool.eq_false_iff]
  intro ht
  rw [(h.ledger.trivia e he (Verdict.ne_content hv)).2 ht] at hv
  cases hv

/-- Only one line holds an offset. -/
theorem eq_of_offset (h : f.Record ls fs es) {y : Entry} (he : e ∈ es) (hy : y ∈ es) {n : Nat}
    (hen : e.line.offset ≤ n ∧ n < e.line.stop) (hyn : y.line.offset ≤ n ∧ n < y.line.stop) :
    e = y := by
  by_contra hne
  have := h.apart he hy hne
  omega

/-- No text of a token reaches into a blank line or a comment. -/
theorem not_overlaps (h : f.Record ls fs es) (he : e ∈ es) (hv : e.verdict = .trivia)
    {t : PlacedToken} (ht : t ∈ f.root.descendantTokens) (hne : t.token.text ≠ []) :
    ¬t.span.Overlaps e.line.span := by
  rintro ⟨h₁, h₂⟩
  change t.span.start < e.line.stop at h₁
  change e.line.offset < t.span.stop at h₂
  rcases h.token_cases ht hne with ⟨y, hy, hkept, hin⟩ | ⟨sp, hsp, hin⟩
  · have hey : e ≠ y := by
      rintro rfl
      rw [hv] at hkept
      cases hkept
    have := h.apart he hy hey
    have := y.line.offset_le_start
    omega
  · have hcontent : e.verdict ≠ .content := by simp [hv]
    have := h.apart_body he hcontent hsp
    omega

theorem opens_of_kept (h : f.Record ls fs es) (he : e ∈ es) (hv : e.verdict = .kept) :
    f.Opens e.line := by
  obtain ⟨x, hx, hm, hstart, hopens⟩ := h.ledger.opens e he hv
  obtain ⟨pending, hleaves⟩ := h.leaves
  have hmem : x ∈ Token.sites 0 (Leaf.tokensAll f.tree.leaves) := by
    rw [hleaves, Leaf.tokensAll_append, Token.sites_append, List.mem_append]
    exact .inl hx
  obtain ⟨t, ht, rfl⟩ := (f.mem_sites_iff x).2 hmem
  exact ⟨t, ht, hm, hstart, hopens⟩

/-- A significant line that a token begins with is kept. -/
theorem keeps_iff (h : f.Record ls fs es) (he : e ∈ es) (hc : e.verdict ≠ .content)
    (hl : e.line.isTrivial = false) : f.Keeps e.line ↔ e.verdict = .kept := by
  constructor
  · rintro ⟨t, ht, hm, hstart⟩
    have hlt := SourceLine.start_lt_stop hl
    have hle := e.line.offset_le_start
    have hend : e.line.stop ≤ Text.width f.source.text := by
      have := (SourceLine.bounds_of_mem_listFrom (h.mem_lines.2 ⟨e, he, rfl⟩)).2
      rwa [Line.join_split, Nat.zero_add] at this
    rcases h.solid ht hm with hne | heof
    · have hwidth : t.span.start < t.span.stop := by
        have hpos : 0 < t.token.width :=
          Nat.pos_of_ne_zero fun hz => hne ((Text.width_eq_zero_iff _).1 hz)
        change t.span.start < t.span.start + t.token.width
        omega
      rcases h.token_cases ht hne with ⟨y, hy, hkept, hin⟩ | ⟨sp, hsp, hin⟩
      · have := y.line.offset_le_start
        rw [h.eq_of_offset he hy (n := e.line.start) (by omega) (by omega)]
        exact hkept
      · have := h.apart_body he hc hsp
        omega
    · omega
  · intro hv
    obtain ⟨t, ht, hm, hstart, -⟩ := h.opens_of_kept he hv
    exact ⟨t, ht, hm, hstart⟩

theorem skips_of_skipped (h : f.Record ls fs es) (he : e ∈ es) (hv : e.verdict = .skipped) :
    e.line.trimmedSpan ∈ f.skippedSpans :=
  (f.mem_skippedSpans_iff _).2 (h.ledger.skips e he hv)

/-- A significant line that skipped text begins with is skipped. -/
theorem skips_iff (h : f.Record ls fs es) (he : e ∈ es) (hl : e.line.isTrivial = false) :
    f.Skips e.line ↔ e.verdict = .skipped := by
  constructor
  · rintro ⟨sp, hsp, hstart⟩
    have hlt := SourceLine.start_lt_stop hl
    have hle := e.line.offset_le_start
    obtain ⟨x, hx, hu, rfl⟩ := (f.mem_skippedSpans_iff sp).1 hsp
    rcases h.ledger.unexpected x hx hu with ⟨y, hy, hskip, hspan⟩ | ⟨y, hy, -, hin⟩
    · have hy' : y.line.start = e.line.start := by
        rw [← hstart, hspan]
        rfl
      have := y.line.offset_le_start
      have : y.line.start < y.line.stop := by
        apply SourceLine.start_lt_stop
        apply h.isTrivial_of_significant hy
        rw [hskip]
        rfl
      rw [h.eq_of_offset he hy (n := e.line.start) (by omega) (by omega)]
      exact hskip
    · have := y.line.offset_le_start
      have hey := h.eq_of_offset he hy (n := e.line.start) (by omega) (by omega)
      rw [← hey] at hin
      omega
  · exact fun hv => ⟨_, h.skips_of_skipped he hv, rfl⟩

/-- The significant lines are those that the ledger enters as kept or skipped. -/
theorem significantLines_eq (h : f.Record ls fs es) :
    f.significantLines = (es.filter (·.verdict.isSignificant)).map Entry.line := by
  rw [significantLines, ← h.lines, List.filter_map]
  congr 1
  refine List.filter_congr fun e he => ?_
  have hbody := h.inBody_iff he
  have htrivia := h.ledger.trivia e he
  cases hv : e.verdict <;> simp_all [Verdict.isSignificant]

end FeatureFile.Record

/-- The diagnostics of a document are exactly those that its tree shows: walking the tokens, the
problems of the trivia in front of each, its own lack and the problems of the trivia behind it. No
two of them have the same span, and their spans are in order. -/
theorem FeatureFile.shownDiagnostics_parse {o : Options} (ho : o.dialect ∈ Dialect.bundled)
    (text : Text) :
    (parse o text).shownDiagnostics = (parse o text).diagnostics ∧
      (parse o text).diagnostics.Pairwise fun x y => x.span.Before y.span := by
  have hsorted := (reported_parse ho text).2
  have hdiag : (parse o text).diagnostics =
      (GherkinTree.parse o.dialect text).events.filterMap Event.diagnostic? :=
    Diagnostic.sortByPosition_of_pairwise hsorted
  rw [hdiag]
  exact ⟨shownDiagnostics_eq_reported ho text, hsorted⟩

theorem FeatureFile.shownDiagnostics_parse_rule :
    let f := parse .default "Scenario: s\n@a b\nRule: r\nGiven y\n".toList
    Options.default.dialect ∈ Dialect.bundled ∧
      (f.shownDiagnostics = f.diagnostics ∧
        f.diagnostics.Pairwise fun x y => x.span.Before y.span) ∧
      f.diagnostics.map (·.problem.code) = ["GHK1001", "GHK1002", "GHK1002"] :=
  ⟨Dialect.english_mem_bundled, shownDiagnostics_parse Dialect.english_mem_bundled _, by
    rw [Options.default_eq]
    cbv⟩

/-- A line outside doc strings is faithful to its kind. No text of a token reaches into a blank line
or a comment. Any other line is either skipped, from its first character that is no blank to its
last, or opens with the token that its kind in the dialect of the document tells, never both. -/
theorem FeatureFile.classified_parse {o : Options} (ho : o.dialect ∈ Dialect.bundled) (text : Text)
    {l : SourceLine} (hl : l ∈ (parse o text).lines) (hb : (parse o text).inBody l = false) :
    (l.isTrivial = true → ∀ t ∈ (parse o text).root.descendantTokens, t.token.text ≠ [] →
        ¬t.span.Overlaps l.span) ∧
      (l.isTrivial = false →
        (l.trimmedSpan ∈ (parse o text).skippedSpans ∨ (parse o text).Opens l) ∧
          ¬(l.trimmedSpan ∈ (parse o text).skippedSpans ∧ (parse o text).Opens l)) := by
  obtain ⟨ls, fs, es, h⟩ := exists_record ho text
  obtain ⟨e, he, rfl⟩ := h.mem_lines.1 hl
  have hc : e.verdict ≠ .content := by
    intro hc
    rw [(h.inBody_iff he).2 hc] at hb
    cases hb
  have htrivia := h.ledger.trivia e he hc
  refine ⟨fun ht t => h.not_overlaps he (htrivia.2 ht), fun ht => ⟨?_, ?_⟩⟩
  · cases hv : e.verdict with
    | kept => exact .inr (h.opens_of_kept he hv)
    | skipped => exact .inl (h.skips_of_skipped he hv)
    | trivia => simp [htrivia.1 hv] at ht
    | content => exact absurd hv hc
  · rintro ⟨hskip, t, htoken, hm, hstart, -⟩
    have hv := (h.skips_iff he ht).1 ⟨_, hskip, rfl⟩
    rw [(h.keeps_iff he hc ht).1 ⟨t, htoken, hm, hstart⟩] at hv
    cases hv

theorem FeatureFile.classified_parse_step :
    let f := parse .default "Scenario: s\nBackground: b\nGiven y\n".toList
    let l : SourceLine := ⟨26, ⟨"Given y".toList, ['\n']⟩⟩
    Options.default.dialect ∈ Dialect.bundled ∧ l ∈ f.lines ∧ f.inBody l = false ∧
      (l.isTrivial = true → ∀ t ∈ f.root.descendantTokens, t.token.text ≠ [] →
        ¬t.span.Overlaps l.span) ∧
      (l.isTrivial = false →
        (l.trimmedSpan ∈ f.skippedSpans ∨ f.Opens l) ∧
          ¬(l.trimmedSpan ∈ f.skippedSpans ∧ f.Opens l)) := by
  intro f l
  have hl : l ∈ f.lines := by decide
  have hb : f.inBody l = false := by
    dsimp only [f]
    rw [Options.default_eq]
    cbv
  exact ⟨Dialect.english_mem_bundled, hl, hb,
    classified_parse Dialect.english_mem_bundled _ hl hb⟩

/-- Between the fences of a doc string a line need not be faithful to its kind, not even where no
literal content stands: in an outline, a placeholder opens with a token of its own. -/
theorem FeatureFile.placeholder_not_classified :
    let f := parse .default "Scenario Outline: x\nGiven a\n\"\"\"\n<b>\n\"\"\"\n".toList
    let l : SourceLine := ⟨32, ⟨"<b>".toList, ['\n']⟩⟩
    l ∈ f.lines ∧ l.isTrivial = false ∧
      (∀ t ∈ f.root.descendantTokens, t.kind = .docStringContentToken →
        ¬t.span.Overlaps l.trimmedSpan) ∧
      l.trimmedSpan ∉ f.skippedSpans ∧ ¬f.Opens l := by
  intro f l
  -- one evaluation of the document gives all that is needed of it
  have hfacts : (f.skippedSpans == [] && f.kindOf l == .text && f.root.descendantTokens.all fun t =>
      (t.kind != .docStringContentToken || decide (35 ≤ t.span.start)) &&
        (t.kind != .literalToken || t.span.start != 32)) = true := by
    dsimp only [f]
    rw [Options.default_eq]
    cbv
  simp only [Bool.and_eq_true, beq_iff_eq, List.all_eq_true] at hfacts
  obtain ⟨⟨hskipped, hkind⟩, htokens⟩ := hfacts
  refine ⟨by decide, by decide, fun t ht hk hover => ?_, by simp [hskipped], ?_⟩
  · have hstart : 35 ≤ t.span.start := by simpa [hk] using htokens t ht
    exact absurd (Nat.lt_of_le_of_lt hstart hover.1) (by decide)
  · rintro ⟨t, ht, -, hstart, hopens⟩
    rw [hkind] at hopens
    have hl : l.start = 32 := by decide
    have hliteral : t.kind = .literalToken := hopens.1
    have := htokens t ht
    simp [hliteral, hstart, hl] at this

/-- Recovery keeps and skips exactly the right lines: of the lines outside doc strings that are neither
blank nor comments, those are kept that fit between the lines above and below them, and all others
are skipped. -/
theorem FeatureFile.keeps_parse {o : Options} (ho : o.dialect ∈ Dialect.bundled) (text : Text)
    {above below : List SourceLine} {l : SourceLine}
    (hl : (parse o text).significantLines = above ++ l :: below) :
    ((parse o text).Keeps l ↔
        Fits (parse o text).kindOf (parse o text).Keeps above l below) ∧
      ((parse o text).Skips l ↔ ¬(parse o text).Keeps l) := by
  classical
  obtain ⟨ls, fs, es, h⟩ := exists_record ho text
  have hkeeps : ∀ e ∈ es.filter (·.verdict.isSignificant),
      (e.verdict == .kept) = decide ((parse o text).Keeps e.line) := by
    intro e he
    obtain ⟨he, hv⟩ := List.mem_filter.1 he
    rw [Bool.eq_iff_iff, beq_iff_eq, decide_eq_true_iff,
      h.keeps_iff he (Verdict.ne_content hv) (h.isTrivial_of_significant he hv)]
  have hobeys := h.obeys
  rw [h.ledger.fates, Scope.obeys_map] at hobeys
  have hobeys := hobeys.congr hkeeps
  constructor
  · have hlines : Scope.initial.Obeys (parse o text).kindOf
        (fun l => decide ((parse o text).Keeps l)) (above ++ l :: below) := by
      rw [← hl, h.significantLines_eq, Scope.obeys_map]
      exact hobeys
    simpa using hlines.kept_iff_fits
  · have hmem : l ∈ (parse o text).significantLines := by simp [hl]
    rw [h.significantLines_eq] at hmem
    obtain ⟨e, he, rfl⟩ := List.mem_map.1 hmem
    obtain ⟨he, hv⟩ := List.mem_filter.1 he
    have ht := h.isTrivial_of_significant he hv
    rw [h.skips_iff he ht, h.keeps_iff he (Verdict.ne_content hv) ht]
    cases hk : e.verdict <;> simp_all [Verdict.isSignificant]

theorem FeatureFile.keeps_parse_step :
    let f := parse .default "Scenario: s\nBackground: b\nGiven y\n".toList
    let above : List SourceLine :=
      [⟨0, ⟨"Scenario: s".toList, ['\n']⟩⟩, ⟨12, ⟨"Background: b".toList, ['\n']⟩⟩]
    let l : SourceLine := ⟨26, ⟨"Given y".toList, ['\n']⟩⟩
    Options.default.dialect ∈ Dialect.bundled ∧ f.significantLines = above ++ l :: [] ∧
      (f.Keeps l ↔ Fits f.kindOf f.Keeps above l []) ∧ (f.Skips l ↔ ¬f.Keeps l) := by
  intro f above l
  have hl : f.significantLines = above ++ l :: [] := by
    dsimp only [f]
    rw [Options.default_eq]
    cbv
  exact ⟨Dialect.english_mem_bundled, hl, keeps_parse Dialect.english_mem_bundled _ hl⟩

end GherkinTree
