import GherkinTree.Proofs.Accessor
import GherkinTree.Proofs.Directive

/-!
Which language a document is read in. The tree does not depend on what happened before the reader
gets to the first line, so it depends on the default dialect only where no directive selects
another. Main statement: the comments in front of the first token are directives exactly if they
have the form of one, the last of them with a known language selects the dialect, each with an
unknown language is a warning, and behind the first token there are no directives.
-/

namespace GherkinTree

/-- Cursors that differ in nothing but in what has happened. -/
structure Cursor.Alike (c c' : Cursor) : Prop where
  lines : c'.lines = c.lines
  offset : c'.offset = c.offset
  pending : c'.pending = c.pending

theorem Cursor.Alike.advance {c c' : Cursor} (h : c.Alike c') : c.advance.Alike c'.advance where
  lines := by rw [lines_advance, lines_advance, h.lines]
  offset := by rw [offset_advance, offset_advance, h.lines, h.offset]
  pending := by rw [pending_advance, pending_advance, h.lines, h.pending]

open Element Grammar

namespace Twin

/-- One document, read twice from cursors that are alike. -/
def twice : Twin where
  left := id
  right := id
  guard _ _ _ := True
  At _ c c' := c.Alike c'

variable {d : Dialect} {above : Option Kind} {o : Nat} {c c' n n' : Cursor} {a a' : Ahead}
  {es es' : List Element}

theorem gives_of_eq (h : es' = es) (hat : n.Alike n') : twice.Gives above o es es' n n' :=
  fun _ => ⟨by rw [h]; rfl, hat⟩

/-- Both readers face the same line. -/
theorem Faces.line_eq (h : twice.Faces d o c c' a a') : a'.line = a.line := by
  have hlines := h.cursors.lines
  rw [(Dialect.fits_of_peek? h.left).lines, (Dialect.fits_of_peek? h.right).lines] at hlines
  exact (List.cons.inj hlines).1

theorem Faces.take (h : twice.Faces d o c c' a a') (es es' : List Event) :
    (a.take es).Alike (a'.take es') where
  lines := congrArg List.tail h.cursors.lines
  offset := by rw [Ahead.offset_take, Ahead.offset_take, h.cursors.offset, h.line_eq]
  pending := rfl

/-- Cursors that are alike are read from in lockstep. -/
theorem lockstep_twice (d : Dialect) : twice.Lockstep d where
  peek {o c c'} h := by
    have hat := h.advance
    cases hl : c.advance.lines with
    | nil =>
      exact .inl ⟨Dialect.peek?_eq_none_iff.2 hl, Dialect.peek?_eq_none_iff.2 (hat.lines.trans hl)⟩
    | cons m ms =>
      refine .inr ⟨⟨c.advance, m, d.classify m.content⟩, ⟨c'.advance, m, d.classify m.content⟩,
        ?_, ?_, rfl, hat⟩
      · rw [Dialect.peek?, hl]
      · rw [Dialect.peek?, hat.lines, hl]
  role h := Dialect.nextRole?_congr h.lines
  hasExamples h := by rw [h.lines]
  skip {o c c' a a'} h :=
    { lines := congrArg List.tail h.cursors.lines
      offset := by
        change a'.cursor.offset + a'.line.width = a.cursor.offset + a.line.width
        rw [h.cursors.offset, h.line_eq]
      pending := by
        change a'.cursor.pending ++ _ = a.cursor.pending ++ _
        rw [h.cursors.pending, h.line_eq] }
  tagLine {o c c' a a'} h hk :=
    ⟨_, _, _, _, tagLine?_of_tags h.left hk, tagLine?_of_tags h.right (h.kind.trans hk),
      gives_of_eq (by rw [h.line_eq, h.cursors.pending]) (h.take _ _)⟩
  textLine {above o c c' a a'} h hk :=
    ⟨_, _, _, _, textLine?_of_text h.left hk, textLine?_of_text h.right (h.kind.trans hk),
      gives_of_eq (by rw [h.line_eq, h.cursors.pending]) (h.take _ _)⟩
  row {outline o c c' a a'} h hk :=
    ⟨_, _, _, _, row?_of_row outline h.left hk, row?_of_row outline h.right (h.kind.trans hk),
      gives_of_eq (by rw [h.line_eq, h.cursors.pending]) (h.take _ _)⟩
  title {above o c c' a a' m} h hk hm := by
    obtain ⟨-, -, -, heq⟩ := titleLine_eq h.left hk hm
    obtain ⟨-, -, -, heq'⟩ := titleLine_eq h.right (h.kind.trans hk) hm
    rw [heq, heq']
    refine gives_of_eq (congrArg Title.elements ?_) (h.take _ _)
    simp only [titleLine, h.line_eq, h.cursors.pending]
    split <;> rfl
  stepLine {outline o c c' a a' m} h hk _ := by
    obtain ⟨-, es, -, -, heq⟩ := stepLine_eq outline h.left hk
    obtain ⟨-, es', -, -, heq'⟩ := stepLine_eq outline h.right (h.kind.trans hk)
    rw [heq, heq']
    refine gives_of_eq ?_ (h.take _ _)
    simp only [stepLine, h.line_eq, h.cursors.pending]
    split <;> rfl
  docString {outline o c c' a a' f} h hk := by
    have hafter : a'.consume.lines = a.consume.lines := congrArg List.tail h.cursors.lines
    obtain ⟨hlines, hoffset, hpending⟩ := f.cursor_docString outline a
    obtain ⟨hlines', hoffset', hpending'⟩ := f.cursor_docString outline a'
    refine gives_of_eq ?_ ⟨?_, ?_, ?_⟩
    · rw [f.docString_eq, f.docString_eq, hafter, h.line_eq, h.cursors.pending]
    · rw [hlines, hlines', hafter]
    · rw [hoffset, hoffset', hafter, Ahead.offset_consume, Ahead.offset_consume, h.cursors.offset,
        h.line_eq]
    · rw [hpending, hpending']
  imply {above o c c'} h :=
    gives_of_eq (by rw [h.advance.pending]) ⟨h.advance.lines, h.advance.offset, rfl⟩
  eof {above o c c'} h :=
    gives_of_eq (by rw [h.advance.pending]) ⟨h.advance.lines, h.advance.offset, rfl⟩

end Twin

mutual

theorem Element.mapTokens_id : (e : Element) → e.mapTokens id = e
  | token _ => mapTokens_token _ _
  | node k es => by rw [mapTokens_node, mapTokensAll_id es]

theorem Element.mapTokensAll_id : (es : List Element) → mapTokensAll id es = es
  | [] => by simp [mapTokensAll]
  | e :: es => by simp [mapTokensAll, mapTokens_id e, mapTokensAll_id es]

end

theorem Node.toElement_inj {n m : Node} : n.toElement = m.toElement ↔ n = m := by
  refine ⟨fun h => ?_, congrArg Node.toElement⟩
  cases n
  cases m
  cases h
  rfl

/-- The tree does not depend on what has happened before. -/
theorem Grammar.document_congr (d : Dialect) {c c' : Cursor} (h : c.Alike c') :
    (document d c').1 = (document d c).1 := by
  have hgives : Twin.twice.Gives none 0 _ _ _ _ := (Twin.lockstep_twice d).document h
  have hguard : EverywhereAll Twin.twice.guard none 0 [(document d c).1.toElement] := by
    refine (everywhereAll_cons _ _).2 ⟨?_, everywhereAll_nil.2 trivial⟩
    exact (PlacedNode.forall_descendants_iff (.root (document d c).1)).1 fun _ _ => trivial
  have hsame := (hgives hguard).1
  simp only [Twin.Same, Twin.twice, mapTokensAll_id, List.cons.injEq, and_true] at hsame
  exact (Node.toElement_inj.1 hsame).symm

section Warnings

/-- The warnings among problems at pieces. -/
theorem Trivia.warnings_located {f g : Trivia → Option Problem} {ps : List Trivia}
    (h : ∀ p ∈ ps, (f p).filter (·.severity == .warning) = g p) (spans : List Span) :
    (located f ps spans).filter (·.severity == .warning) = located g ps spans := by
  induction ps generalizing spans with
  | nil => rfl
  | cons p ps ih =>
    cases spans with
    | nil => rfl
    | cons s spans =>
      have ih := ih (fun q hq => h q (List.mem_cons_of_mem p hq)) spans
      have hp := h p List.mem_cons_self
      simp only [located, List.zip_cons_cons, List.filterMap_cons] at ih ⊢
      rw [← hp]
      cases f p with
      | none => exact ih
      | some x =>
        cases hx : x.severity == .warning with
        | true => simpa [Option.filter, hx, Diagnostic.severity] using ih
        | false => simpa [Option.filter, hx, Diagnostic.severity] using ih

/-- Only a directive with an unknown language is a warning. -/
theorem Trivia.warning_problem? (d : Dialect) (p : Trivia) :
    (problem? d p).filter (·.severity == .warning) = p.unknownLanguage? := by
  obtain ⟨k, t⟩ := p
  cases k with
  | languageDirective =>
    simp only [problem?, unknownLanguage?]
    cases language? ⟨.languageDirective, t⟩ with
    | none => rfl
    | some code =>
      rw [Option.bind_some]
      split <;> rfl
  | _ => rfl

theorem Trivia.warning_problemBehind? (p : Trivia) :
    (problemBehind? p).filter (·.severity == .warning) = none := by
  unfold problemBehind?
  split <;> rfl

theorem Trivia.located_eq_nil {f : Trivia → Option Problem} {ps : List Trivia}
    (h : ∀ p ∈ ps, f p = none) (spans : List Span) : located f ps spans = [] := by
  refine List.filterMap_eq_nil_iff.2 fun x hx => ?_
  rw [h x.1 (List.of_mem_zip hx).1]
  rfl

/-- The warnings of a token are the directives with unknown languages in front of it. -/
theorem PlacedToken.warnings_diagnostics (d : Dialect) (t : PlacedToken) :
    (t.diagnostics d).filter (·.severity == .warning) =
      Trivia.located Trivia.unknownLanguage? t.token.leading t.leadingSpans := by
  have hbehind : Trivia.located (fun _ => none) t.token.trailing t.trailingSpans = [] :=
    Trivia.located_eq_nil (fun _ _ => rfl) _
  rw [diagnostics, List.filter_append, List.filter_append,
    Trivia.warnings_located (fun p _ => Trivia.warning_problem? d p),
    Trivia.warnings_located (fun p _ => Trivia.warning_problemBehind? p), hbehind]
  split <;> simp [Diagnostic.severity, Problem.severity]

theorem Trivia.Undirected.unknownLanguage? {ps : List Trivia} (h : Undirected ps) :
    ∀ p ∈ ps, p.unknownLanguage? = none := fun p hp => by
  simp [Trivia.unknownLanguage?, language?, h p hp]

end Warnings

namespace FeatureFile

/-- How the comments in front of the first token select the language of a document. -/
structure Selects (f : FeatureFile) (default : Dialect) (first : PlacedToken)
    (rest : List PlacedToken) : Prop where
  tokens : f.root.descendantTokens = first :: rest
  /-- There are no directives but in front of the first token. -/
  nowhere : Trivia.Undirected first.token.trailing ∧
    ∀ t ∈ rest, Trivia.Undirected t.token.leading ∧ Trivia.Undirected t.token.trailing
  /-- There, a comment is a directive exactly if it has the form of one, with its code. -/
  form : ∀ p ∈ first.token.leading, p.isComment = true →
    (p.kind = .languageDirective ↔ ∃ code, Text.Directs p.text code) ∧
      ∀ code, p.language? = some code ↔ Text.Directs p.text code
  /-- The last directive with a known language selects the dialect. -/
  dialect : f.dialect = (first.token.leading.filterMap Trivia.dialect?).getLast?.getD default
  /-- The warnings are the directives with unknown languages. -/
  warnings : f.diagnostics.filter (·.severity == .warning) =
    Trivia.located Trivia.unknownLanguage? first.token.leading first.leadingSpans

theorem tokensAll_leaves_tree (f : FeatureFile) :
    Leaf.tokensAll f.tree.leaves = f.root.descendantTokens.map (·.token) := by
  rw [PlacedNode.map_token_descendantTokens, Node.leaves, tokensAll_leaves, Node.toElement,
    tokens_node]
  rfl

/-- The first token takes the comments in front of the document. -/
theorem exists_first (o : Options) (text : Text) :
    ∃ first rest, (parse o text).root.descendantTokens = first :: rest ∧
      first.token.leading = (Preamble.read o.dialect 0 (Line.split text)).trivia := by
  obtain ⟨t, ht, hl⟩ := firstTakes_document (parse o text).dialect
    (Preamble.read o.dialect 0 (Line.split text)).cursor
  rw [Preamble.pending_advance_cursor] at hl
  have hmap := (parse o text).root.map_token_descendantTokens
  have htokens : tokensAll [(parse o text).tree.toElement] =
      (parse o text).root.descendantTokens.map (·.token) := by
    rw [hmap, tokensAll_cons, tokensAll_nil, List.append_nil, Node.toElement, tokens_node]
    rfl
  change (tokensAll [(parse o text).tree.toElement]).head? = some t at ht
  rw [htokens] at ht
  cases hd : (parse o text).root.descendantTokens with
  | nil =>
    rw [hd] at ht
    cases ht
  | cons first rest =>
    rw [hd] at ht
    cases ht
    exact ⟨first, rest, rfl, hl⟩

/-- There are no directives but in front of the first token. -/
theorem undirected_rest {o : Options} {text : Text} {first : PlacedToken} {rest : List PlacedToken}
    (htokens : (parse o text).root.descendantTokens = first :: rest) :
    Trivia.Undirected first.token.trailing ∧
      ∀ t ∈ rest, Trivia.Undirected t.token.leading ∧ Trivia.Undirected t.token.trailing := by
  obtain ⟨hbehind, hinner⟩ := undirected_parse o.dialect text
  change ∀ t ∈ Leaf.tokensAll (parse o text).tree.leaves, _ at hbehind
  change ∀ t ∈ (Leaf.tokensAll (parse o text).tree.leaves).tail, _ at hinner
  rw [tokensAll_leaves_tree, htokens, List.forall_mem_map, List.forall_mem_cons] at hbehind
  rw [tokensAll_leaves_tree, htokens, List.map_cons, List.tail_cons, List.forall_mem_map] at hinner
  exact ⟨hbehind.1, fun t ht => ⟨hinner t ht, hbehind.2 t ht⟩⟩

/-- The diagnostics are what the tree shows. -/
theorem diagnostics_eq_shown {o : Options} (ho : o.dialect ∈ Dialect.bundled) (text : Text) :
    (parse o text).diagnostics = (parse o text).shownDiagnostics := by
  rw [shownDiagnostics_eq_reported ho]
  exact Diagnostic.sortByPosition_of_pairwise (reported_parse ho text).2

theorem warnings_diagnostics {o : Options} (ho : o.dialect ∈ Dialect.bundled) {text : Text}
    {first : PlacedToken} {rest : List PlacedToken}
    (htokens : (parse o text).root.descendantTokens = first :: rest)
    (hrest : ∀ t ∈ rest, Trivia.Undirected t.token.leading) :
    (parse o text).diagnostics.filter (·.severity == .warning) =
      Trivia.located Trivia.unknownLanguage? first.token.leading first.leadingSpans := by
  have hnone : (rest.flatMap (PlacedToken.diagnostics (parse o text).dialect)).filter
      (·.severity == .warning) = [] := by
    rw [List.filter_flatMap, List.flatMap_eq_nil_iff]
    intro t ht
    rw [PlacedToken.warnings_diagnostics]
    exact Trivia.located_eq_nil (hrest t ht).unknownLanguage? _
  rw [diagnostics_eq_shown ho, shownDiagnostics, htokens, List.flatMap_cons, List.filter_append,
    hnone, List.append_nil, PlacedToken.warnings_diagnostics]

/-- Where the same dialect is selected, the default dialect makes no difference. -/
theorem tree_congr {o o' : Options} {text : Text}
    (h : (parse o' text).dialect = (parse o text).dialect) :
    (parse o' text).tree = (parse o text).tree := by
  have halike : (Preamble.read o.dialect 0 (Line.split text)).cursor.Alike
      (Preamble.read o'.dialect 0 (Line.split text)).cursor :=
    { lines := by
        change Preamble.lines _ = Preamble.lines _
        rw [Preamble.lines_read, Preamble.lines_read]
      offset := by
        change Trivia.widthOf _ = Trivia.widthOf _
        rw [Preamble.trivia_read o'.dialect o.dialect 0 0]
      pending := Preamble.trivia_read o'.dialect o.dialect 0 0 (Line.split text) }
  have hdoc := Grammar.document_congr (parse o text).dialect halike
  rw [← h] at hdoc
  exact hdoc.trans (by rw [h]; rfl)

/-- Directives stand in front of the first token and nowhere else; the last of them with a known
language selects the dialect, and each with an unknown language is a warning. Where one with a known
language is there, the tree and the diagnostics do not depend on the default dialect. -/
theorem selects_parse {o : Options} (ho : o.dialect ∈ Dialect.bundled) (text : Text) :
    ∃ first rest, (parse o text).Selects o.dialect first rest ∧
      ((∃ p ∈ first.token.leading, p.dialect?.isSome = true) →
        ∀ o' : Options, o'.dialect ∈ Dialect.bundled →
          (parse o' text).tree = (parse o text).tree ∧
            (parse o' text).dialect = (parse o text).dialect ∧
              (parse o' text).diagnostics = (parse o text).diagnostics) := by
  obtain ⟨first, rest, htokens, hleading⟩ := exists_first o text
  have hdialect (o' : Options) : (parse o' text).dialect =
      (first.token.leading.filterMap Trivia.dialect?).getLast?.getD o'.dialect := by
    change (Preamble.read o'.dialect 0 _).dialect = _
    rw [Preamble.dialect_read, hleading, Preamble.trivia_read o'.dialect o.dialect 0 0]
  have hnowhere := undirected_rest htokens
  refine ⟨first, rest, ⟨htokens, hnowhere, ?_, hdialect o,
    warnings_diagnostics ho htokens fun t ht => (hnowhere.2 t ht).1⟩, ?_⟩
  · intro p hp hc
    rw [hleading] at hp
    have hiff := Preamble.directive_iff_of_mem_read hp hc
    simp only [Text.languageCode?_eq_some_iff] at hiff
    refine ⟨hiff, fun code => ?_⟩
    rw [Trivia.language?, ← Text.languageCode?_eq_some_iff]
    by_cases hk : p.kind = .languageDirective
    · rw [if_pos hk]
    · rw [if_neg hk]
      constructor
      · intro h
        cases h
      · intro h
        exact absurd (hiff.2 ⟨code, Text.languageCode?_eq_some_iff.1 h⟩) hk
  · rintro ⟨p, hp, hknown⟩ o' ho'
    obtain ⟨d, hd⟩ := Option.isSome_iff_exists.1 hknown
    have hmem : d ∈ first.token.leading.filterMap Trivia.dialect? := List.mem_filterMap.2 ⟨p, hp, hd⟩
    have hsame : (parse o' text).dialect = (parse o text).dialect := by
      rw [hdialect, hdialect, List.getLast?_eq_some_getLast (List.ne_nil_of_mem hmem)]
      rfl
    have htree := tree_congr hsame
    refine ⟨htree, hsame, ?_⟩
    rw [diagnostics_eq_shown ho, diagnostics_eq_shown ho', shownDiagnostics, shownDiagnostics,
      root, root, htree, hsame]

/-- The directive below the tags comes too late, and the unknown one is passed over: the document is
Norwegian by any default. -/
theorem selects_parse_norwegian :
    let text := "# language: xx\n#language:no \n@t\n# language: de\nEgenskap: a\n".toList
    let f := parse .default text
    Options.default.dialect ∈ Dialect.bundled ∧ f.dialect.code = "no" ∧
      ∃ first rest, f.Selects .english first rest ∧
        first.token.leading.filterMap Trivia.unknownLanguage? = [.unknownLanguage "xx"] ∧
        (∃ p ∈ first.token.leading, p.dialect?.isSome = true) ∧
        ∀ o : Options, o.dialect ∈ Dialect.bundled → (parse o text).tree = f.tree := by
  intro text f
  have hcode : (Preamble.read .english 0 (Line.split text)).dialect.code = "no" := by
    decide +kernel
  have hunknown : (Preamble.read .english 0 (Line.split text)).trivia.filterMap
      Trivia.unknownLanguage? = [.unknownLanguage "xx"] := by decide +kernel
  have hknown : (Preamble.read .english 0 (Line.split text)).trivia.any (·.dialect?.isSome) =
      true := by decide +kernel
  obtain ⟨first, rest, hs, hsame⟩ := @selects_parse .default Dialect.english_mem_bundled text
  obtain ⟨first', rest', htokens, hleading⟩ := exists_first .default text
  rw [hs.tokens] at htokens
  cases htokens
  have hleading : first.token.leading = (Preamble.read .english 0 (Line.split text)).trivia :=
    hleading
  rw [← hleading] at hunknown hknown
  have hknown := List.any_eq_true.1 hknown
  exact ⟨Dialect.english_mem_bundled, hcode, first, rest, hs, hunknown, hknown,
    fun o ho => (hsame hknown o ho).1⟩

end FeatureFile

end GherkinTree
