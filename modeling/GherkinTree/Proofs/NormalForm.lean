import GherkinTree.Proofs.CutLine
import GherkinTree.Proofs.KeywordTable
import GherkinTree.Proofs.Origin

/-!
The lexical normal form of documents. The reader comes to each line with trivia that is laid out,
and leaves trivia that is laid out behind the line. Main statement: each piece of trivia of a
document is what its kind says, line breaks are those of the source and end what stands behind a
token, a token has no text exactly if the source lacks it or the file ends with it, and the text of
a token is cut off from the blanks around it and from the next line.
-/

namespace GherkinTree

open Element Grammar Trivia Token

namespace Survey

/-- Every token of a document is worded and laid out. -/
def lexing (source : Text) : Survey where
  At o c := c.OpensAt source o ∧ Laid source o c.pending
  token above o t := t.Worded above ∧ t.LaidOut source o
  node := fun _ _ _ => True

variable {source : Text} {d : Dialect} {above : Option Kind} {o : Nat} {c : Cursor} {a : Ahead}
  {es : List Element}

/-- Elements whose tokens are worded and laid out. -/
theorem yields_lexing (hw : WordedAll above es)
    (hl : ∀ x ∈ Token.sites o (tokensAll es), x.2.LaidOut source x.1)
    (hplace : c.OpensAt source (o + fullWidthAll es)) (hpending : c.pending = []) :
    (lexing source).Yields above o es c where
  tokens x hx := by
    refine ⟨hw o x hx, hl x.2 ?_⟩
    rw [← map_snd_heldAll above]
    exact List.mem_map_of_mem hx
  nodes := everywhereAll_of_nodes (fun _ _ _ => trivial) above o es
  place := ⟨hplace, by rw [hpending]; exact laid_nil⟩

namespace Faces

theorem origin (h : (lexing source).Faces d o a) : (Survey.origin source d []).Faces d o a :=
  ⟨h.ahead, h.place.1⟩

theorem exists_line (h : (lexing source).Faces d o a) :
    ∃ l ∈ SourceLine.ofText source, a.cursor.offset = l.start ∧ a.line = l.cut ∧
      ∀ m ∈ SourceLine.listFrom l.stop a.cursor.lines.tail, m ∈ SourceLine.ofText source :=
  h.place.1.placed.exists_line h.ahead

theorem oneLine (h : (lexing source).Faces d o a) : '\n' ∉ a.line.content := by
  obtain ⟨l, hl, -, hcut, -⟩ := h.exists_line
  rw [hcut]
  exact fun hn => (SourceLine.isCut_of_mem_ofText hl).content (Text.mem_of_mem_trimStart hn)

/-- The tokens of a line are laid out where the line stands. -/
theorem laidOut_sites (h : (lexing source).Faces d o a)
    (hl : Lexed a.line.ending a.cursor.pending above es)
    (hwidth : fullWidthAll es = Trivia.widthOf a.cursor.pending + a.line.width) :
    ∀ x ∈ Token.sites o (tokensAll es), x.2.LaidOut source x.1 := by
  obtain ⟨l, hmem, hstart, hcut, -⟩ := h.exists_line
  have hopens : a.cursor.offset = o + Trivia.widthOf a.cursor.pending := h.place.1.starts
  have halong := hl.along
  rw [hcut] at halong hwidth
  refine halong.laidOut_sites hmem h.place.2 ?_
  rw [widthAll_tokensAll, hwidth, ← l.start_add_width, ← hstart]
  omega

/-- A line whose tokens stand along it. -/
theorem yields_lexed (h : (lexing source).Faces d o a)
    (hl : Lexed a.line.ending a.cursor.pending above es) {events : List Event}
    (hplace : (a.take events).OpensAt source (o + fullWidthAll es)) :
    (lexing source).Yields above o es (a.take events) := by
  refine yields_lexing hl.worded (h.laidOut_sites hl ?_) hplace rfl
  have hopens : a.cursor.offset = o + Trivia.widthOf a.cursor.pending := h.place.1.starts
  have hstarts : (a.take events).offset = o + fullWidthAll es + Trivia.widthOf [] := hplace.starts
  rw [Ahead.offset_take, Trivia.widthOf_nil] at hstarts
  omega

end Faces

/-- The last fence of a doc string is lacking or stands on a line of the source. -/
theorem last_cases {f : Fence} {ls : List Line}
    (hls : ∀ m ∈ SourceLine.listFrom o ls, m ∈ SourceLine.ofText source) :
    Fence.last (f.behindBody ls) = .absent .docStringDelimiterToken [] [] ∨
      ∃ l ∈ SourceLine.ofText source, f.closes l.line.content = true ∧
        l.offset = o + Text.width (Line.join (f.body ls)) ∧
        Fence.last (f.behindBody ls) = Fence.closing l.line := by
  cases hb : f.behindBody ls with
  | nil => exact .inl rfl
  | cons m ms =>
    have hcloses : f.closes m.content = true := f.closes_behindBody (by rw [hb, List.head?_cons])
    have hsplit : ls = f.body ls ++ m :: ms := by rw [← hb, f.body_append_behindBody]
    refine .inr ⟨⟨o + Text.width (Line.join (f.body ls)), m⟩, hls _ ?_, hcloses, rfl, rfl⟩
    nth_rewrite 1 [hsplit]
    rw [SourceLine.listFrom_append]
    exact List.mem_append_right _ List.mem_cons_self

theorem laidOut_last {f : Fence} {ls : List Line}
    (hls : ∀ m ∈ SourceLine.listFrom o ls, m ∈ SourceLine.ofText source) :
    ∀ x ∈ Token.sites (o + Text.width (Line.join (f.body ls))) [Fence.last (f.behindBody ls)],
      x.2.LaidOut source x.1 := by
  rcases last_cases hls with hlast | ⟨l, hl, hcloses, ho, hlast⟩
  · rw [hlast]
    exact laidOut_sites_of_inline (List.forall_mem_singleton.2 ⟨inline_nil, inline_nil⟩)
  · have hn := (SourceLine.isCut_of_mem_ofText hl).content
    have hlexed : Lexed l.line.ending (piece .whitespace (Text.leadingBlanks l.line.content)) none
        [.token (Fence.closing l.line)] := Fence.lexed_closing hcloses hn
    have halong := hlexed.along
    rw [tokensAll_cons, tokens_token, tokensAll_nil, List.append_nil] at halong
    have hblanks := inline_blanks (Text.blanks_leadingBlanks hn)
    rw [hlast, ← ho]
    exact halong.laidOut_sites hl hblanks.laid (by simp [Fence.fullWidth_closing, SourceLine.stop])

/-- A doc string is its first line, lines that are content, and the line that closes it. -/
theorem laidOut_docString {outline : Bool} {f : Fence} (h : (lexing source).Faces d o a)
    (hk : a.kind = .docString f) :
    ∀ x ∈ Token.sites o (tokensAll [(f.docString outline a).1.toElement]),
      x.2.LaidOut source x.1 := by
  have hf := Dialect.fits_of_peek? h.ahead
  have hopens : a.cursor.offset = o + Trivia.widthOf a.cursor.pending := h.place.1.starts
  have hwidth := Fence.fullWidthAll_opening hf hk
  obtain ⟨l, -, hstart, hcut, hbelow⟩ := h.exists_line
  have htokens : tokensAll [(f.docString outline a).1.toElement] =
      tokensAll
          (.token (f.first a.cursor.pending a.line) :: Node.optional (f.contentType? a.line)) ++
        tokensAll (Node.optional (f.content? outline (f.body a.consume.lines))) ++
          [Fence.last (f.behindBody a.consume.lines)] := by
    rw [f.docString_eq]
    simp [Node.ofDocString, Node.toElement, tokensAll_append]
  have hstop : o + (Trivia.widthOf a.cursor.pending + a.line.width) = l.stop := by
    rw [← l.start_add_width, ← hstart, hcut]
    omega
  have hlexed : Lexed a.line.ending a.cursor.pending none _ := f.lexed_opening h.oneLine _
  have hopening := h.laidOut_sites hlexed hwidth
  rw [htokens, Token.sites_append, Token.sites_append, List.forall_mem_append,
    List.forall_mem_append]
  refine ⟨⟨hopening, laidOut_sites_of_inline (f.inline_content? outline _)⟩, ?_⟩
  rw [widthAll_append, widthAll_tokensAll, widthAll_tokensAll, hwidth, Fence.fullWidthAll_content?,
    ← Nat.add_assoc o, hstop]
  exact laidOut_last hbelow

/-- The tokens of a doc string are worded. -/
theorem worded_docString {outline : Bool} {f : Fence} (h : (lexing source).Faces d o a) :
    WordedAll above [(f.docString outline a).1.toElement] := by
  obtain ⟨l, -, -, -, hbelow⟩ := h.exists_line
  have hlast : (Fence.last (f.behindBody a.consume.lines)).Worded (some .docString) := by
    rcases last_cases (f := f) hbelow with hlast | ⟨m, hm, hcloses, -, hlast⟩
    · rw [Ahead.lines_consume, hlast]
      exact worded_absent (by decide)
    · have ht : Text.trim m.line.content = f.text := beq_iff_eq.1 hcloses
      rw [Ahead.lines_consume, hlast, Fence.closing, ht]
      exact f.worded_text _ _
  rw [f.docString_eq]
  exact .node (((f.lexed_opening h.oneLine _).worded.append (f.worded_content? outline _)).append
    (.token hlast))

theorem advance_lexing (h : c.OpensAt source o ∧ Laid source o c.pending) :
    c.advance.OpensAt source o ∧ Laid source o c.advance.pending := by
  have hopens : c.offset = o + Trivia.widthOf c.pending := h.1.starts
  refine ⟨advance_origin h.1, laid_append.2 ⟨h.2, ?_⟩⟩
  rw [← hopens]
  exact h.1.placed.laid_cutTrivia

theorem sound_lexing (source : Text) (hd : d.Proper) : (lexing source).Sound d where
  backward := backward_true
  advance h := advance_lexing h
  skip {o a} h := by
    obtain ⟨l, hl, hstart, hcut, -⟩ := h.exists_line
    have hopens : a.cursor.offset = o + Trivia.widthOf a.cursor.pending := h.place.1.starts
    refine ⟨(sound_origin source d []).skip h.origin, laid_append.2 ⟨h.place.2, ?_⟩⟩
    refine laid_pieces hl (by rw [hcut]; rfl) h.oneLine ?_
      (inline_skipped (fun hn => h.oneLine (Text.mem_of_mem_trim hn)) (Text.trimmed_trim _))
    rw [← hopens, hstart, hcut]
    exact l.start_add_width
  tagLine {o a} h hk := by
    have hf := Dialect.fits_of_peek? h.ahead
    have htags : (TagLine.split a.line.content).tags ≠ [] := by
      obtain ⟨u, hu⟩ := Dialect.classify_eq_tags (hf.kind ▸ hk)
      rw [hu, TagLine.split]
      exact List.cons_ne_nil _ _
    exact h.yields_lexed (TagLine.lexed_split htags hf.begins.trimStart h.oneLine _ _)
      ((sound_origin source d []).tagLine h.origin hk).place
  textLine {above o a} h hk := by
    have hyields : (Survey.origin source d []).Yields above o _ (a.take []) :=
      (sound_origin source d []).textLine h.origin hk
    exact h.yields_lexed ((Dialect.fits_of_peek? h.ahead).begins.lexed_text h.oneLine _)
      hyields.place
  row {outline o a} h hk :=
    h.yields_lexed
      (Row.lexed_node outline (fun hn => h.oneLine (List.mem_of_mem_tail hn)) _ _)
      ((sound_origin source d []).row h.origin hk).place
  title {above o a m} hne h hk hm := by
    obtain ⟨-, -, -, hnext⟩ := titleLine_eq h.ahead hk hm
    have hplace := ((sound_origin source d []).title hne h.origin hk hm).place
    rw [hnext] at hplace ⊢
    exact h.yields_lexed (lexed_titleLine hd (Dialect.fits_of_peek? h.ahead) hk hm h.oneLine) hplace
  stepLine {outline o a m} h hk hm := by
    obtain ⟨-, events, -, -, hnext⟩ := stepLine_eq outline h.ahead hk
    have hyields : (Survey.origin source d []).Yields (some .step) o _ (stepLine outline m a).2.2 :=
      (sound_origin source d []).stepLine h.origin hk hm
    have hplace := hyields.place
    rw [hnext] at hplace ⊢
    exact h.yields_lexed (lexed_stepLine outline hd (Dialect.fits_of_peek? h.ahead) hk h.oneLine)
      hplace
  docString {outline o a f} h hk := by
    exact yields_lexing (worded_docString h) (laidOut_docString h hk)
      ((sound_origin source d []).docString h.origin hk).place (f.cursor_docString outline a).2.2
  imply {above o c} h := by
    have hyields : (Survey.origin source d []).Yields above o _ (implied c) :=
      (sound_origin source d []).imply h.1
    refine yields_lexing (.append (.token (worded_absent (by decide)))
      (.token (worded_absent (by decide)))) ?_ hyields.place rfl
    refine List.forall_mem_cons.2 ⟨laidOut_of_inline (advance_lexing h).2 inline_nil, ?_⟩
    exact laidOut_sites_of_inline (List.forall_mem_singleton.2 ⟨inline_nil, inline_nil⟩)
  frame _ := trivial
  stepNode _ _ _ := trivial
  examplesNode _ _ := trivial
  scenarioNode _ _ _ _ := trivial

end Survey

/-- A token of a source in lexical normal form: its text, and the trivia on both sides of it. -/
structure PlacedToken.Normal (source : Text) (t : PlacedToken) : Prop where
  /-- Each piece of trivia is what its kind says. -/
  pieces : ∀ p ∈ t.token.leading ++ t.token.trailing, p.Normal
  /-- Line breaks are those of the source; no carriage return stands in front of a line feed that it
  does not belong to. -/
  breaks : ∀ x ∈ t.token.leading.zip t.leadingSpans ++ t.token.trailing.zip t.trailingSpans,
    x.1.kind = .newline → ∃ before after, source = before ++ x.1.text ++ after ∧
      Text.width before = x.2.start ∧ (x.1.text = ['\n'] → before.getLast? ≠ some '\r')
  /-- Behind a token nothing follows a line break. -/
  inner : ∀ p ∈ t.token.trailing.dropLast, p.kind ≠ .newline
  empty : t.token.text = [] ↔ t.token.missing = true ∨ t.kind = .endOfFileToken
  oneLine : '\n' ∈ t.token.text → t.kind = .docStringContentToken
  trimmed : t.kind.keepsBlanks (some t.parent.kind) = false → t.token.text.Trimmed

/-- A document in lexical normal form. -/
structure FeatureFile.Normal (f : FeatureFile) : Prop where
  tokens : ∀ t ∈ f.root.descendantTokens, t.Normal f.source.text
  /-- The end of the file is there, and nothing else is one. -/
  last : ∃ ts t, f.root.descendantTokens = ts ++ [t] ∧ t.kind = .endOfFileToken ∧
    t.token.missing = false ∧ ∀ u ∈ ts, u.kind ≠ .endOfFileToken

namespace PlacedToken

variable {source : Text} {t : PlacedToken}

theorem normal_of_laidOut (h : t.token.LaidOut source t.offset)
    (hempty : t.token.text = [] ↔ t.token.missing = true ∨ t.kind = .endOfFileToken)
    (hone : '\n' ∈ t.token.text → t.kind = .docStringContentToken)
    (htrim : t.kind.keepsBlanks (some t.parent.kind) = false → t.token.text.Trimmed) :
    t.Normal source where
  pieces := List.forall_mem_append.2 ⟨h.leading.normal, h.trailing.normal⟩
  breaks := List.forall_mem_append.2 ⟨fun x hx hk => ((h.leading x hx).2 hk).exists_before,
    fun x hx hk => ((h.trailing x hx).2 hk).exists_before⟩
  inner := h.inner
  empty := hempty
  oneLine := hone
  trimmed := htrim

/-- A token in front of the end of the file. -/
theorem normal_of_worded (hw : t.token.Worded (some t.parent.kind))
    (h : t.token.LaidOut source t.offset) : t.Normal source := by
  refine normal_of_laidOut h ?_ hw.oneLine hw.trimmed
  rw [hw.empty]
  exact ⟨.inl, fun he => he.resolve_right hw.inside⟩

/-- The end of the file. -/
theorem normal_eof {leading : List Trivia} (ht : t.token = .plain .endOfFileToken [] leading [])
    (h : Laid source t.offset leading) : t.Normal source := by
  have hlaid : t.token.LaidOut source t.offset := by
    rw [ht]
    exact laidOut_of_inline h inline_nil
  refine normal_of_laidOut hlaid ?_ ?_ ?_
  · simp [kind, ht, Token.plain]
  · simp [ht, Token.plain]
  · rw [ht]
    exact fun _ => Text.trimmed_nil

end PlacedToken

/-- The tokens of a document are those of its feature and the end of the file. -/
theorem Grammar.heldAll_document (d : Dialect) (c : Cursor) :
    heldAll (some (document d c).1.kind) 0 (document d c).1.children =
      heldAll (some .document) 0 (Node.optional (feature? d c).1) ++
        [(some .document, fullWidthAll (Node.optional (feature? d c).1),
          .plain .endOfFileToken [] (feature? d c).2.advance.pending [])] := by
  have hchildren : (document d c).1.children = Node.optional (feature? d c).1 ++
      [.token (.plain .endOfFileToken [] (feature? d c).2.advance.pending [])] := rfl
  have hkind : (document d c).1.kind = .document := rfl
  rw [hchildren, hkind, heldAll_append, heldAll_cons, held_token, heldAll_nil, Nat.zero_add]
  rfl

namespace FeatureFile

/-- Every document is in lexical normal form, whatever the source holds. -/
theorem normal_parse {o : Options} (ho : o.dialect ∈ Dialect.bundled) (text : Text) :
    (parse o text).Normal := by
  have hd : (parse o text).dialect.Proper := Dialect.proper_parse ho text
  let start := (Preamble.read o.dialect 0 (Line.split text)).cursor
  have hat : (Survey.lexing text).At 0 start :=
    ⟨Preamble.opensAt_cursor o.dialect text, Preamble.laid_read o.dialect fun _ hl => hl⟩
  have hyields : (Survey.lexing text).Yields (some .document) 0 _ _ :=
    (Survey.sound_lexing text hd).feature? hat trivial
  have hstop := (Survey.advance_lexing hyields.place).2
  rw [Nat.zero_add] at hstop
  have hheld := (PlacedNode.holding_descendantTokens (parse o text).root).trans
    (heldAll_document (parse o text).dialect start)
  obtain ⟨ts, last, htokens, hts, hlast⟩ := List.map_eq_append_iff.1 hheld
  obtain ⟨eof, rfl, heof⟩ := List.map_eq_singleton_iff.1 hlast
  have htoken : eof.token = .plain .endOfFileToken [] _ [] := congrArg (·.2.2) heof
  have hoffset : eof.offset = fullWidthAll _ := congrArg (·.2.1) heof
  have hinside (t : PlacedToken) (ht : t ∈ ts) :
      t.token.Worded (some t.parent.kind) ∧ t.token.LaidOut text t.offset :=
    hyields.tokens t.holding (hts ▸ List.mem_map_of_mem ht)
  refine ⟨?_, ts, eof, htokens, ?_, ?_, fun t ht => (hinside t ht).1.inside⟩
  · rw [htokens]
    refine List.forall_mem_append.2 ⟨fun t ht => ?_, List.forall_mem_singleton.2 ?_⟩
    · exact PlacedToken.normal_of_worded (hinside t ht).1 (hinside t ht).2
    · exact PlacedToken.normal_eof htoken (hoffset ▸ hstop)
  · rw [PlacedToken.kind, htoken]
    rfl
  · rw [htoken]
    rfl

/-- A carriage return that no line feed follows is a blank behind the name of the feature. -/
theorem normal_parse_carriage_return :
    let f := parse .default "#c\r\nFeature: f\r \n".toList
    Options.default.dialect ∈ Dialect.bundled ∧
      f.root.descendantTokens.map (fun t => (t.token.leading, t.token.text, t.token.trailing)) =
        [([⟨.comment, ['#', 'c']⟩, ⟨.newline, ['\r', '\n']⟩], "Feature".toList, []),
          ([], [':'], [⟨.whitespace, [' ']⟩]),
          ([], ['f'], [⟨.whitespace, ['\r', ' ']⟩, ⟨.newline, ['\n']⟩]), ([], [], [])] ∧
      f.Normal :=
  ⟨Dialect.english_mem_bundled, by
    rw [Options.default_eq]
    cbv, normal_parse Dialect.english_mem_bundled _⟩

end FeatureFile

end GherkinTree
