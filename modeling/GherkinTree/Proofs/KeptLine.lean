import GherkinTree.Proofs.Keyword
import GherkinTree.Proofs.Reading

/-!
The lines that a document keeps, kind by kind: plain text, tags, the title of a section, a step, a
row of a table and the fences of a doc string. Main statements: each of them is `Kept` as the tokens
that the grammar makes of it.
-/

namespace GherkinTree

namespace Kept

variable {d : Dialect} {a : Ahead} {t : Token} {us : List Token}

/-- Nothing happens on a line that nothing is wrong with. -/
theorem of_quiet (hl : t.leading = a.cursor.pending) (hm : t.missing = false)
    (ho : a.kind.Opens a.line.content t)
    (hr : Token.renderAll (t :: us) = Trivia.render a.cursor.pending ++ a.line.full)
    (ht : Trivia.Quiet t.trailing) (hu : ∀ u ∈ us, u.Quiet)
    (hs : d.Proper → ∀ u ∈ t :: us, u.missing = false → u.text ≠ []) :
    Kept d a (t :: us) [] where
  first := ⟨t, us, rfl, hl, hm, ho⟩
  render := hr
  shows o _ := by
    have hp : t.isReported = false := by simp [Token.isReported, hm]
    simp [Token.diagnosticsAt_of_trailing ht hp, Token.diagnosticsAll_eq_nil hu, hl]
  brief := .inl rfl
  solid := hs
  undirected := ⟨List.forall_mem_cons.2 ⟨ht.undirected, fun v hv => (hu v hv).trailing.undirected⟩,
    fun v hv => (hu v hv).leading.undirected⟩

/-- A token that is lacking at the end of a line is reported where it is lacking. -/
theorem of_missing {k : Kind} {trailing : List Trivia} {p : Nat}
    (hl : t.leading = a.cursor.pending) (hm : t.missing = false)
    (ho : a.kind.Opens a.line.content t)
    (hr : Token.renderAll (t :: us ++ [.absent k [] trailing]) =
      Trivia.render a.cursor.pending ++ a.line.full)
    (ht : Trivia.Quiet t.trailing) (hu : ∀ u ∈ us, u.Quiet) (hq : Trivia.Quiet trailing)
    (hk : k ≠ .colonToken ∧ k ≠ .tableLiteralToken) (hf : ∀ f, a.kind ≠ .docString f)
    (hp : p + Trivia.widthOf trailing = a.cursor.offset + a.line.width)
    (hlt : a.cursor.offset < p)
    (hs : d.Proper → ∀ u ∈ t :: us, u.missing = false → u.text ≠ []) :
    Kept d a (t :: us ++ [.absent k [] trailing]) [.missing p k] where
  first := ⟨t, _, rfl, hl, hm, ho⟩
  render := hr
  shows o hpos := by
    have hw := congrArg Text.width hr
    simp only [Token.renderAll_append, Text.width_append, Token.renderAll_cons,
      Token.renderAll_nil, Trivia.width_render, Token.width_render, Token.fullWidth,
      Token.leadingWidth, Token.width, Token.trailingWidth, Token.absent, Text.width_nil,
      Trivia.widthOf_nil] at hw
    have hoff : o + Token.widthAll (t :: us) = p := by
      simp only [Token.widthAll, Token.renderAll_cons, Text.width_append, Token.width_render,
        Token.fullWidth, Token.leadingWidth, Token.width, Token.trailingWidth]
      have : a.line.width = Text.width a.line.full := rfl
      omega
    have hr : t.isReported = false := by simp [Token.isReported, hm]
    rw [Token.diagnosticsAll_append, hoff, Token.diagnosticsAll_cons,
      Token.diagnosticsAt_of_trailing ht hr, Token.diagnosticsAll_eq_nil hu, hl]
    simp [Token.diagnosticsAt, Token.isReported, Token.absent, hk, hq.shows_nothing_behind,
      Token.leadingWidth, Token.width, Event.diagnostic?, Diagnostic.missingToken, Span.ofWidth,
      Span.empty]
  brief := .inr ⟨_, _, rfl, rfl, hlt, by
    change p ≤ _
    omega, .inr ⟨k, rfl⟩, hf⟩
  solid hd u hu hmu := by
    rcases List.mem_append.1 hu with hu | hu
    · exact hs hd u hu hmu
    · rw [List.mem_singleton.1 hu] at hmu
      cases hmu
  undirected := by
    refine ⟨List.forall_mem_append.2 ⟨?_, List.forall_mem_singleton.2 hq.undirected⟩, ?_⟩
    · exact List.forall_mem_cons.2 ⟨ht.undirected, fun v hv => (hu v hv).trailing.undirected⟩
    · rw [List.cons_append, List.tail_cons]
      exact List.forall_mem_append.2 ⟨fun v hv => (hu v hv).leading.undirected,
        List.forall_mem_singleton.2 Trivia.undirected_nil⟩

end Kept

section Plain

variable {d : Dialect} {c : Cursor} {a : Ahead}

theorem kept_text (ha : a.Fits d c) (hk : a.kind = .text) :
    Kept d a [Line.textToken a.line.content a.line.ending a.cursor.pending] [] := by
  refine .of_quiet rfl rfl ?_ ?_ (Trivia.quiet_lineEnd _ _) nofun ?_
  · rw [hk]
    exact ⟨rfl, rfl⟩
  · simp [Line.textToken, Token.plain, Token.render, Line.full]
    simp [← List.append_assoc]
  · intro _ u hu _
    rw [List.mem_singleton.1 hu]
    exact ha.begins.trimEnd_ne_nil

end Plain

namespace TagLine

/-- The tags and what follows them make up the line. -/
theorem tagText_append_rest (t : Text) : (split t).tagText ++ (split t).rest = t := by
  fun_induction split t with
  | case1 u behind line ih =>
    have hu : u.takeWhile (!Text.isBlank ·) ++ u.dropWhile (!Text.isBlank ·) = u :=
      List.takeWhile_append_dropWhile
    have hb := Text.leadingBlanks_append_trimStart (u.dropWhile (!Text.isBlank ·))
    simp only [tagText, List.flatMap_cons, List.append_assoc, List.cons_append] at ih ⊢
    rw [ih, hb, hu]
  | case2 t h => rfl

theorem rest_solid {t : Text} (h : Text.trimStart t = t) :
    Text.trimStart (split t).rest = (split t).rest := by
  fun_induction split t with
  | case1 u behind line ih =>
    exact ih (Text.trimStart_trimStart behind)
  | case2 t _ => exact h

theorem tag_ne_nil (t : Text) : ∀ p ∈ (split t).tags, p.1 ≠ [] := by
  fun_induction split t with
  | case1 u behind line ih =>
    intro p hp
    rcases List.mem_cons.1 hp with rfl | hp
    · simp
    · exact ih p hp
  | case2 t h => simp

variable {leading rest : List Trivia}

theorem renderAll_tokens (rest : List Trivia) {tags : List (Text × Text)} (h : tags ≠ []) :
    Token.renderAll (tokens leading rest tags) =
      Trivia.render leading ++ (tags.flatMap fun p => p.1 ++ p.2) ++ Trivia.render rest := by
  fun_induction tokens leading rest tags with
  | case1 => exact absurd rfl h
  | case2 leading tag blanks => simp [Token.plain, Token.render]
  | case3 leading tag blanks tags ht ih =>
    simp [ih (by simpa using ht), Token.plain, Token.render]

theorem tokens_eq_cons (leading rest : List Trivia) {tags : List (Text × Text)} (h : tags ≠ []) :
    ∃ t us, tokens leading rest tags = t :: us ∧ t.leading = leading ∧ t.missing = false ∧
      t.kind = .tagToken := by
  fun_cases tokens leading rest tags with
  | case1 => exact absurd rfl h
  | case2 tag blanks => exact ⟨_, _, rfl, rfl, rfl, rfl⟩
  | case3 tag blanks tags ht => exact ⟨_, _, rfl, rfl, rfl, rfl⟩

theorem mem_tokens {tags : List (Text × Text)} {t : Token} (h : t ∈ tokens leading rest tags) :
    ∃ p ∈ tags, t.text = p.1 := by
  fun_induction tokens leading rest tags with
  | case1 => cases h
  | case2 leading tag blanks => exact ⟨_, List.mem_cons_self, by rw [List.mem_singleton.1 h]; rfl⟩
  | case3 leading tag blanks tags ht ih =>
    rcases List.mem_cons.1 h with rfl | h
    · exact ⟨_, List.mem_cons_self, rfl⟩
    · obtain ⟨p, hp, he⟩ := ih h
      exact ⟨p, List.mem_cons_of_mem _ hp, he⟩

theorem undirected_restTrivia (l : TagLine) (ending : Text) :
    Trivia.Undirected (l.restTrivia ending) := by
  refine .append (Trivia.undirected_piece ?_ _) (Trivia.quiet_lineEnd _ _).undirected
  split
  · decide
  · decide

/-- The tags after the first have nothing in front of them. -/
theorem undirected_tokens (leading : List Trivia) (hr : Trivia.Undirected rest)
    (tags : List (Text × Text)) :
    (∀ t ∈ tokens leading rest tags, Trivia.Undirected t.trailing) ∧
      ∀ t ∈ (tokens leading rest tags).tail, Trivia.Undirected t.leading := by
  have hb (blanks : Text) := (Trivia.quiet_blanks blanks).undirected
  fun_induction tokens leading rest tags with
  | case1 => exact ⟨List.forall_mem_nil _, List.forall_mem_nil _⟩
  | case2 leading tag blanks =>
    exact ⟨List.forall_mem_singleton.2 ((hb blanks).append hr), List.forall_mem_nil _⟩
  | case3 leading tag blanks tags ht ih =>
    refine ⟨List.forall_mem_cons.2 ⟨hb blanks, ih.1⟩, ?_⟩
    obtain ⟨t, us, heq, hl, -⟩ := tokens_eq_cons [] rest (by simpa using ht)
    rw [List.tail_cons]
    rw [heq] at ih ⊢
    exact List.forall_mem_cons.2 ⟨hl ▸ Trivia.undirected_nil, ih.2⟩

/-- Only what stands in front of the first tag and behind the last can be wrong. -/
theorem diagnosticsAll_tokens (d : Dialect) (o : Nat) {tags : List (Text × Text)} (h : tags ≠ []) :
    Token.diagnosticsAll d o (tokens leading rest tags) =
      Trivia.reports (Trivia.problem? d) o leading ++
        Trivia.reports Trivia.problemBehind?
          (o + Trivia.widthOf leading + Text.width (tags.flatMap fun p => p.1 ++ p.2)) rest := by
  fun_induction tokens leading rest tags generalizing o with
  | case1 => exact absurd rfl h
  | case2 leading tag blanks =>
    have hb := (Trivia.quiet_blanks blanks).shows_nothing_behind
    have hw := Trivia.widthOf_piece .whitespace blanks
    simp [Token.diagnosticsAt, Token.plain, Token.isReported, Token.leadingWidth, Token.width,
      Trivia.reports_append, hb, hw, Nat.add_assoc]
  | case3 leading tag blanks tags ht ih =>
    have hb := (Trivia.quiet_blanks blanks).shows_nothing_behind
    have hw := Trivia.widthOf_piece .whitespace blanks
    rw [Token.diagnosticsAll_cons, ih _ (by simpa using ht)]
    simp [Token.diagnosticsAt, Token.plain, Token.isReported, Token.leadingWidth, Token.width,
      Token.trailingWidth, Token.fullWidth, hb, hw, Nat.add_assoc]

theorem render_restTrivia (l : TagLine) (ending : Text) :
    Trivia.render (l.restTrivia ending) = l.rest ++ ending := by
  simp only [restTrivia, Trivia.render_append, Trivia.render_piece, Trivia.render_lineEnd]
  rw [← List.append_assoc, Text.trimEnd_append_trailingBlanks]

end TagLine

/-- What happens on a line of tags that begins at an offset. -/
def TagLine.events (l : TagLine) (offset : Nat) : List Event :=
  if l.rest.isEmpty || l.restIsComment then []
  else [.skippedAfterTags
    (Span.ofWidth (offset + Text.width l.tagText) (Text.width (Text.trimEnd l.rest)))]

namespace TagLine

/-- The rest of a line of tags is wrong exactly if it is there and is no comment. -/
theorem reports_restTrivia {l : TagLine} (hl : Text.trimStart l.rest = l.rest) (ending : Text)
    (o : Nat) :
    Trivia.reports Trivia.problemBehind? (o + Text.width l.tagText) (l.restTrivia ending) =
      (l.events o).filterMap Event.diagnostic? := by
  have hend := (Trivia.quiet_lineEnd (Text.trailingBlanks l.rest) ending).shows_nothing_behind
  rw [restTrivia, Trivia.reports_append, hend, List.append_nil]
  by_cases he : l.rest = []
  · simp [events, he, Trivia.piece]
  · have hn : Text.trimEnd l.rest ≠ [] := Text.trimEnd_ne_nil hl he
    by_cases hc : l.restIsComment = true
    · simp [events, hc, Trivia.piece, hn, Trivia.reports_cons, Trivia.problemBehind?]
    · simp [events, he, hc, Trivia.piece, hn, Trivia.reports_cons, Trivia.problemBehind?,
        Event.diagnostic?, Diagnostic.unexpectedContent, Trivia.width]

theorem width_tagText_pos {l : TagLine} (ht : l.tags ≠ []) (hne : ∀ p ∈ l.tags, p.1 ≠ []) :
    0 < Text.width l.tagText := by
  obtain ⟨p, ps, hp⟩ := List.exists_cons_of_ne_nil ht
  have hp0 : p.1 ≠ [] := hne p (by rw [hp]; exact List.mem_cons_self)
  have : Text.width p.1 ≠ 0 := fun h => hp0 ((Text.width_eq_zero_iff p.1).1 h)
  simp only [tagText, hp, List.flatMap_cons, Text.width_append]
  omega

/-- At most one thing happens on a line of tags, and it has some text. -/
theorem events_cases {l : TagLine} (hl : Text.trimStart l.rest = l.rest) (o : Nat) :
    l.events o = [] ∨ ∃ e x, l.events o = [e] ∧ e.diagnostic? = some x ∧
      x.span.start = o + Text.width l.tagText ∧ x.span.start < x.span.stop ∧
      x.span.stop ≤ o + Text.width l.tagText + Text.width l.rest := by
  by_cases he : (l.rest.isEmpty || l.restIsComment) = true
  · exact .inl (by rw [events, if_pos he])
  · have hrest : l.rest ≠ [] := by
      simp only [Bool.or_eq_true, List.isEmpty_iff, not_or] at he
      exact he.1
    have hn : Text.width (Text.trimEnd l.rest) ≠ 0 := fun h =>
      Text.trimEnd_ne_nil hl hrest ((Text.width_eq_zero_iff _).1 h)
    have hle := congrArg Text.width (Text.trimEnd_append_trailingBlanks l.rest)
    rw [Text.width_append] at hle
    refine .inr ⟨_, _, by rw [events, if_neg he], rfl, rfl, ?_, ?_⟩
    · change o + _ < o + _ + _
      omega
    · change o + _ + _ ≤ _
      omega

end TagLine

theorem kept_tags {d : Dialect} {c : Cursor} {a : Ahead} (ha : a.Fits d c) (hk : a.kind = .tags) :
    Kept d a
      (TagLine.tokens a.cursor.pending ((TagLine.split a.line.content).restTrivia a.line.ending)
        (TagLine.split a.line.content).tags)
      ((TagLine.split a.line.content).events a.cursor.offset) := by
  obtain ⟨u, hu⟩ := Dialect.classify_eq_tags (ha.kind ▸ hk)
  have ht : (TagLine.split a.line.content).tags ≠ [] := by
    rw [hu, TagLine.split]
    simp
  have happ := TagLine.tagText_append_rest a.line.content
  have hsolid := TagLine.rest_solid ha.begins.trimStart
  have hne := TagLine.tag_ne_nil a.line.content
  generalize TagLine.split a.line.content = l at ht happ hsolid hne
  obtain ⟨t, us, hts, hlead, hmiss, hkind⟩ :=
    TagLine.tokens_eq_cons a.cursor.pending (l.restTrivia a.line.ending) ht
  have hpos := TagLine.width_tagText_pos ht hne
  have hwidth : a.line.width =
      Text.width l.tagText + Text.width l.rest + Text.width a.line.ending := by
    rw [Line.width, Line.full, Text.width_append, ← happ, Text.width_append]
  constructor
  case first => exact ⟨t, us, hts, hlead, hmiss, by rw [hk]; exact hkind⟩
  case render =>
    rw [TagLine.renderAll_tokens _ ht, TagLine.render_restTrivia, Line.full, ← happ]
    simp [TagLine.tagText]
  case shows =>
    intro o ho
    rw [TagLine.diagnosticsAll_tokens d o ht, ho]
    exact congrArg _ (TagLine.reports_restTrivia hsolid a.line.ending a.cursor.offset)
  case brief =>
    rcases TagLine.events_cases hsolid a.cursor.offset with he | ⟨e, x, he, hx, hstart, hlt, hle⟩
    · exact .inl he
    · exact .inr ⟨e, x, he, hx, by omega, by omega, .inl hlt, by simp [hk]⟩
  case solid =>
    intro _ v hv _
    obtain ⟨p, hp, he⟩ := TagLine.mem_tokens hv
    rw [he]
    exact hne p hp
  case undirected =>
    exact TagLine.undirected_tokens a.cursor.pending
      (TagLine.undirected_restTrivia l a.line.ending) l.tags

namespace Grammar

variable {d : Dialect} {c : Cursor} {a : Ahead} {m : KeywordMatch}

/-- A line of tags is kept as its tags. -/
theorem tagLine?_eq (h : d.peek? c = some a) (hk : a.kind = .tags) :
    ∃ ts es, Kept d a ts es ∧ tagLine? d c = some (ts, a.take es) := by
  refine ⟨_, _, kept_tags (Dialect.fits_of_peek? h) hk, ?_⟩
  obtain ⟨cur, l, k⟩ := a
  cases hk
  simp only [tagLine?, h, TagLine.events]
  split
  · rw [Ahead.take_nil]
  · rw [Ahead.take_singleton]

theorem tagLine?_eq_none (h : ∀ a, d.peek? c = some a → a.kind ≠ .tags) : tagLine? d c = none := by
  unfold tagLine?
  split
  · exact absurd rfl (h _ (by assumption))
  · rfl

/-- A line of plain text is kept as one token. -/
theorem textLine?_eq (h : d.peek? c = some a) (hk : a.kind = .text) :
    ∃ ts, Kept d a ts [] ∧ textLine? d c = some (ts, a.take []) := by
  refine ⟨_, kept_text (Dialect.fits_of_peek? h) hk, ?_⟩
  obtain ⟨cur, l, k⟩ := a
  cases hk
  simp only [textLine?, h]
  rw [Ahead.take_nil]

theorem textLine?_eq_none (h : ∀ a, d.peek? c = some a → a.kind ≠ .text) :
    textLine? d c = none := by
  unfold textLine?
  split
  · exact absurd rfl (h _ (by assumption))
  · rfl

/-- What follows a token is the end of its line, or blanks and some text. -/
theorem cutToken_cases (behind ending : Text) :
    Line.cutToken behind ending = (Trivia.lineEnd behind ending, []) ∨
      ∃ blanks text, text ≠ [] ∧ Text.trimStart text = text ∧ behind = blanks ++ text ∧
        Line.cutToken behind ending = (Trivia.piece .whitespace blanks, text) := by
  have happ := Text.leadingBlanks_append_trimStart behind
  cases ht : Text.trimStart behind with
  | nil =>
    rw [ht, List.append_nil] at happ
    exact .inl (by simp [Line.cutToken, ht, happ])
  | cons x t =>
    refine .inr ⟨Text.leadingBlanks behind, x :: t, by simp, ?_, ?_, by simp [Line.cutToken, ht]⟩
    · rw [← ht, Text.trimStart_trimStart]
    · rw [← ht, happ]

/-- The text that is left on a line as a token writes the rest of the line. -/
theorem render_textToken (text ending : Text) :
    (Line.textToken text ending []).render = text ++ ending := by
  simp only [Line.textToken, Token.plain, Token.render, Trivia.render_nil, List.nil_append,
    Trivia.render_lineEnd]
  rw [← List.append_assoc, Text.trimEnd_append_trailingBlanks]

/-- The leaves of a title. -/
def Title.leaves (t : Title) : List Leaf :=
  .token t.keyword :: .token t.colon :: Node.optionalLeaves t.name

/-- The token of a keyword that the source has. -/
def keywordToken (m : KeywordMatch) (leading trailing : List Trivia) : Token :=
  .plain (.ofRole m.role) m.text leading trailing

theorem opens_keywordToken (hk : a.kind = .keyword m) (leading trailing : List Trivia) :
    a.kind.Opens a.line.content (keywordToken m leading trailing) := by
  rw [hk]
  exact ⟨rfl, rfl⟩

/-- A title without a name. -/
theorem kept_title_bare (hk : a.kind = .keyword m) (hcl : d.classify a.line.content = .keyword m)
    {u : Text} (hu : m.rest = ':' :: u) :
    Kept d a [keywordToken m a.cursor.pending [],
      .plain .colonToken [':'] [] (Trivia.lineEnd u a.line.ending)] [] := by
  refine .of_quiet rfl rfl (opens_keywordToken hk _ _) ?_ Trivia.quiet_nil ?_ ?_
  · rw [Line.full, Dialect.append_of_classify hcl, hu]
    simp [keywordToken, Token.plain, Token.render]
  · intro v hv
    rw [List.mem_singleton.1 hv]
    exact ⟨Trivia.quiet_nil, Trivia.quiet_lineEnd _ _, rfl⟩
  · intro hd v hv _
    simp only [List.mem_cons, List.not_mem_nil, or_false] at hv
    rcases hv with rfl | rfl
    · exact hd.keyword_ne_nil hcl
    · exact List.cons_ne_nil _ _

/-- A title with a name. -/
theorem kept_title_named (hk : a.kind = .keyword m) (hcl : d.classify a.line.content = .keyword m)
    {blanks name : Text} (hu : m.rest = ':' :: (blanks ++ name)) (hne : name ≠ [])
    (hname : Text.trimStart name = name) :
    Kept d a [keywordToken m a.cursor.pending [],
      .plain .colonToken [':'] [] (Trivia.piece .whitespace blanks),
      Line.textToken name a.line.ending []] [] := by
  refine .of_quiet rfl rfl (opens_keywordToken hk _ _) ?_ Trivia.quiet_nil ?_ ?_
  · rw [Line.full, Dialect.append_of_classify hcl, hu]
    simp only [Token.renderAll_cons, render_textToken]
    simp [keywordToken, Token.plain, Token.render]
  · intro v hv
    simp only [List.mem_cons, List.not_mem_nil, or_false] at hv
    rcases hv with rfl | rfl
    · exact ⟨Trivia.quiet_nil, Trivia.quiet_blanks _, rfl⟩
    · exact ⟨Trivia.quiet_nil, Trivia.quiet_lineEnd _ _, rfl⟩
  · intro hd v hv _
    simp only [List.mem_cons, List.not_mem_nil, or_false] at hv
    rcases hv with rfl | rfl | rfl
    · exact hd.keyword_ne_nil hcl
    · exact List.cons_ne_nil _ _
    · exact Text.trimEnd_ne_nil hname hne

/-- The line of a structural keyword is kept as the keyword, its colon and the name. -/
theorem titleLine_eq (h : d.peek? c = some a) (hk : a.kind = .keyword m)
    (hm : m.role.isStructural = true) :
    ∃ ts, Kept d a ts [] ∧ (titleLine m a).1.leaves = ts.map .token ∧
      (titleLine m a).2 = a.take [] := by
  have hcl : d.classify a.line.content = .keyword m := (Dialect.fits_of_peek? h).kind ▸ hk
  obtain ⟨u, hu⟩ := Dialect.colon_of_classify hcl hm
  have hcut : Line.cutToken m.rest a.line.ending = ([], ':' :: u) := by
    have hb : Text.isBlank ':' = false := by decide
    simp [Line.cutToken, hu, Text.trimStart_cons_of_not_blank hb,
      Text.leadingBlanks_cons_of_not_blank hb, Trivia.piece]
  rcases cutToken_cases u a.line.ending with hc | ⟨blanks, name, hne, hname, hsplit, hc⟩
  · refine ⟨_, kept_title_bare hk hcl hu, ?_, ?_⟩
    · simp [titleLine, hcut, hc, Title.leaves, nameOf, keywordToken]
    · simp [titleLine, hcut, hc, Ahead.take_nil]
  · rw [hsplit] at hu
    refine ⟨_, kept_title_named hk hcl hu hne hname, ?_, ?_⟩
    · simp [titleLine, hcut, hc, Title.leaves, nameOf, hne, Node.leaves_of_ne, Node.ofLiterals,
        keywordToken]
    · simp [titleLine, hcut, hc, Ahead.take_nil]

/-- A step without a text, which is reported behind the line. -/
theorem kept_step_bare (hf : a.Fits d c) (hk : a.kind = .keyword m) :
    Kept d a
      ([keywordToken m a.cursor.pending (Trivia.lineEnd m.rest a.line.ending)] ++
        [.absent .literalToken [] []])
      [.missing a.consume.offset .literalToken] := by
  have hcl : d.classify a.line.content = .keyword m := hf.kind ▸ hk
  refine .of_missing rfl rfl (opens_keywordToken hk _ _) ?_ (Trivia.quiet_lineEnd _ _) nofun
    Trivia.quiet_nil (by decide) (by simp [hk]) rfl
    (Nat.lt_add_of_pos_right hf.begins.width_pos) ?_
  · rw [Line.full, Dialect.append_of_classify hcl]
    simp [keywordToken, Token.plain, Token.absent, Token.render]
  · intro hd v hv _
    rw [List.mem_singleton.1 hv]
    exact hd.keyword_ne_nil hcl

/-- A step with a text. -/
theorem kept_step_text (outline : Bool) (hf : a.Fits d c) (hk : a.kind = .keyword m)
    {blanks text : Text} (hu : m.rest = blanks ++ text) (hne : text ≠ [])
    (htext : Text.trimStart text = text) :
    Kept d a
      (keywordToken m a.cursor.pending (Trivia.piece .whitespace blanks) ::
        (Reading.stepText.text outline (Text.trimEnd text) []
          (Trivia.lineEnd (Text.trailingBlanks text) a.line.ending)).toElement.tokens) [] := by
  have hcl : d.classify a.line.content = .keyword m := hf.kind ▸ hk
  have hspell := Reading.stepText.spells_text outline (Text.trimEnd_ne_nil htext hne) []
    (Trivia.lineEnd (Text.trailingBlanks text) a.line.ending)
  refine .of_quiet rfl rfl (opens_keywordToken hk _ _) ?_ (Trivia.quiet_blanks _)
    (hspell.quiet Trivia.quiet_nil (Trivia.quiet_lineEnd _ _)) ?_
  · rw [Line.full, Dialect.append_of_classify hcl, hu, Token.renderAll_cons, hspell.render]
    simp [keywordToken, Token.plain, Token.render]
    simp [← List.append_assoc]
  · intro hd v hv _
    rcases List.mem_cons.1 hv with rfl | hv
    · exact hd.keyword_ne_nil hcl
    · exact (hspell.present v hv).2

/-- The line of a step: its keyword, its text and the cursor behind the line. -/
def stepLine (outline : Bool) (m : KeywordMatch) (a : Ahead) : Token × Node × Cursor :=
  let ending := a.line.ending
  let (trailing, text) := Line.cutToken m.rest ending
  let keyword : Token := .plain (.ofRole m.role) m.text a.cursor.pending trailing
  let next := a.consume
  if text.isEmpty then
    (keyword, .ofLiterals [.absent .literalToken [] []],
      next.report (.missing next.offset .literalToken))
  else
    (keyword, Reading.stepText.text outline (Text.trimEnd text) []
      (Trivia.lineEnd (Text.trailingBlanks text) ending), next)

/-- A step is its line and the argument below it. -/
theorem step_eq_stepLine (d : Dialect) (outline : Bool) (m : KeywordMatch) (a : Ahead) :
    step d outline m a =
      let (keyword, text, c) := stepLine outline m a
      let (argument, last) := argument d outline c
      (.ofStep keyword text argument, last) := by
  unfold step stepLine
  dsimp only
  split
  · rfl
  · rfl

/-- The line of a step is kept as its keyword and its text, which may be lacking. -/
theorem stepLine_eq (outline : Bool) (h : d.peek? c = some a) (hk : a.kind = .keyword m) :
    ∃ ts es, Kept d a ts es ∧
      .token (stepLine outline m a).1 :: (stepLine outline m a).2.1.leaves = ts.map .token ∧
      (stepLine outline m a).2.2 = a.take es := by
  have hf := Dialect.fits_of_peek? h
  rcases cutToken_cases m.rest a.line.ending with hc | ⟨blanks, text, hne, htext, hsplit, hc⟩
  · refine ⟨_, _, kept_step_bare hf hk, ?_, ?_⟩
    · simp [stepLine, hc, Node.leaves_of_ne, Node.ofLiterals, keywordToken]
    · simp [stepLine, hc, Ahead.take_singleton]
  · refine ⟨_, [], kept_step_text outline hf hk hsplit hne htext, ?_, ?_⟩
    · simp [stepLine, hc, hne, Reading.leaves_text, keywordToken]
    · simp [stepLine, hc, hne, Ahead.take_nil]

/-- What follows the line of a step is the argument. -/
theorem step_eq (outline : Bool) (h : d.peek? c = some a) (hk : a.kind = .keyword m) :
    ∃ ts es, Kept d a ts es ∧
      (step d outline m a).1.leaves =
        ts.map .token ++ Node.optionalLeaves (argument d outline (a.take es)).1 ∧
      (step d outline m a).2 = (argument d outline (a.take es)).2 := by
  obtain ⟨ts, es, hkept, hleaves, hnext⟩ := stepLine_eq outline h hk
  rw [step_eq_stepLine]
  refine ⟨ts, es, hkept, ?_, ?_⟩
  · rw [← hleaves, Node.leaves_of_ne (by simp [Node.ofStep])]
    simp [Node.ofStep, hnext, Node.leaves, Node.leavesAll_optional]
  · simp [hnext]

end Grammar

end GherkinTree
