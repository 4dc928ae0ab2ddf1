import GherkinTree.Proofs.Checked
import GherkinTree.Proofs.Derivation

/-!
No check fails while a document is read. The builders accept what the productions of the grammar
give them, because what a production gives has its form, and every token is made behind its text.
Main statement: the checked reader gives what the reader gives, and that is a tree of the grammar.
-/

namespace GherkinTree

namespace Build

theorem require_eq_ok {b : Bool} (h : b = true) (e : ShapeError) : require b e = .ok () := by
  rw [require, if_pos h]

theorem checkAll_eq_ok {α : Type} {check : α → Except ShapeError Unit} {as : List α}
    (h : ∀ a ∈ as, check a = .ok ()) : checkAll check as = .ok () := by
  induction as with
  | nil => rfl
  | cons a as ih =>
    rw [List.forall_mem_cons] at h
    rw [checkAll, h.1, ih h.2]
    rfl

theorem requireKind_eq_ok {expected found : Kind} (h : found = expected) :
    requireKind expected found = .ok () := require_eq_ok (by simpa using h) _

theorem checkAll_nodes {k : Kind} {ns : List Node} (h : ∀ n ∈ ns, n.kind = k) :
    checkAll (requireNode k) ns = .ok () :=
  checkAll_eq_ok fun n hn => requireKind_eq_ok (h n hn)

theorem checkAll_tokens {k : Kind} {ts : List Token} (h : ∀ t ∈ ts, t.kind = k) :
    checkAll (requireToken k) ts = .ok () :=
  checkAll_eq_ok fun t ht => requireKind_eq_ok (h t ht)

theorem requireOptional_eq_ok {k : Kind} {n : Option Node} (h : ∀ m ∈ n, m.kind = k) :
    requireOptional k n = .ok () :=
  checkAll_nodes fun m hm => h m (Option.mem_toList.1 hm)

theorem requireText_eq_ok {n : Node} (h : n.kind = .literalText ∨ n.kind = .interpolatedText) :
    requireText n = .ok () := require_eq_ok (by simpa using h) _

/-- A header with parts of the right kinds is accepted. -/
theorem checkHeader_eq_ok {keywords : List Kind} {h : Header} (hp : h.Plain)
    (ht : ∀ n ∈ h.tags, n.IsTags) (hk : h.keyword.kind ∈ keywords)
    (hc : h.colon.kind = .colonToken) : checkHeader keywords h = .ok () := by
  rw [checkHeader, requireOptional_eq_ok fun n hn => (ht n hn).kind_eq,
    require_eq_ok (by simpa using hk), requireToken, requireKind_eq_ok hc,
    requireOptional_eq_ok (k := .literalText) fun n hn => (hp.name n hn).kind_eq,
    requireOptional_eq_ok fun n hn => (hp.description n hn).kind_eq]
  rfl

theorem checkHeader_isOf {k : Kind} {keywords : List Kind} {h : Header} (hh : h.IsOf k)
    (hk : k ∈ keywords) : checkHeader keywords h = .ok () :=
  checkHeader_eq_ok hh.toPlain hh.tags (hh.keyword.kind ▸ hk) hh.colon.kind

theorem background_eq_ok {h : Header} {steps : List Node} (hh : h.IsOf .backgroundKeyword)
    (ht : h.tags = none) (hsteps : ∀ n ∈ steps, n.IsStep false) :
    background h steps = .ok (.ofBackground h steps) := by
  rw [background, require_eq_ok (by rw [ht]; rfl), checkHeader_isOf hh (by decide),
    checkAll_nodes fun n hn => (hsteps n hn).kind_eq]
  rfl

theorem examples_eq_ok {h : Header} {table : Option Node} (hh : h.IsOf .examplesKeyword)
    (htable : ∀ n ∈ table, n.IsTable false) : examples h table = .ok (.ofExamples h table) := by
  rw [examples, requireOptional_eq_ok fun n hn => (htable n hn).kind_eq,
    checkHeader_isOf hh (by decide)]
  rfl

theorem scenario_eq_ok {r : Role} (hr : r.isScenario = true) {h : Header} {outline : Bool}
    {steps examples : List Node} (hh : h.IsOf (.ofRole r)) (hsteps : ∀ n ∈ steps, n.IsStep outline)
    (hexamples : ∀ n ∈ examples, n.IsExamples) :
    scenario h steps examples = .ok (.ofScenario h steps examples) := by
  have hk : Kind.ofRole r ∈ [.scenarioKeyword, .scenarioOutlineKeyword] := by
    rcases Role.eq_of_isScenario hr with rfl | rfl <;> decide
  rw [scenario, checkHeader_isOf hh hk, checkAll_nodes fun n hn => (hsteps n hn).kind_eq,
    checkAll_nodes fun n hn => (hexamples n hn).kind_eq]
  rfl

theorem rule_eq_ok {h : Header} {background : Option Node} {scenarios : List Node}
    (hh : h.IsOf .ruleKeyword) (hbackground : ∀ n ∈ background, n.IsBackground)
    (hscenarios : ∀ n ∈ scenarios, n.IsScenario) :
    rule h background scenarios = .ok (.ofRule h background scenarios) := by
  rw [rule, requireOptional_eq_ok fun n hn => (hbackground n hn).kind_eq,
    checkHeader_isOf hh (by decide), checkAll_nodes fun n hn => (hscenarios n hn).kind_eq]
  rfl

theorem feature_eq_ok {h : Header} {background : Option Node} {scenarios rules : List Node}
    (hh : h.IsOf .featureKeyword ∨ h.IsImplied)
    (hbackground : ∀ n ∈ background, n.IsBackground) (hscenarios : ∀ n ∈ scenarios, n.IsScenario)
    (hrules : ∀ n ∈ rules, n.IsRule) :
    feature h background scenarios rules = .ok (.ofFeature h background scenarios rules) := by
  have hheader : checkHeader [.featureKeyword] h = .ok () := by
    rcases hh with hh | hh
    · exact checkHeader_isOf hh (by decide)
    · exact checkHeader_eq_ok hh.toPlain (by simp [hh.tags]) (by simp [hh.keyword.kind])
        hh.colon.kind
  rw [feature, requireOptional_eq_ok fun n hn => (hbackground n hn).kind_eq, hheader,
    checkAll_nodes fun n hn => (hscenarios n hn).kind_eq,
    checkAll_nodes fun n hn => (hrules n hn).kind_eq]
  rfl

theorem document_eq_ok {feature : Option Node} {eof : Token} (hf : ∀ n ∈ feature, n.kind = .feature)
    (he : eof.kind = .endOfFileToken) : document feature eof = .ok (.ofDocument feature eof) := by
  rw [document, requireOptional_eq_ok hf, requireToken, requireKind_eq_ok he]
  rfl

end Build

namespace Checked

open Build

theorem ok_bind {α β : Type} (a : α) (f : α → Except Fault β) : (Except.ok a >>= f) = f a := rfl

theorem node_eq {b : Except ShapeError Node} {n : Node} (h : b = .ok n)
    (hk : n.kind.isNode = true) : node b = .ok n := by
  rw [node, h, build, ok_bind, if_pos hk]
  rfl

theorem build_token_eq {k : Kind} (hk : k.isToken = true) (text : Text)
    (leading trailing : List Trivia) :
    build (Build.token k text leading trailing) = .ok (.plain k text leading trailing) := by
  rw [Build.token, require_eq_ok hk]
  rfl

theorem build_missing_eq {k : Kind} (hk : k.isToken = true) (leading trailing : List Trivia) :
    build (Build.missing k leading trailing) = .ok (.absent k leading trailing) := by
  rw [Build.missing, require_eq_ok hk]
  rfl

theorem build_literal_eq {k : Kind} (hk : k.isLiteral = true) (text value : Text)
    (leading trailing : List Trivia) :
    build (Build.literal k text value leading trailing) =
      .ok (.literal k text value leading trailing) := by
  rw [Build.literal, require_eq_ok hk, require_eq_ok (Node.isToken_of_isLiteral hk)]
  rfl

/-- A token is accepted where the reader has passed its text. -/
theorem token_eq {start position : Nat} {k : Kind} {text : Text} {leading trailing : List Trivia}
    (h : start + Text.width text ≤ position) (hk : k.isToken = true) :
    token start position k text leading trailing = .ok (.plain k text leading trailing) := by
  rw [token, if_pos h, build_token_eq hk]

example : token 3 4 .colonToken [':', ':'] [] [] = .error (.unread 5 4) := by decide

/-- A loop whose rounds pass their checks passes its checks. -/
theorem collect_eq {α : Type} {step : Cursor → Option (List α × Cursor)}
    {checked : Cursor → Except Fault (Option (List α × Cursor))}
    (h : ∀ c, checked c = .ok (step c)) (c : Cursor) :
    collect checked c = .ok (c.collect step) := by
  fun_induction Cursor.collect step c with
  | case1 c hs => rw [collect, h, hs]
  | case2 c xs next hs hl ys last hc ih =>
    rw [collect, h, hs]
    simp only [hl, if_true, ih, hc]
  | case3 c xs next hs hl =>
    rw [collect, h, hs]
    simp only [hl, if_false]

section Text

variable {r : Reading}

theorem part_eq (hr : r.kind.isLiteral = true) (leading trailing : List Trivia) (p : Piece) :
    part r leading trailing p = .ok (r.part leading trailing p) := by
  cases p with
  | literal t =>
    rw [part, build_literal_eq hr]
    rfl
  | placeholder name =>
    rw [part, build_token_eq rfl, build_token_eq rfl, build_token_eq rfl]
    rfl

theorem parts_eq (hr : r.kind.isLiteral = true) (leading trailing : List Trivia)
    (ps : List Piece) :
    parts r leading trailing ps = .ok (r.parts leading trailing ps) := by
  fun_induction Reading.parts r leading trailing ps with
  | case1 => rfl
  | case2 leading p =>
    rw [parts, part_eq hr]
    rfl
  | case3 leading p ps hps ih =>
    rw [parts, part_eq hr, ok_bind, ih]
    · rfl
    · exact hps

theorem interpolated_eq (hr : r.kind.isLiteral = true) {raw : Text} (h : raw ≠ [])
    (leading trailing : List Trivia) :
    interpolated r raw leading trailing = .ok (r.interpolated raw leading trailing) := by
  rw [interpolated, parts_eq hr, ok_bind]
  refine node_eq ?_ rfl
  have hne := r.parts_ne_nil leading trailing (Reading.split_ne_nil h)
  have hparts : checkAll (fun p : Element =>
      require (p.kind.isLiteral || p.kind == .interpolation) (.notTextPart p.kind))
      (r.parts leading trailing (Piece.split raw)) = .ok () := by
    refine checkAll_eq_ok fun p hp => require_eq_ok ?_ _
    cases r.isPart_of_mem_parts p hp with
    | run ht => simp [Element.kind, ht.kind, hr]
    | placeholder hn => simp [Node.toElement, Element.kind, hn.kind_eq]
  rw [Build.parts, require_eq_ok (by simpa using hne), hparts]
  rfl

end Text

theorem literals_eq {t : Token} (h : t.kind.isLiteral = true) :
    node (Build.literals [t]) = .ok (.ofLiterals [t]) := by
  refine node_eq ?_ rfl
  rw [Build.literals, checkAll_eq_ok (by simpa using require_eq_ok h _)]
  rfl

theorem cell_eq (outline : Bool) (c : Cell) : cell outline c = .ok (c.node outline) := by
  unfold cell Cell.node
  by_cases hr : c.raw = []
  · simp only [hr, List.isEmpty_nil, if_true, build_missing_eq (k := .tableLiteralToken) rfl]
    rfl
  · have he : c.raw.isEmpty = false := by simpa using hr
    cases outline with
    | true =>
      simp only [he, Bool.false_eq_true, if_false, if_true, interpolated_eq (r := .cell) rfl hr]
      rfl
    | false =>
      simp only [he, Bool.false_eq_true, if_false, build_literal_eq (k := .tableLiteralToken) rfl]
      rfl

theorem bar_eq (leading trailing : List Trivia) :
    bar leading trailing = .ok (Row.bar leading trailing) := build_token_eq rfl _ _ _

theorem cellsWithBars_eq (outline : Bool) (last : Token) (cs : List Cell) :
    cellsWithBars outline (.ok last) cs = .ok (Row.cellsWithBars outline last cs) := by
  fun_induction Row.cellsWithBars outline last cs with
  | case1 => rfl
  | case2 c =>
    rw [cellsWithBars, cell_eq]
    rfl
  | case3 c cs hcs ih =>
    rw [cellsWithBars, cell_eq, ok_bind, bar_eq, ok_bind, ih]
    · rfl
    · exact hcs

theorem row_eq {t : Token} (ht : t.kind = .verticalBarToken) {cells : List (Node × Token)}
    (hcells : ∀ c ∈ cells, c.1.kind = .tableCell ∧ c.2.kind = .verticalBarToken) :
    node (Build.row t cells) = .ok (.ofRow t cells) := by
  refine node_eq ?_ rfl
  rw [Build.row, requireToken, requireKind_eq_ok ht, checkAll_eq_ok fun c hc => ?_]
  · rfl
  · rw [requireNode, requireKind_eq_ok (hcells c hc).1, requireToken,
      requireKind_eq_ok (hcells c hc).2]
    rfl

theorem rowNode_eq (outline : Bool) (leading lineEnd : List Trivia) (r : Row) :
    rowNode outline leading lineEnd r = .ok (r.node outline leading lineEnd) := by
  have hrow (last : Token) (hlast : last.kind = .verticalBarToken) :
      (cellsWithBars outline (.ok last) r.cells >>= fun cells =>
        node (Build.row (Row.bar leading []) cells)) =
        .ok (.ofRow (Row.bar leading []) (Row.cellsWithBars outline last r.cells)) := by
    obtain ⟨hcells, -⟩ := Row.cellsWithBars_spec outline hlast r.cells
    rw [cellsWithBars_eq, ok_bind]
    exact row_eq rfl fun c hc => ⟨(hcells c hc).1.kind_eq, (hcells c hc).2⟩
  unfold rowNode Row.node
  simp only [bar_eq, ok_bind]
  by_cases hr : r.cells.isEmpty = true
  · simp only [hr, if_true]
    rfl
  · simp only [hr]
    cases r.closed with
    | true =>
      simp only [if_true]
      exact hrow _ rfl
    | false =>
      simp only [Bool.false_eq_true, if_false, build_missing_eq (k := .verticalBarToken) rfl]
      exact hrow _ rfl

variable {d : Dialect} {c : Cursor} {a : Ahead}

theorem row?_eq (d : Dialect) (outline : Bool) (c : Cursor) :
    row? d outline c = .ok (Grammar.row? d outline c) := by
  unfold row? Grammar.row?
  cases d.peek? c with
  | none => rfl
  | some a =>
    obtain ⟨c, l, k⟩ := a
    cases k with
    | tableRow =>
      dsimp only
      rw [rowNode_eq]
      rfl
    | _ => rfl

theorem table_eq (outline : Bool) (ha : d.peek? c = some a) (hk : a.kind = .tableRow) :
    table d outline c = .ok (Grammar.table d outline c) := by
  have hrows := (Grammar.headway_row? d outline).forall_mem_collect
    (fun _ _ _ => Grammar.isRow_of_row?) c
  have hne := Grammar.rows_ne_nil outline ha hk
  have hnode : node (Build.table (c.collect (Grammar.row? d outline)).1) =
      .ok (.ofTable (c.collect (Grammar.row? d outline)).1) := by
    refine node_eq ?_ rfl
    rw [Build.table, require_eq_ok (by simpa using hne),
      checkAll_nodes fun n hn => (hrows n hn).kind_eq]
    rfl
  rw [table, collect_eq (row?_eq d outline), ok_bind]
  dsimp only
  rw [hnode]
  rfl

theorem contentType_eq {start position : Nat} {named : Text}
    (h : start + Text.width named ≤ position) (lineEnd : List Trivia) :
    contentType start position named lineEnd =
      .ok (if named.isEmpty then none
        else some (.ofContentType
          (.plain .docStringContentTypeToken (Text.trimEnd named) [] lineEnd))) := by
  have hw := Text.width_trimEnd_le named
  unfold contentType
  rw [token_eq (by omega) rfl]
  cases named.isEmpty <;> rfl

theorem content_eq (f : Fence) (outline : Bool) (raw : Text) :
    content f outline raw =
      .ok (if raw.isEmpty then none
        else some ((Reading.docString f).text outline raw [] [])) := by
  unfold content
  by_cases hr : raw = []
  · rw [hr]
    rfl
  · have he : raw.isEmpty = false := by simpa using hr
    cases outline with
    | true =>
      simp only [he, Bool.false_eq_true, if_false, if_true,
        interpolated_eq (r := .docString f) rfl hr]
      rfl
    | false =>
      simp only [he, Bool.false_eq_true, if_false, build_literal_eq (k := .docStringContentToken) rfl,
        ok_bind]
      rw [literals_eq rfl]
      rfl

/-- A doc string is accepted if its fences and its parts are of the right kinds. -/
theorem docString_node_eq {first last : Token} (hfirst : first.kind = .docStringDelimiterToken)
    (hlast : last.kind = .docStringDelimiterToken) {b : Bool} {t : Token} {n : Node} {raw : Text}
    (hn : n.kind = .literalText ∨ n.kind = .interpolatedText) :
    node (Build.docString first (if b then none else some (.ofContentType t))
      (if raw.isEmpty then none else some n) last) =
      .ok (.ofDocString first (if b then none else some (.ofContentType t))
        (if raw.isEmpty then none else some n) last) := by
  refine node_eq ?_ rfl
  rw [Build.docString, requireToken, requireKind_eq_ok hfirst, requireToken,
    requireKind_eq_ok hlast, requireOptional_eq_ok, checkAll_eq_ok]
  · rfl
  · intro m hm
    cases hr : raw.isEmpty <;> rw [hr] at hm
    · cases List.mem_singleton.1 hm
      exact requireText_eq_ok hn
    · cases hm
  · intro m hm
    cases b <;> cases hm
    rfl

theorem text_kind (r : Reading) (outline : Bool) (raw : Text) (leading trailing : List Trivia) :
    (r.text outline raw leading trailing).kind = .literalText ∨
      (r.text outline raw leading trailing).kind = .interpolatedText := by
  cases outline with
  | false => exact .inl rfl
  | true => exact .inr rfl

theorem docString_eq (outline : Bool) {f : Fence} (hf : a.Fits d c) (hk : a.kind = .docString f) :
    docString f outline a = .ok (f.docString outline a) := by
  obtain ⟨u, hu⟩ := Dialect.classify_eq_docString (hf.kind ▸ hk)
  have hdrop : a.line.content.drop f.text.length = u := by rw [hu, List.drop_left]
  have hwidth : a.line.width = Text.width f.text + Text.width u + Text.width a.line.ending := by
    simp only [Line.width, Line.full, hu, Text.width_append]
  have hblanks := congrArg Text.width (Text.leadingBlanks_append_trimStart u)
  have hpiece : Trivia.widthOf (Trivia.piece .whitespace (Text.leadingBlanks u)) =
      Text.width (Text.leadingBlanks u) := by rw [← Trivia.width_render, Trivia.render_piece]
  rw [Text.width_append] at hblanks
  unfold docString
  dsimp only
  -- both tokens of the first line end in front of the body
  have hline : a.consume.offset ≤ (f.docString outline a).2.offset := by
    unfold Fence.docString
    dsimp only
    split <;> simp only [Cursor.offset_report] <;> omega
  rw [Ahead.offset_consume] at hline
  rw [hdrop, token_eq (by omega) rfl, ok_bind, contentType_eq (by omega), ok_bind, content_eq,
    ok_bind]
  cases hrest : a.consume.lines.dropWhile fun m => !f.closes m.content with
  | nil =>
    dsimp only
    rw [build_missing_eq rfl, ok_bind, docString_node_eq rfl rfl (text_kind _ _ _ _ _), ok_bind]
    simp only [Fence.docString, hrest, hdrop]
    rfl
  | cons m ms =>
    have hm := congrArg Text.width (Text.leadingBlanks_append_trimStart m.content)
    have ht := Text.width_trimEnd_le (Text.trimStart m.content)
    rw [Text.width_append] at hm
    dsimp only
    rw [token_eq ?_ rfl, ok_bind, docString_node_eq rfl rfl (text_kind _ _ _ _ _), ok_bind]
    · simp only [Fence.docString, hrest, hdrop]
      rfl
    · simp only [Fence.docString, hrest, Line.width, Line.full, Text.width_append, Text.trim]
      omega

theorem argument_eq (d : Dialect) (outline : Bool) (c : Cursor) :
    argument d outline c = .ok (Grammar.argument d outline c) := by
  unfold argument Grammar.argument
  cases ha : d.peek? c with
  | none => rfl
  | some a =>
    have hf := Dialect.fits_of_peek? ha
    obtain ⟨c', l, k⟩ := a
    cases k with
    | tableRow =>
      dsimp only
      rw [table_eq outline (Dialect.peek?_cursor ha) rfl]
      rfl
    | docString f =>
      dsimp only
      rw [docString_eq outline hf rfl]
      rfl
    | _ => rfl

theorem stepText_eq {start position : Nat} (outline : Bool) {raw : Text} (hr : raw ≠ [])
    (h : start + Text.width raw ≤ position) (trailing : List Trivia) :
    stepText start position outline raw trailing =
      .ok (Reading.stepText.text outline raw [] trailing) := by
  unfold stepText
  cases outline with
  | true => exact interpolated_eq rfl hr [] trailing
  | false =>
    simp only [Bool.false_eq_true, if_false, token_eq h (k := .literalToken) rfl, ok_bind]
    rw [literals_eq rfl]
    simp [Reading.text, Reading.token, Reading.stepText, Token.literal, Token.plain]

theorem step_node_eq {keyword : Token} (hk : keyword.kind.isStepKeyword = true) {text : Node}
    (ht : text.kind = .literalText ∨ text.kind = .interpolatedText) {outline : Bool}
    {argument : Option Node} (ha : ∀ n ∈ argument, n.IsTable outline ∨ n.IsDocString outline) :
    node (Build.step keyword text argument) = .ok (.ofStep keyword text argument) := by
  refine node_eq ?_ rfl
  rw [Build.step, require_eq_ok hk, requireText_eq_ok ht, checkAll_eq_ok]
  · rfl
  · intro n hn
    refine require_eq_ok ?_ _
    rcases ha n (Option.mem_toList.1 hn) with h | h <;> simp [h.kind_eq]

theorem isToken_ofRole (r : Role) : (Kind.ofRole r).isToken = true := by cases r <;> rfl

theorem step_eq (outline : Bool) {m : KeywordMatch} (hf : a.Fits d c) (hk : a.kind = .keyword m)
    (hm : m.role.isStep = true) :
    step d outline m a = .ok (Grammar.step d outline m a) := by
  have hcl : d.classify a.line.content = .keyword m := hf.kind ▸ hk
  have hargument (c : Cursor) := Grammar.isArgument_argument (d := d) (c := c) outline
  unfold step Grammar.step
  rcases Grammar.cutToken_cases m.rest a.line.ending with hc | ⟨blanks, text, hne, htext, hsplit, hc⟩
  · simp only [hc, token_eq (Nat.le_add_right _ _) (isToken_ofRole _), ok_bind, List.isEmpty_nil,
      if_true, build_missing_eq (k := .literalToken) rfl,
      literals_eq (t := .absent .literalToken [] []) rfl, argument_eq]
    rw [step_node_eq (Grammar.isStepKeyword_ofRole hm) (.inl rfl) (hargument _)]
    rfl
  · have he : text.isEmpty = false := by simpa using hne
    have hw := Text.width_trimEnd_le text
    have hbehind : a.cursor.offset + Text.width m.text +
        Trivia.widthOf (Trivia.piece .whitespace blanks) + Text.width (Text.trimEnd text) ≤
        a.consume.offset := by
      rw [← Trivia.width_render, Trivia.render_piece, Ahead.offset_consume, Line.width, Line.full,
        Dialect.append_of_classify hcl, hsplit]
      simp only [Text.width_append]
      omega
    simp only [hc, token_eq (Nat.le_add_right _ _) (isToken_ofRole _), ok_bind, he,
      Bool.false_eq_true, if_false, stepText_eq outline (Text.trimEnd_ne_nil htext hne) hbehind,
      argument_eq]
    rw [step_node_eq (Grammar.isStepKeyword_ofRole hm) (text_kind _ _ _ _ _) (hargument _)]
    rfl

theorem tagTokens_eq (position : Nat) (leading rest : List Trivia) (tags : List (Text × Text))
    (start : Nat)
    (h : start + Text.width (tags.flatMap fun p => p.1 ++ p.2) ≤ position) :
    tagTokens start position leading rest tags = .ok (TagLine.tokens leading rest tags) := by
  fun_induction TagLine.tokens leading rest tags generalizing start with
  | case1 => rfl
  | case2 leading tag blanks =>
    simp only [List.flatMap_cons, Text.width_append] at h
    rw [tagTokens, token_eq (by omega) rfl]
    rfl
  | case3 leading tag blanks tags ht ih =>
    simp only [List.flatMap_cons, Text.width_append] at h
    rw [tagTokens, token_eq (by omega) rfl, ok_bind, ih _ (by omega)]
    · rfl
    · exact ht

theorem tagLine?_eq (d : Dialect) (c : Cursor) : tagLine? d c = .ok (Grammar.tagLine? d c) := by
  unfold tagLine? Grammar.tagLine?
  cases d.peek? c with
  | none => rfl
  | some a =>
    obtain ⟨c, l, k⟩ := a
    cases k with
    | tags =>
      have hw := congrArg Text.width (TagLine.tagText_append_rest l.content)
      rw [Text.width_append, TagLine.tagText] at hw
      dsimp only
      rw [tagTokens_eq]
      · rfl
      · simp only [Ahead.offset_consume, Line.width, Line.full, Text.width_append]
        omega
    | _ => rfl

/-- Some tokens of a kind pass as the tokens of a node. -/
theorem tokens_eq_ok {k : Kind} {ts : List Token} (hne : ts ≠ []) (h : ∀ t ∈ ts, t.kind = k)
    (e : ShapeError) (n : Node) :
    (do
      require (!ts.isEmpty) e
      checkAll (requireToken k) ts
      return n : Except ShapeError Node) = .ok n := by
  rw [require_eq_ok (by simpa using hne), checkAll_tokens h]
  rfl

/-- A node that is there if there are any tokens for it. -/
theorem optional_eq {b : Except ShapeError Node} {n : Node} {ts : List Token} (c : Cursor)
    (h : ts ≠ [] → node b = .ok n) :
    (if ts.isEmpty then return (none, c)
      else do
        let n ← node b
        return (some n, c) : Except Fault (Option Node × Cursor)) =
      .ok (if ts.isEmpty then none else some n, c) := by
  cases ts with
  | nil => rfl
  | cons t ts =>
    rw [h (List.cons_ne_nil t ts)]
    rfl

theorem tags_eq (d : Dialect) (c : Cursor) : tags d c = .ok (Grammar.tags d c) := by
  have hts := Grammar.present_of_mem_tagLines (d := d) (c := c)
  rw [tags, collect_eq (tagLine?_eq d), ok_bind, Grammar.tags]
  exact optional_eq _ fun hne =>
    node_eq (tokens_eq_ok hne (fun t ht => (hts t ht).kind) .noTags _) rfl

theorem textToken_eq {start position : Nat} {text : Text} (h : start + Text.width text ≤ position)
    (ending : Text) (leading : List Trivia) :
    textToken start position text ending leading = .ok (Line.textToken text ending leading) := by
  have hw := Text.width_trimEnd_le text
  exact token_eq (by omega) rfl

theorem textLine?_eq (d : Dialect) (c : Cursor) : textLine? d c = .ok (Grammar.textLine? d c) := by
  unfold textLine? Grammar.textLine?
  cases d.peek? c with
  | none => rfl
  | some a =>
    obtain ⟨c, l, k⟩ := a
    cases k with
    | text =>
      dsimp only
      rw [textToken_eq]
      · rfl
      · simp only [Ahead.offset_consume, Line.width, Line.full, Text.width_append]
        omega
    | _ => rfl

theorem description_eq (d : Dialect) (c : Cursor) :
    description d c = .ok (Grammar.description d c) := by
  have hts := Grammar.present_of_mem_textLines (d := d) (c := c)
  rw [description, collect_eq (textLine?_eq d), ok_bind, Grammar.description]
  exact optional_eq _ fun hne =>
    node_eq (tokens_eq_ok hne (fun t ht => (hts t ht).kind) .noDescriptionLines _) rfl

theorem nameOf_eq {start position : Nat} {text : Text} (h : start + Text.width text ≤ position)
    (ending : Text) :
    nameOf start position text ending = .ok (Grammar.nameOf text ending) := by
  unfold nameOf Grammar.nameOf
  rw [textToken_eq h, ok_bind, literals_eq rfl]
  cases text.isEmpty <;> rfl

/-- What is left behind a token on its line lies in front of the next line. -/
theorem cutToken_le (behind ending : Text) :
    Trivia.widthOf (Line.cutToken behind ending).1 + Text.width (Line.cutToken behind ending).2 ≤
      Text.width behind + Text.width ending := by
  rcases Grammar.cutToken_cases behind ending with h | ⟨blanks, text, -, -, hsplit, h⟩
  · rw [h, ← Trivia.width_render, Trivia.render_lineEnd, Text.width_append]
    exact Nat.le_refl _
  · rw [h, ← Trivia.width_render, Trivia.render_piece, hsplit, Text.width_append]
    dsimp only
    omega

theorem titleLine_eq {m : KeywordMatch} (hcl : d.classify a.line.content = .keyword m) :
    titleLine m a = .ok (Grammar.titleLine m a) := by
  have hwidth : a.line.width =
      Text.width m.text + Text.width m.rest + Text.width a.line.ending := by
    rw [Line.width, Line.full, Dialect.append_of_classify hcl, Text.width_append, Text.width_append]
  -- a colon is left behind the keyword only if the line does not end there
  have hcolon (rest : Text) (hr : (Line.cutToken m.rest a.line.ending).2 = ':' :: rest) :
      Trivia.widthOf (Line.cutToken m.rest a.line.ending).1 + Text.width (':' :: rest) ≤
        Text.width m.rest := by
    rcases Grammar.cutToken_cases m.rest a.line.ending with h | ⟨blanks, text, -, -, hsplit, h⟩
    · rw [h] at hr
      cases hr
    · rw [h] at hr ⊢
      cases hr
      rw [← Trivia.width_render, Trivia.render_piece, hsplit, Text.width_append]
  have hle := cutToken_le m.rest a.line.ending
  unfold titleLine
  dsimp only
  generalize hcut : Line.cutToken m.rest a.line.ending = p at hle hcolon ⊢
  obtain ⟨afterKeyword, rest⟩ := p
  dsimp only at hle hcolon ⊢
  rw [token_eq (Nat.le_add_right _ _) (isToken_ofRole _), ok_bind]
  split
  · rename_i rest
    have hname := cutToken_le rest a.line.ending
    have hcolon := hcolon rest rfl
    rw [token_eq (Nat.le_add_right _ _) rfl, ok_bind, nameOf_eq]
    · simp only [Grammar.titleLine, hcut]
      rfl
    · rw [Ahead.offset_consume]
      simp only [Text.width_cons, Text.width_nil] at hcolon ⊢
      omega
  · rw [build_missing_eq rfl, ok_bind, nameOf_eq (by rw [Ahead.offset_consume]; omega), ok_bind]
    simp only [Grammar.titleLine, hcut]
    rfl

theorem absentTitle_eq (role : Role) (c : Cursor) :
    absentTitle role c = .ok (Grammar.absentTitle role c) := by
  rw [absentTitle, build_missing_eq (isToken_ofRole role), ok_bind, build_missing_eq rfl]
  rfl

theorem title_eq (d : Dialect) (role : Role) (c : Cursor) :
    title d role c = .ok (Grammar.title d role c) := by
  unfold title Grammar.title
  cases ha : d.peek? c with
  | none => exact absentTitle_eq role _
  | some a =>
    have hf := Dialect.fits_of_peek? ha
    obtain ⟨c', l, k⟩ := a
    cases k with
    | keyword m =>
      dsimp only
      split
      · exact titleLine_eq hf.kind.symm
      · exact absentTitle_eq role _
    | _ => exact absentTitle_eq role _

theorem header_eq (d : Dialect) (role : Role) (c : Cursor) :
    header d role c = .ok (Grammar.header d role c) := by
  simp only [header, tags_eq, ok_bind, title_eq, description_eq]
  rfl

theorem stepOrSkip?_eq (d : Dialect) (outline : Bool) (c : Cursor) :
    stepOrSkip? d outline c = .ok (Grammar.stepOrSkip? d outline c) := by
  unfold stepOrSkip? Grammar.stepOrSkip?
  cases ha : d.peek? c with
  | none => rfl
  | some a =>
    dsimp only
    cases hk : a.kind with
    | keyword m =>
      dsimp only
      by_cases hm : m.role.isStep = true
      · rw [if_pos hm, if_pos hm, step_eq outline (Dialect.fits_of_peek? ha) hk hm]
        rfl
      · rw [if_neg hm, if_neg hm]
        rfl
    | _ =>
      dsimp only
      cases (Grammar.roleAhead d a).1 with
      | none => rfl
      | some role => by_cases hs : role.isStructural = true <;> simp only [hs] <;> rfl

theorem steps_eq (d : Dialect) (outline : Bool) (c : Cursor) :
    steps d outline c = .ok (Grammar.steps d outline c) := collect_eq (stepOrSkip?_eq d outline) c

theorem background_eq (hr : d.nextRole? c = some .background)
    (hn : Grammar.tagLine? d c = none) : background d c = .ok (Grammar.background d c) := by
  have hh : (Grammar.header d .background c).1.IsOf .backgroundKeyword :=
    Grammar.isOf_header hr rfl rfl
  have ht := Grammar.tags_header_eq_none .background hn
  have hsteps := Grammar.isStep_of_mem_steps (d := d) (c := (Grammar.header d .background c).2) false
  simp only [background, header_eq, ok_bind, steps_eq]
  rw [node_eq (background_eq_ok hh ht hsteps) rfl]
  rfl

theorem examples_eq (hr : d.nextRole? c = some .examples) :
    examples d c = .ok (Grammar.examples d c) := by
  have hh : (Grammar.header d .examples c).1.IsOf .examplesKeyword :=
    Grammar.isOf_header hr rfl rfl
  simp only [examples, header_eq, ok_bind, Grammar.examples]
  generalize Grammar.header d .examples c = p at *
  obtain ⟨h, c₁⟩ := p
  dsimp only at hh ⊢
  have hbare : node (Build.examples h none) = .ok (.ofExamples h none) :=
    node_eq (examples_eq_ok hh nofun) rfl
  cases ha : d.peek? c₁ with
  | none =>
    dsimp only
    rw [hbare]
    rfl
  | some a =>
    have hrow := Dialect.peek?_cursor ha
    obtain ⟨c₂, l, k⟩ := a
    cases k with
    | tableRow =>
      have htable := Grammar.isTable_table false hrow rfl
      simp only [table_eq false hrow rfl, ok_bind]
      rw [node_eq (examples_eq_ok hh (by simpa using htable)) rfl]
      rfl
    | _ =>
      dsimp only
      rw [hbare]
      rfl

theorem examplesOrSkip?_eq (d : Dialect) (c : Cursor) :
    examplesOrSkip? d c = .ok (Grammar.examplesOrSkip? d c) := by
  unfold examplesOrSkip? Grammar.examplesOrSkip?
  cases ha : d.peek? c with
  | none => rfl
  | some a =>
    dsimp only
    have hrole := congrArg Prod.fst (Dialect.roleAhead_eq ha)
    cases hr : (Grammar.roleAhead d a).1 with
    | none => rfl
    | some r =>
      by_cases he : r = .examples
      · subst he
        rw [hr, ← Dialect.nextRole?_cursor ha] at hrole
        dsimp only
        rw [examples_eq hrole.symm]
        rfl
      · cases r <;> first | rfl | exact absurd rfl he

theorem scenario_eq {r : Role} (hr : d.nextRole? c = some r) (hs : r.isScenario = true) :
    scenario d c = .ok (Grammar.scenario d c) := by
  have hh := Grammar.isOf_header hr (Grammar.opens_scenario hs)
    (Grammar.isStructural_of_isScenario hs)
  have hsteps (outline : Bool) (c : Cursor) := Grammar.isStep_of_mem_steps (d := d) (c := c) outline
  have hexamples (c : Cursor) := (Grammar.headway_examplesOrSkip? d).forall_mem_collect
    (fun _ _ _ => Grammar.isExamples_of_examplesOrSkip?) c
  simp only [scenario, header_eq, ok_bind, steps_eq, collect_eq (examplesOrSkip?_eq d)]
  rw [node_eq (scenario_eq_ok hs hh (hsteps _ _) (hexamples _)) rfl]
  rfl

theorem background?_eq (d : Dialect) (c : Cursor) :
    background? d c = .ok (Grammar.background? d c) := by
  unfold background?
  cases ha : d.peek? c with
  | none =>
    rw [Grammar.background?, ha]
    rfl
  | some a =>
    dsimp only
    rw [Dialect.roleAhead_eq ha, Grammar.background?_eq ha]
    by_cases hb : d.nextRole? c = some .background ∧ a.kind ≠ .tags
    · have hk : (a.kind == .tags) = false := by simpa using hb.2
      rw [if_pos hb, hb.1, hk]
      dsimp only
      rw [background_eq (by rw [Dialect.nextRole?_cursor ha, hb.1])
        (Grammar.tagLine?_cursor_eq_none ha hb.2)]
      rfl
    · rw [if_neg hb]
      split
      · rename_i h
        simp at h
        exact absurd h hb
      · rfl

theorem scenarioOrSkip?_eq (d : Dialect) (c : Cursor) :
    scenarioOrSkip? d c = .ok (Grammar.scenarioOrSkip? d c) := by
  unfold scenarioOrSkip? Grammar.scenarioOrSkip?
  cases ha : d.peek? c with
  | none => rfl
  | some a =>
    dsimp only
    have hrole := congrArg Prod.fst (Dialect.roleAhead_eq ha)
    cases hr : (Grammar.roleAhead d a).1 with
    | none => rfl
    | some r =>
      by_cases hs : r.isScenario = true
      · rw [hr, ← Dialect.nextRole?_cursor ha] at hrole
        rcases Role.eq_of_isScenario hs with rfl | rfl
        · dsimp only
          rw [scenario_eq hrole.symm rfl]
          rfl
        · dsimp only
          rw [scenario_eq hrole.symm rfl]
          rfl
      · cases r <;> first | rfl | exact absurd rfl hs

theorem body_eq (d : Dialect) (c : Cursor) : body d c = .ok (Grammar.body d c) := by
  simp only [body, background?_eq, ok_bind, collect_eq (scenarioOrSkip?_eq d)]
  rfl

theorem rule_eq (hr : d.nextRole? c = some .rule) : rule d c = .ok (Grammar.rule d c) := by
  have hh : (Grammar.header d .rule c).1.IsOf .ruleKeyword := Grammar.isOf_header hr rfl rfl
  obtain ⟨hbackground, hscenarios⟩ := Grammar.parts_of_body d (Grammar.header d .rule c).2
  simp only [rule, header_eq, ok_bind, body_eq]
  rw [node_eq (rule_eq_ok hh hbackground hscenarios) rfl]
  rfl

theorem ruleOrSkip?_eq (d : Dialect) (c : Cursor) :
    ruleOrSkip? d c = .ok (Grammar.ruleOrSkip? d c) := by
  unfold ruleOrSkip? Grammar.ruleOrSkip?
  cases ha : d.peek? c with
  | none => rfl
  | some a =>
    dsimp only
    have hrole := congrArg Prod.fst (Dialect.roleAhead_eq ha)
    cases hr : (Grammar.roleAhead d a).1 with
    | none => rfl
    | some r =>
      by_cases he : r = .rule
      · subst he
        rw [hr, ← Dialect.nextRole?_cursor ha] at hrole
        dsimp only
        rw [rule_eq hrole.symm]
        rfl
      · cases r <;> first | rfl | exact absurd rfl he

theorem impliedHeader_eq (d : Dialect) (c : Cursor) :
    impliedHeader d c = .ok (Grammar.impliedHeader d c) := by
  simp only [impliedHeader, build_missing_eq (k := .featureKeyword) rfl, ok_bind,
    build_missing_eq (k := .colonToken) rfl, textLine?_eq, Grammar.impliedHeader]
  cases ht : Grammar.textLine? d _ with
  | none =>
    simp only [description_eq, ok_bind]
    rfl
  | some p =>
    obtain ⟨ts, c₂⟩ := p
    obtain ⟨t, rfl, hpresent⟩ := Grammar.present_of_textLine? ht
    simp only [literals_eq (t := t) (by rw [hpresent.kind]; rfl), description_eq, ok_bind]
    rfl

theorem featureHeader_eq (d : Dialect) (c : Cursor) :
    featureHeader d c = .ok (Grammar.featureHeader d c) := by
  unfold featureHeader Grammar.featureHeader
  cases d.peek? c with
  | none => exact impliedHeader_eq d c
  | some a =>
    dsimp only
    cases (Grammar.roleAhead d a).1 with
    | none => exact impliedHeader_eq d c
    | some r => cases r <;> first | exact header_eq d .feature a.cursor | exact impliedHeader_eq d c

theorem feature_eq (d : Dialect) (c : Cursor) : feature d c = .ok (Grammar.feature d c) := by
  have hh := Grammar.isOf_featureHeader d c
  obtain ⟨hbackground, hscenarios⟩ := Grammar.parts_of_body d (Grammar.featureHeader d c).2
  have hrules (c : Cursor) := (Grammar.headway_ruleOrSkip? d).forall_mem_collect
    (fun _ _ _ => Grammar.isRule_of_ruleOrSkip?) c
  simp only [feature, featureHeader_eq, ok_bind, body_eq, collect_eq (ruleOrSkip?_eq d)]
  rw [node_eq (feature_eq_ok hh hbackground hscenarios (hrules _)) rfl]
  rfl

theorem document_eq (d : Dialect) (c : Cursor) : document d c = .ok (Grammar.document d c) := by
  have hfeature : feature? d c = .ok (Grammar.feature? d c) := by
    unfold feature? Grammar.feature?
    cases d.peek? c with
    | none => rfl
    | some a =>
      simp only [feature_eq, ok_bind]
      rfl
  have hkind : ∀ n ∈ (Grammar.feature? d c).1, n.kind = .feature := by
    intro n hn
    unfold Grammar.feature? at hn
    cases ha : d.peek? c with
    | none =>
      rw [ha] at hn
      cases hn
    | some a =>
      rw [ha] at hn
      cases hn
      rfl
  simp only [document, hfeature, ok_bind]
  rw [token_eq (by simp) rfl, ok_bind, node_eq (document_eq_ok hkind rfl) rfl]
  rfl

theorem parse_eq (d : Dialect) (source : Text) :
    parse d source = .ok (GherkinTree.parse d source) := by
  simp only [parse, document_eq, ok_bind]
  rfl

end Checked

/-- Reading a document fails no check, whatever the document is, and gives a tree of the grammar. -/
theorem FeatureFile.unfailing_parse (o : Options) (text : Text) :
    Checked.parse o.dialect text = .ok (GherkinTree.parse o.dialect text) ∧
      (parse o text).tree.kind = .document ∧ (parse o text).tree.toElement.Derivable :=
  ⟨Checked.parse_eq o.dialect text, rfl, derivable_parse o.dialect text⟩

end GherkinTree
