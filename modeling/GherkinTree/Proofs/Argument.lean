import GherkinTree.Proofs.KeptLine

/-!
The lines of tables and the fences of doc strings. A row is its cells, each with the bar behind it,
and only the bar behind the last may be lacking; a doc string is the line of its first fence, the
lines up to the next line that is the same fence, and that line. Main statements: a row and both
lines with fences are kept, and what stands between the fences is the text of one node.
-/

namespace GherkinTree

namespace Cell

/-- A cell with the blanks around its text. -/
def full (c : Cell) : Text := c.before ++ c.raw ++ c.after

/-- A cell ends at a bar or with the line. -/
theorem cutBar_rest (t : Text) : (cutBar t).2 = [] ∨ ∃ u, (cutBar t).2 = '|' :: u := by
  fun_induction cutBar t <;> simp_all

variable (outline : Bool) (c : Cell)

theorem renderAll_node : Token.renderAll (c.node outline).toElement.tokens = c.full := by
  by_cases hr : c.raw = []
  · simp [node, hr, Node.ofCell, Node.toElement, Token.absent, Token.render, full]
  · cases outline with
    | true =>
      have hs := Reading.cell.spells_interpolated hr (Trivia.piece .whitespace c.before)
        (Trivia.piece .whitespace c.after)
      simpa [node, hr, Node.ofCell, Node.toElement, full] using hs.render
    | false =>
      have hs := Reading.cell.spells_token hr (Trivia.piece .whitespace c.before)
        (Trivia.piece .whitespace c.after)
      simpa [node, hr, Node.ofCell, Node.toElement, full] using hs.render

/-- Nothing is wrong with a cell: one without text is empty and not lacking. -/
theorem quiet_node : ∀ t ∈ (c.node outline).toElement.tokens,
    t.Quiet ∧ (t.missing = false → t.text ≠ []) := by
  have hb := Trivia.quiet_blanks c.before
  have ha := Trivia.quiet_blanks c.after
  by_cases hr : c.raw = []
  · intro t ht
    have he : t = .absent .tableLiteralToken (Trivia.piece .whitespace c.before)
        (Trivia.piece .whitespace c.after) := by
      simpa [node, hr, Node.ofCell, Node.toElement] using ht
    subst he
    refine ⟨⟨hb, ha, rfl⟩, fun hm => ?_⟩
    cases hm
  · have hs : Spells (c.node outline).toElement.tokens (Trivia.piece .whitespace c.before) c.raw
        (Trivia.piece .whitespace c.after) := by
      cases outline with
      | true => simpa [node, hr, Node.ofCell, Node.toElement] using
          Reading.cell.spells_interpolated hr _ _
      | false => simpa [node, hr, Node.ofCell, Node.toElement] using
          Reading.cell.spells_token hr _ _
    exact fun t ht => ⟨hs.quiet hb ha t ht, fun _ => (hs.present t ht).2⟩

theorem leaves_node : (c.node outline).leaves = (c.node outline).toElement.tokens.map .token := by
  have hk : (c.node outline).kind ≠ .docString := by simp [node, Node.ofCell]
  rw [Node.leaves_of_ne hk]
  by_cases hr : c.raw = []
  · simp [node, hr, Node.ofCell, Node.toElement]
  · cases outline with
    | true =>
      have hl := Reading.cell.leaves_interpolated c.raw (Trivia.piece .whitespace c.before)
        (Trivia.piece .whitespace c.after)
      rw [Node.leaves] at hl
      simp [node, hr, Node.ofCell, Node.toElement] at hl ⊢
      exact hl
    | false => simp [node, hr, Node.ofCell, Node.toElement]

end Cell

namespace Row

/-- Cells, each with a bar behind it; the last bar may be lacking. -/
def barred (closed : Bool) : List Cell → Text
  | [] => []
  | [c] => c.full ++ if closed then ['|'] else []
  | c :: cs => c.full ++ '|' :: barred closed cs

theorem barred_cons (closed : Bool) (c : Cell) {cs : List Cell} (h : cs ≠ []) :
    barred closed (c :: cs) = c.full ++ '|' :: barred closed cs := by
  cases cs with
  | nil => exact absurd rfl h
  | cons c' cs => rfl

/-- A row whose last bar is lacking has a cell in front of it and nothing behind it. -/
theorem of_not_closed {t : Text} (h : (split t).closed = false) :
    (split t).cells ≠ [] ∧ (split t).rest = [] := by
  fun_induction split t with
  | case1 t ht => cases h
  | case2 t ht raw cell hc => simp
  | case3 t ht raw cell x r hc row ih =>
    exact ⟨List.cons_ne_nil _ _, (ih h).2⟩

/-- The cells, their bars and the blanks behind the last bar make up the row. -/
theorem barred_append_rest (t : Text) :
    barred (split t).closed (split t).cells ++ (split t).rest = t := by
  fun_induction split t with
  | case1 t ht => rfl
  | case2 t ht raw cell hc =>
    have happ := Cell.cutBar_append (Text.trimStart t)
    rw [hc, List.append_nil] at happ
    simp [barred, Cell.full, cell, raw, happ]
  | case3 t ht raw cell x r hc row ih =>
    have hx : x = '|' := by
      rcases Cell.cutBar_rest (Text.trimStart t) with he | ⟨u, he⟩
      · rw [hc] at he
        cases he
      · rw [hc] at he
        exact (List.cons.inj he).1
    have happ := Cell.cutBar_append (Text.trimStart t)
    have hcell : cell.full ++ '|' :: r = t := by
      rw [hc, hx] at happ
      simp only [Cell.full, cell, raw]
      rw [List.append_assoc, List.append_assoc, ← List.append_assoc (Text.trimEnd _),
        Text.trimEnd_append_trailingBlanks, happ, Text.leadingBlanks_append_trimStart]
    by_cases hr : row.cells = []
    · -- a row without cells is closed: nothing but blanks follows its bar
      have hclosed : row.closed = true := by
        cases h : row.closed with
        | true => rfl
        | false => exact absurd hr (of_not_closed h).1
      rw [hr, barred, List.nil_append] at ih
      rw [hr, barred, hclosed, ih, if_pos rfl, List.append_assoc]
      exact hcell
    · rw [barred_cons _ _ hr, List.append_assoc, List.cons_append, ih]
      exact hcell

/-- The children of a row behind its first bar. -/
def elements (cells : List (Node × Token)) : List Element :=
  cells.flatMap fun c => [c.1.toElement, .token c.2]

theorem elements_cons (c : Node × Token) (cs : List (Node × Token)) :
    elements (c :: cs) = c.1.toElement :: .token c.2 :: elements cs := rfl

theorem leavesAll_cells (outline : Bool) (last : Token) (cs : List Cell) :
    Element.leavesAll false (elements (cellsWithBars outline last cs)) =
      (Element.tokensAll (elements (cellsWithBars outline last cs))).map .token := by
  have hl (c : Cell) := c.leaves_node outline
  simp only [Node.leaves] at hl
  fun_induction cellsWithBars outline last cs with
  | case1 => simp [elements]
  | case2 c => simp [elements, hl]
  | case3 c cs hcs ih => simp [elements_cons, hl, ih]

/-- Behind the first bar, nothing but the last bar can be lacking. -/
theorem tokens_cells (outline : Bool) (last : Token) {cs : List Cell} (h : cs ≠ []) :
    ∃ us, Element.tokensAll (elements (cellsWithBars outline last cs)) = us ++ [last] ∧
      (∀ u ∈ us, u.Quiet ∧ (u.missing = false → u.text ≠ [])) ∧
      ∀ closed, Token.renderAll us ++ (if closed then ['|'] else []) = barred closed cs := by
  fun_induction cellsWithBars outline last cs with
  | case1 => exact absurd rfl h
  | case2 c =>
    refine ⟨_, by simp [elements], c.quiet_node outline, fun closed => ?_⟩
    rw [c.renderAll_node, barred]
  | case3 c cs hcs ih =>
    have hne : cs ≠ [] := by simpa using hcs
    obtain ⟨us, hus, hq, hr⟩ := ih hne
    refine ⟨(c.node outline).toElement.tokens ++ bar [] [] :: us, ?_, ?_, fun closed => ?_⟩
    · simp [elements_cons, hus]
    · intro u hu
      rcases List.mem_append.1 hu with hu | hu
      · exact c.quiet_node outline u hu
      · rcases List.mem_cons.1 hu with rfl | hu
        · exact ⟨⟨Trivia.quiet_nil, Trivia.quiet_nil, rfl⟩, fun _ => List.cons_ne_nil _ _⟩
        · exact hq u hu
    · rw [barred_cons closed c hne, ← hr closed]
      simp [c.renderAll_node, bar, Token.plain, Token.render]

end Row

/-- What happens on a row that ends at an offset. -/
def Row.events (r : Row) (stop : Nat) : List Event :=
  if r.closed then [] else [.missing stop .verticalBarToken]

section Rows

variable {d : Dialect} {c : Cursor} {a : Ahead}

theorem Row.opens_bar (hk : a.kind = .tableRow) (leading trailing : List Trivia) :
    a.kind.Opens a.line.content (bar leading trailing) := by
  rw [hk]
  rfl

/-- A row that is nothing but a bar. -/
theorem Row.kept_bar (hk : a.kind = .tableRow) {rest : Text} (hu : a.line.content = '|' :: rest) :
    Kept d a [bar a.cursor.pending (Trivia.lineEnd rest a.line.ending)] [] := by
  refine .of_quiet rfl rfl (opens_bar hk _ _) ?_ (Trivia.quiet_lineEnd _ _) nofun ?_
  · simp [bar, Token.plain, Token.render, Line.full, hu]
  · intro _ v hv _
    rw [List.mem_singleton.1 hv]
    exact List.cons_ne_nil _ _

/-- A row whose last cell is closed by a bar. -/
theorem Row.kept_closed (hk : a.kind = .tableRow) {us : List Token} {rest : Text}
    (hq : ∀ u ∈ us, u.Quiet ∧ (u.missing = false → u.text ≠ []))
    (hu : a.line.content = '|' :: (Token.renderAll us ++ '|' :: rest)) :
    Kept d a (bar a.cursor.pending [] :: (us ++ [bar [] (Trivia.lineEnd rest a.line.ending)]))
      [] := by
  refine .of_quiet rfl rfl (opens_bar hk _ _) ?_ Trivia.quiet_nil ?_ ?_
  · simp [bar, Token.plain, Token.render, Line.full, hu]
  · intro v hv
    rcases List.mem_append.1 hv with hv | hv
    · exact (hq v hv).1
    · rw [List.mem_singleton.1 hv]
      exact ⟨Trivia.quiet_nil, Trivia.quiet_lineEnd _ _, rfl⟩
  · intro _ v hv hm
    rcases List.mem_cons.1 hv with rfl | hv
    · exact List.cons_ne_nil _ _
    · rcases List.mem_append.1 hv with hv | hv
      · exact (hq v hv).2 hm
      · rw [List.mem_singleton.1 hv]
        exact List.cons_ne_nil _ _

/-- A row whose last bar is lacking; it is reported at the end of the line. -/
theorem Row.kept_open (hk : a.kind = .tableRow) {us : List Token}
    (hq : ∀ u ∈ us, u.Quiet ∧ (u.missing = false → u.text ≠ []))
    (hu : a.line.content = '|' :: Token.renderAll us) :
    Kept d a
      (bar a.cursor.pending [] :: us ++
        [.absent .verticalBarToken [] (Trivia.lineEnd [] a.line.ending)])
      [.missing (a.cursor.offset + Text.width a.line.content) .verticalBarToken] := by
  refine .of_missing rfl rfl (opens_bar hk _ _) ?_ Trivia.quiet_nil (fun v hv => (hq v hv).1)
    (Trivia.quiet_lineEnd _ _) (by decide) (by simp [hk]) ?_ ?_ ?_
  · simp [bar, Token.plain, Token.absent, Token.render, Line.full, hu]
  · rw [← Trivia.width_render, Trivia.render_lineEnd, List.nil_append, Line.width, Line.full,
      Text.width_append]
    omega
  · rw [hu, Text.width_cons]
    have := ('|' : Char).utf8Size_pos
    omega
  · intro _ v hv hm
    rcases List.mem_cons.1 hv with rfl | hv
    · exact List.cons_ne_nil _ _
    · exact (hq v hv).2 hm

theorem Row.leaves_ofRow (outline : Bool) (first last : Token) (cs : List Cell) :
    (Node.ofRow first (cellsWithBars outline last cs)).leaves =
      (first :: Element.tokensAll (elements (cellsWithBars outline last cs))).map .token := by
  rw [Node.leaves_of_ne (by simp [Node.ofRow]), List.map_cons, ← leavesAll_cells]
  simp [Node.ofRow, elements]

/-- The leaves of a row are the tokens that its line becomes. -/
theorem kept_row (outline : Bool) (ha : a.Fits d c) (hk : a.kind = .tableRow) {row : Row}
    (hr : row = Row.split a.line.content.tail) :
    ∃ ts, Kept d a ts (row.events (a.cursor.offset + Text.width a.line.content)) ∧
      (row.node outline a.cursor.pending (Trivia.lineEnd row.rest a.line.ending)).leaves =
        ts.map .token := by
  obtain ⟨u, hu⟩ := Dialect.classify_eq_tableRow (ha.kind ▸ hk)
  rw [hu, List.tail_cons] at hr
  have hrow := Row.barred_append_rest u
  have hclosed := @Row.of_not_closed u
  rw [← hr] at hrow hclosed
  rw [← hrow] at hu
  by_cases hc : row.cells = []
  · have ht : row.closed = true := by
      cases h : row.closed with
      | true => rfl
      | false => exact absurd hc (hclosed h).1
    rw [hc, Row.barred, List.nil_append] at hu
    rw [Row.events, if_pos ht]
    exact ⟨_, Row.kept_bar hk hu, by simp [Row.node, hc, Node.leaves_of_ne, Node.ofRow]⟩
  · cases ht : row.closed with
    | true =>
      obtain ⟨us, hus, hq, hren⟩ :=
        Row.tokens_cells outline (Row.bar [] (Trivia.lineEnd row.rest a.line.ending)) hc
      rw [ht, ← hren true, if_pos rfl, List.append_assoc] at hu
      rw [Row.events, if_pos ht]
      exact ⟨_, Row.kept_closed hk hq hu, by simp [Row.node, hc, ht, Row.leaves_ofRow, hus]⟩
    | false =>
      have hrest := (hclosed ht).2
      obtain ⟨us, hus, hq, hren⟩ := Row.tokens_cells outline
        (.absent .verticalBarToken [] (Trivia.lineEnd [] a.line.ending)) hc
      rw [ht, ← hren false, hrest, if_neg nofun, List.append_nil, List.append_nil] at hu
      rw [Row.events, if_neg (by simp [ht])]
      exact ⟨_, Row.kept_open hk hq hu, by simp [Row.node, hc, ht, Row.leaves_ofRow, hus, hrest]⟩

end Rows

/-- A row of a table is kept as its bars and cells. -/
theorem Grammar.row?_eq {d : Dialect} {c : Cursor} {a : Ahead} (outline : Bool)
    (h : d.peek? c = some a) (hk : a.kind = .tableRow) :
    ∃ n ts es, Kept d a ts es ∧ n.leaves = ts.map .token ∧
      row? d outline c = some ([n], a.take es) := by
  obtain ⟨ts, ht, hl⟩ := kept_row outline (Dialect.fits_of_peek? h) hk rfl
  refine ⟨_, ts, _, ht, hl, ?_⟩
  obtain ⟨cur, l, k⟩ := a
  cases hk
  simp only [row?, h, Row.events]
  split
  · rw [Ahead.take_nil]
  · rw [Ahead.take_singleton]

theorem Grammar.row?_eq_none {d : Dialect} {c : Cursor} (outline : Bool)
    (h : ∀ a, d.peek? c = some a → a.kind ≠ .tableRow) : row? d outline c = none := by
  unfold row?
  split
  · exact absurd rfl (h _ (by assumption))
  · rfl

namespace Fence

variable {d : Dialect} {c : Cursor} {a : Ahead} {f : Fence}

theorem text_ne_nil (f : Fence) : f.text ≠ [] := List.cons_ne_nil _ _

/-- A line that closes a doc string begins with the fence. -/
theorem trimStart_of_closes {t : Text} (h : f.closes t = true) :
    ∃ u, Text.trimStart t = f.text ++ u := by
  have ht : Text.trim t = f.text := beq_iff_eq.1 h
  refine ⟨Text.trailingBlanks (Text.trimStart t), ?_⟩
  rw [← ht, Text.trim, Text.trimEnd_append_trailingBlanks]

theorem classify_text (d : Dialect) (f : Fence) (u : Text) :
    d.classify (f.text ++ u) = .docString f := by
  cases f <;> simp [Dialect.classify, text, mark, atStart?, all, Text.startsWith, Text.after?]

theorem begins_text (f : Fence) (u e : Text) : Line.Begins ⟨f.text ++ u, e⟩ := by
  cases f
  · exact ⟨_, _, rfl, by decide, by decide⟩
  · exact ⟨_, _, rfl, by decide, by decide⟩

/-- The tokens of the line that opens a doc string: the fence and the type of the content. -/
def opening (f : Fence) (a : Ahead) : List Token :=
  let behind := a.line.content.drop f.text.length
  let blanks := Trivia.piece .whitespace (Text.leadingBlanks behind)
  let named := Text.trimStart behind
  let lineEnd := Trivia.lineEnd (Text.trailingBlanks named) a.line.ending
  if named.isEmpty then [.plain .docStringDelimiterToken f.text a.cursor.pending (blanks ++ lineEnd)]
  else [.plain .docStringDelimiterToken f.text a.cursor.pending blanks,
    .plain .docStringContentTypeToken (Text.trimEnd named) [] lineEnd]

theorem kept_opening (ha : a.Fits d c) (hk : a.kind = .docString f) :
    Kept d a (f.opening a) [] := by
  obtain ⟨u, hu⟩ := Dialect.classify_eq_docString (ha.kind ▸ hk)
  have hdrop : a.line.content.drop f.text.length = u := by rw [hu, List.drop_left]
  have hfull : a.line.full = f.text ++ (u ++ a.line.ending) := by
    rw [Line.full, hu, List.append_assoc]
  have hopen (t : Token) (ht : t.kind = .docStringDelimiterToken) :
      a.kind.Opens a.line.content t := by
    rw [hk]
    exact ht
  have happ := Text.leadingBlanks_append_trimStart u
  simp only [opening, hdrop]
  by_cases hn : Text.trimStart u = []
  · rw [hn, List.append_nil] at happ
    rw [if_pos (by simp [hn]), hn, happ]
    refine .of_quiet rfl rfl (hopen _ rfl) ?_
      ((Trivia.quiet_blanks _).append (Trivia.quiet_lineEnd _ _)) (List.forall_mem_nil _) ?_
    · simp [Token.plain, Token.render, hfull, Text.trailingBlanks, Text.cutEnd]
    · intro _ v hv _
      rw [List.mem_singleton.1 hv]
      exact f.text_ne_nil
  · have hsolid := Text.trimStart_trimStart u
    rw [if_neg (by simp [hn])]
    refine .of_quiet rfl rfl (hopen _ rfl) ?_ (Trivia.quiet_blanks _) ?_ ?_
    · simp [Token.plain, Token.render, hfull]
      simp [← List.append_assoc]
    · intro v hv
      rw [List.mem_singleton.1 hv]
      exact ⟨Trivia.quiet_nil, Trivia.quiet_lineEnd _ _, rfl⟩
    · intro _ v hv _
      simp only [List.mem_cons, List.not_mem_nil, or_false] at hv
      rcases hv with rfl | rfl
      · exact f.text_ne_nil
      · exact Text.trimEnd_ne_nil hsolid hn

/-- The line that closes a doc string, seen from the body above it. -/
theorem peek?_of_closes {l : Line} {ls : List Line} (h : f.closes l.content = true)
    (hc : c.lines = l :: ls) :
    ∃ a, d.peek? c = some a ∧ a.kind = .docString f ∧
      a.cursor.pending = c.pending ++ Trivia.piece .whitespace (Text.leadingBlanks l.content) ∧
      a.line = ⟨Text.trimStart l.content, l.ending⟩ ∧ a.cursor.lines.tail = ls ∧
      a.cursor.offset = c.offset + Text.width (Text.leadingBlanks l.content) ∧
      a.cursor.events = c.events := by
  obtain ⟨u, hu⟩ := trimStart_of_closes h
  have htriv : Line.isTrivial (Text.trimStart l.content) = false := by
    rw [hu]
    exact (f.begins_text u l.ending).not_trivial
  have hcut : Cursor.cutTrivia c.lines =
      (Trivia.piece .whitespace (Text.leadingBlanks l.content),
        ⟨Text.trimStart l.content, l.ending⟩ :: ls) := by
    rw [hc, Cursor.cutTrivia, if_neg (by simp [htriv])]
  refine ⟨⟨c.advance, ⟨Text.trimStart l.content, l.ending⟩, .docString f⟩, ?_, rfl, ?_, rfl, ?_,
    ?_, rfl⟩
  · rw [Dialect.peek?, Cursor.lines_advance, hcut]
    simp [hu, classify_text]
  · rw [Cursor.pending_advance, hcut]
  · rw [Cursor.lines_advance, hcut, List.tail_cons]
  · rw [Cursor.offset_advance, hcut, ← Trivia.width_render, Trivia.render_piece]

theorem kept_closing {l : Line} (h : f.closes l.content = true) (hk : a.kind = .docString f)
    (hp : a.cursor.pending = Trivia.piece .whitespace (Text.leadingBlanks l.content))
    (hl : a.line = ⟨Text.trimStart l.content, l.ending⟩) : Kept d a [closing l] [] := by
  have ht : Text.trim l.content = f.text := beq_iff_eq.1 h
  refine .of_quiet hp.symm rfl ?_ ?_ (Trivia.quiet_lineEnd _ _) nofun ?_
  · rw [hk]
    exact rfl
  · simp [closing, Token.plain, Token.render, hp, hl, Line.full, Text.trim]
    simp [← List.append_assoc]
  · intro _ v hv _
    rw [List.mem_singleton.1 hv]
    change Text.trim l.content ≠ []
    rw [ht]
    exact f.text_ne_nil

section Parts

variable (f : Fence) (outline : Bool)

/-- The first fence, with what is pending in front of it. -/
def first (pending : List Trivia) (l : Line) : Token :=
  let behind := l.content.drop f.text.length
  let named := Text.trimStart behind
  let blanks := Trivia.piece .whitespace (Text.leadingBlanks behind)
  .plain .docStringDelimiterToken f.text pending
    (if named.isEmpty then blanks ++ Trivia.lineEnd (Text.trailingBlanks named) l.ending
    else blanks)

/-- The type of the content, named behind the first fence. -/
def contentType? (l : Line) : Option Node :=
  let named := Text.trimStart (l.content.drop f.text.length)
  if named.isEmpty then none
  else some (.ofContentType (.plain .docStringContentTypeToken (Text.trimEnd named) []
    (Trivia.lineEnd (Text.trailingBlanks named) l.ending)))

/-- The content, if there is any text between the fences. -/
def content? (body : List Line) : Option Node :=
  if (Line.join body).isEmpty then none
  else some ((Reading.docString f).text outline (Line.join body) [] [])

theorem kind_contentType? (l : Line) :
    ∀ n ∈ f.contentType? l, n.kind = .docStringContentType := by
  intro n hn
  simp only [contentType?, Option.mem_def, Option.ite_none_left_eq_some, Option.some.injEq] at hn
  obtain ⟨-, rfl⟩ := hn
  rfl

theorem kind_content? (body : List Line) :
    ∀ n ∈ f.content? outline body, n.kind = .literalText ∨ n.kind = .interpolatedText := by
  intro n hn
  simp only [content?, Option.mem_def, Option.ite_none_left_eq_some, Option.some.injEq] at hn
  obtain ⟨-, rfl⟩ := hn
  cases outline
  · exact .inl rfl
  · exact .inr rfl

/-- The last fence, on the line behind the body. -/
def last : List Line → Token
  | [] => .absent .docStringDelimiterToken [] []
  | m :: _ => closing m

/-- The lines up to the next line that is the fence. -/
def body (ls : List Line) : List Line := ls.takeWhile fun m => !f.closes m.content

/-- The lines from the next line on that is the fence. -/
def behindBody (ls : List Line) : List Line := ls.dropWhile fun m => !f.closes m.content

theorem body_cons (m : Line) (ls : List Line) :
    f.body (m :: ls) = if f.closes m.content then [] else m :: f.body ls := by
  cases h : f.closes m.content <;> simp [body, h]

theorem behindBody_cons (m : Line) (ls : List Line) :
    f.behindBody (m :: ls) = if f.closes m.content then m :: ls else f.behindBody ls := by
  cases h : f.closes m.content <;> simp [behindBody, h]

theorem body_append_behindBody (ls : List Line) : f.body ls ++ f.behindBody ls = ls :=
  List.takeWhile_append_dropWhile

theorem not_closes_body {ls : List Line} {m : Line} (h : m ∈ f.body ls) :
    f.closes m.content = false := by
  have hopen := List.all_eq_true.1 List.all_takeWhile m h
  simpa using hopen

theorem closes_behindBody {ls : List Line} {m : Line} (h : (f.behindBody ls).head? = some m) :
    f.closes m.content = true := by
  have hhead := List.head?_dropWhile_not (fun m : Line => !f.closes m.content) ls
  rw [← behindBody, h] at hhead
  simpa using hhead

/-- A doc string is its parts. -/
theorem docString_eq (a : Ahead) :
    (f.docString outline a).1 =
      .ofDocString (f.first a.cursor.pending a.line) (f.contentType? a.line)
        (f.content? outline (f.body a.consume.lines)) (last (f.behindBody a.consume.lines)) := by
  unfold docString
  dsimp only
  split
  · rename_i h
    rw [behindBody, h]
    rfl
  · rename_i h
    rw [behindBody, h]
    rfl

theorem kind_docString (a : Ahead) : (f.docString outline a).1.kind = .docString := by
  rw [f.docString_eq]
  rfl

theorem fullWidth_closing (m : Line) : (closing m).fullWidth = m.width := by
  have hr : (closing m).render = m.full := by
    simp [closing, Token.plain, Token.render, Line.full, Text.trim]
    simp [← List.append_assoc]
  rw [← Token.width_render, hr, Line.width]

/-- The reader goes on behind the last fence. -/
theorem cursor_docString (a : Ahead) :
    (f.docString outline a).2.lines = (f.behindBody a.consume.lines).tail ∧
      (f.docString outline a).2.offset = a.consume.offset +
        Text.width (Line.join (f.body a.consume.lines)) +
          (last (f.behindBody a.consume.lines)).fullWidth ∧
      (f.docString outline a).2.pending = [] := by
  unfold docString
  dsimp only
  split
  · rename_i h
    rw [behindBody, h]
    exact ⟨rfl, rfl, rfl⟩
  · rename_i h
    rw [behindBody, h, last, fullWidth_closing]
    exact ⟨rfl, rfl, rfl⟩

end Parts

/-- The leaf for the lines between two fences. -/
def bodyLeaves (f : Fence) (outline : Bool) (body : List Line) : List Leaf :=
  if (Line.join body).isEmpty then []
  else [.content ((Reading.docString f).text outline (Line.join body) [] []).toElement]

theorem content_bodyLeaves (f : Fence) (outline : Bool) (body : List Line) :
    (f.bodyLeaves outline body = [] ∧ Line.join body = []) ∨
      ∃ e, f.bodyLeaves outline body = [.content e] ∧ Content e (Line.join body) := by
  by_cases hb : Line.join body = []
  · exact .inl ⟨by rw [bodyLeaves, if_pos (by simp [hb])], hb⟩
  · have hs := (Reading.docString f).spells_text outline hb [] []
    refine .inr ⟨_, by rw [bodyLeaves, if_neg (by simp [hb])], hb, ?_, ?_, ?_⟩
    · rw [← Element.renderAll_tokens, hs.render]
      simp
    · exact (Reading.docString f).bodies_text outline _ [] []
    · exact fun t ht => ⟨(hs.bare t ht).1, (hs.bare t ht).2, hs.present t ht⟩

/-- The leaves of a doc string are the tokens of its first line, its body and its last fence. -/
theorem leaves_ofDocString (f : Fence) (outline : Bool) (a : Ahead) (body : List Line)
    (last : Token) :
    (Node.ofDocString (f.first a.cursor.pending a.line) (f.contentType? a.line)
      (f.content? outline body) last).leaves =
      (f.opening a).map .token ++ f.bodyLeaves outline body ++ [.token last] := by
  have ht := (Reading.docString f).isText_text outline (Line.join body) [] []
  have hc (t : Token) : (Node.ofContentType t).toElement.isText = false := rfl
  have hl (t : Token) : (Node.ofContentType t).toElement.leaves = [.token t] := by
    simp [Node.ofContentType, Node.toElement, Element.leaves_node]
  rw [Node.leaves, Node.toElement, Element.leaves_node, Node.ofDocString]
  simp only [first, contentType?, content?, bodyLeaves, opening]
  by_cases hn : (Text.trimStart (a.line.content.drop f.text.length)).isEmpty = true
  · by_cases hb : (Line.join body).isEmpty = true <;> simp [hn, hb, Node.optional, ht]
  · by_cases hb : (Line.join body).isEmpty = true <;> simp [hn, hb, Node.optional, ht, hc, hl]

/-- A doc string below a step is its first fence, its body and, if the document does not end before,
its last fence. -/
theorem reads_docString (outline : Bool) {s : Scope} (h : d.peek? c = some a)
    (hk : a.kind = .docString f) (hs : s.place = .step) :
    Reads d s c (f.docString outline a).1.leaves (f.docString outline a).2
      fun s' => s.SameSection s' ∧ s'.place = .elsewhere := by
  have hfirst : Reads d s c ((f.opening a).map .token) (a.take [])
      fun s' => s.SameSection s' ∧ s'.place = .fence f := by
    refine .keep h ?_ (kept_opening (Dialect.fits_of_peek? h) hk) ?_
    · simp [hk, Scope.keeps, hs]
    · rw [hk]
      exact ⟨s.sameSection_next rfl true, by simp [Scope.next, hs]⟩
  have hlines : (a.take []).lines =
      (a.consume.lines.takeWhile fun m => !f.closes m.content) ++
        a.consume.lines.dropWhile fun m => !f.closes m.content :=
    List.takeWhile_append_dropWhile.symm
  have hclose := List.head?_dropWhile_not (fun m : Line => !f.closes m.content) a.consume.lines
  simp only [docString]
  generalize (a.consume.lines.takeWhile fun m => !f.closes m.content) = body at hlines
  generalize (a.consume.lines.dropWhile fun m => !f.closes m.content) = rest at hlines hclose
  have hbody (s' : Scope) (hp : s.SameSection s' ∧ s'.place = .fence f) :
      Reads d s' (a.take []) (f.bodyLeaves outline body)
        ⟨rest, a.consume.offset + Text.width (Line.join body), [], a.cursor.events⟩
        fun s' => s.SameSection s' ∧ s'.place = .fence f := by
    have hm := Move.content (d := d) hp.2 rfl hlines (f.content_bodyLeaves outline body)
    simp only [Ahead.take_nil] at hm ⊢
    exact .move hm hp
  have hboth := hfirst.append hbody
  have hleaves := f.leaves_ofDocString outline a body
  simp only [first, contentType?, content?] at hleaves
  cases rest with
  | nil =>
    dsimp only
    rw [hleaves]
    refine hboth.append fun s' hp => ?_
    exact .move (.unclosed hp.2 rfl rfl) ⟨hp.1, rfl⟩
  | cons m ms =>
    dsimp only
    rw [hleaves]
    refine hboth.append fun s' hp => ?_
    have hm : f.closes m.content = true := by simpa using hclose
    obtain ⟨a', hpeek, hkind, hpend, hline, htail, hoff, hev⟩ := peek?_of_closes (d := d) hm
      (c := ⟨m :: ms, a.consume.offset + Text.width (Line.join body), [], a.cursor.events⟩) rfl
    have hcur : a'.take [] = { a.consume with
        lines := ms, offset := a.consume.offset + Text.width (Line.join body) + m.width } := by
      have hw : m.width = Text.width (Text.leadingBlanks m.content) + a'.line.width := by
        have := congrArg Text.width (Text.leadingBlanks_append_trimStart m.content)
        simp only [hline, Line.width, Line.full, Text.width_append] at this ⊢
        omega
      simp only [Ahead.take_nil, Ahead.consume, htail, hoff, hev, hw, Nat.add_assoc]
    rw [← hcur]
    refine .keep hpeek ?_ (kept_closing hm hkind hpend hline) ?_
    · simp [hkind, Scope.keeps, hp.2, Place.isFence]
    · rw [hkind]
      exact ⟨hp.1.trans (s'.sameSection_next rfl true), by simp [Scope.next, hp.2]⟩

end Fence

end GherkinTree
