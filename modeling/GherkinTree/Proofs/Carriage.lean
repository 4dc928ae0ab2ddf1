import GherkinTree.Proofs.LineBreak
import GherkinTree.Proofs.PureTrivia
import GherkinTree.Proofs.Selection

/-!
A document and the same document with a carriage return in front of every line feed. Main
statement: both are read in lockstep, so their trees differ in line breaks and in the content of doc
strings only, and what is wrong with them is the same at the places that its places are moved to.
-/

namespace GherkinTree

open Element

/-- The tree with all its tokens replaced. -/
def Node.mapTokens (f : Token → Token) (n : Node) : Node := ⟨n.kind, mapTokensAll f n.children⟩

section MapTokens

variable (f : Token → Token)

theorem Element.mapTokens_toElement (n : Node) :
    n.toElement.mapTokens f = (n.mapTokens f).toElement := mapTokens_node f n.kind n.children

theorem Element.mapTokensAll_optional (n : Option Node) :
    mapTokensAll f (Node.optional n) = Node.optional (n.map (Node.mapTokens f)) := by
  cases n with
  | none => exact mapTokensAll_eq f _
  | some n => simp [mapTokensAll_eq, Node.optional, mapTokens_toElement]

theorem Element.mapTokensAll_map_token (ts : List Token) :
    mapTokensAll f (ts.map .token) = (ts.map f).map .token := by
  simp [mapTokensAll_eq]

end MapTokens

namespace Token

/-- A token of the new text: its line breaks, and those of its text and its value if it is the
content of a doc string. -/
def crlf (t : Token) : Token :=
  { t with
    text := if t.kind = .docStringContentToken then Text.crlf t.text else t.text
    decoded := if t.kind = .docStringContentToken then t.decoded.map Text.crlf else t.decoded
    leading := t.leading.map Trivia.crlf
    trailing := t.trailing.map Trivia.crlf }

theorem value_crlf (t : Token) :
    t.crlf.value = if t.kind = .docStringContentToken then Text.crlf t.value else t.value := by
  by_cases hk : t.kind = .docStringContentToken
  · cases hd : t.decoded <;> simp [crlf, value, hk, hd]
  · simp [crlf, value, hk]

theorem value_crlf_of_ne (t : Token) (h : t.kind ≠ .docStringContentToken) :
    t.crlf.value = t.value := by rw [value_crlf, if_neg h]

theorem text_crlf_of_ne (t : Token) (h : t.kind ≠ .docStringContentToken) :
    t.crlf.text = t.text := if_neg h

variable {k : Kind} (t v : Text) (leading trailing : List Trivia)

theorem crlf_plain (hk : k ≠ .docStringContentToken) :
    (plain k t leading trailing).crlf =
      plain k t (leading.map Trivia.crlf) (trailing.map Trivia.crlf) := by
  simp [crlf, plain, hk]

theorem crlf_absent (k : Kind) : (absent k leading trailing).crlf =
    absent k (leading.map Trivia.crlf) (trailing.map Trivia.crlf) := by
  by_cases hk : k = .docStringContentToken <;> simp [crlf, absent, hk]

theorem crlf_literal (hk : k ≠ .docStringContentToken) :
    (literal k t v leading trailing).crlf =
      literal k t v (leading.map Trivia.crlf) (trailing.map Trivia.crlf) := by
  simp [crlf, literal, hk]

theorem crlf_content :
    (literal .docStringContentToken t v leading trailing).crlf =
      literal .docStringContentToken (Text.crlf t) (Text.crlf v) (leading.map Trivia.crlf)
        (trailing.map Trivia.crlf) := by
  by_cases h : v = t
  · simp [crlf, literal, h]
  · simp [crlf, literal, h, Text.crlf_inj]

end Token

namespace Reading

variable {r : Reading} (leading trailing : List Trivia)

/-- Pieces of a text are pieces of the new text, if each of them is. -/
theorem parts_crlf {g : Piece → Piece} (h : ∀ leading trailing p,
    (r.part leading trailing p).mapTokens Token.crlf =
      r.part (leading.map Trivia.crlf) (trailing.map Trivia.crlf) (g p)) (ps : List Piece) :
    mapTokensAll Token.crlf (r.parts leading trailing ps) =
      r.parts (leading.map Trivia.crlf) (trailing.map Trivia.crlf) (ps.map g) := by
  fun_induction parts r leading trailing ps with
  | case1 => rfl
  | case2 leading p => simp [mapTokensAll_eq, h, parts]
  | case3 leading p ps hps ih =>
    cases ps with
    | nil => exact absurd rfl hps
    | cons q qs =>
      rw [mapTokensAll, ih, h]
      rfl

theorem part_placeholder_crlf (name : Text) :
    (r.part leading trailing (.placeholder name)).mapTokens Token.crlf =
      r.part (leading.map Trivia.crlf) (trailing.map Trivia.crlf) (.placeholder name) := by
  simp [part, Node.ofPlaceholder, Node.toElement, mapTokensAll_eq, Token.crlf_plain]

/-- A text outside of doc strings stays as it is. -/
theorem text_crlf (hk : r.kind ≠ .docStringContentToken) (outline : Bool) (raw : Text) :
    (r.text outline raw leading trailing).mapTokens Token.crlf =
      r.text outline raw (leading.map Trivia.crlf) (trailing.map Trivia.crlf) := by
  have htoken (leading trailing : List Trivia) (raw : Text) :
      (r.token raw leading trailing).crlf =
        r.token raw (leading.map Trivia.crlf) (trailing.map Trivia.crlf) :=
    Token.crlf_literal raw _ leading trailing hk
  cases outline with
  | false => simp [text, Node.mapTokens, Node.ofLiterals, mapTokensAll_eq, htoken]
  | true =>
    have hpart (leading trailing : List Trivia) (p : Piece) :
        (r.part leading trailing p).mapTokens Token.crlf =
          r.part (leading.map Trivia.crlf) (trailing.map Trivia.crlf) (id p) := by
      cases p with
      | literal t => simp [part, htoken]
      | placeholder name => exact part_placeholder_crlf leading trailing name
    simp [text, interpolated, Node.mapTokens, Node.ofParts, parts_crlf leading trailing hpart]

/-- The content of a doc string takes the line breaks of the new text. -/
theorem content_crlf (f : Fence) (outline : Bool) (raw : Text) :
    ((docString f).text outline raw leading trailing).mapTokens Token.crlf =
      (docString f).text outline (Text.crlf raw) (leading.map Trivia.crlf)
        (trailing.map Trivia.crlf) := by
  have htoken (leading trailing : List Trivia) (raw : Text) :
      ((docString f).token raw leading trailing).crlf =
        (docString f).token (Text.crlf raw) (leading.map Trivia.crlf)
          (trailing.map Trivia.crlf) := by
    have hvalue : (docString f).decode (Text.crlf raw) = Text.crlf ((docString f).decode raw) :=
      f.unescape_crlf raw
    rw [token, token, hvalue]
    exact Token.crlf_content raw _ leading trailing
  cases outline with
  | false => simp [text, Node.mapTokens, Node.ofLiterals, mapTokensAll_eq, htoken]
  | true =>
    have hpart (leading trailing : List Trivia) (p : Piece) :
        ((docString f).part leading trailing p).mapTokens Token.crlf =
          (docString f).part (leading.map Trivia.crlf) (trailing.map Trivia.crlf) p.crlf := by
      cases p with
      | literal t => simp [part, htoken, Piece.crlf]
      | placeholder name => exact part_placeholder_crlf leading trailing name
    simp [text, interpolated, Node.mapTokens, Node.ofParts, parts_crlf leading trailing hpart,
      Piece.split_crlf]

end Reading

namespace Line

theorem cutToken_crlf (behind ending : Text) :
    cutToken behind (Text.crlf ending) =
      ((cutToken behind ending).1.map Trivia.crlf, (cutToken behind ending).2) := by
  simp only [cutToken]
  split
  · rw [Trivia.lineEnd_crlf]
  · rw [Trivia.piece_crlf (by decide)]

theorem textToken_crlf (text ending : Text) (leading : List Trivia) :
    (textToken text ending leading).crlf =
      textToken text (Text.crlf ending) (leading.map Trivia.crlf) := by
  rw [textToken, Token.crlf_plain _ _ _ (by decide), Trivia.lineEnd_crlf, textToken]

end Line

namespace TagLine

theorem tokens_crlf (leading rest : List Trivia) (tags : List (Text × Text)) :
    (tokens leading rest tags).map Token.crlf =
      tokens (leading.map Trivia.crlf) (rest.map Trivia.crlf) tags := by
  fun_induction tokens leading rest tags with
  | case1 => rfl
  | case2 leading tag blanks =>
    simp [tokens, Token.crlf_plain, Trivia.piece_crlf]
  | case3 leading tag blanks tags ht ih =>
    cases tags with
    | nil => exact absurd rfl ht
    | cons p ps =>
      rw [List.map_cons, ih, Token.crlf_plain _ _ _ (by decide), Trivia.piece_crlf (by decide)]
      rfl

theorem restTrivia_crlf (l : TagLine) (ending : Text) :
    (l.restTrivia ending).map Trivia.crlf = l.restTrivia (Text.crlf ending) := by
  have hk : (if l.restIsComment then TriviaKind.comment else .skippedText) ≠ .newline := by
    split <;> nofun
  rw [restTrivia, List.map_append, Trivia.piece_crlf hk, Trivia.lineEnd_crlf, restTrivia]

theorem events_moved {s : Text} {o : Nat} {l : Line} {ls : List Line}
    (h : Line.Stand s o (l :: ls)) :
    ((split l.content).events o).map (Event.moved s) = (split l.content).events (s.moved o) := by
  have hwidth : Text.width (split l.content).tagText +
      Text.width (Text.trimEnd (split l.content).rest) ≤ Text.width l.content := by
    have hcontent := congrArg Text.width (tagText_append_rest l.content)
    rw [Text.width_append] at hcontent
    have := Text.width_trimEnd_le (split l.content).rest
    omega
  rw [events, events]
  split
  · rfl
  · rw [h.ofWidth_moved hwidth]
    rfl

end TagLine

theorem Cell.node_crlf (outline : Bool) (c : Cell) :
    (c.node outline).mapTokens Token.crlf = c.node outline := by
  have hblanks (t : Text) : (Trivia.piece .whitespace t).map Trivia.crlf =
      Trivia.piece .whitespace t := Trivia.piece_crlf (by decide) t
  have htext := Reading.cell.text_crlf (Trivia.piece .whitespace c.before)
    (Trivia.piece .whitespace c.after) (by decide)
  have htoken : (Reading.cell.token c.raw (Trivia.piece .whitespace c.before)
      (Trivia.piece .whitespace c.after)).crlf = Reading.cell.token c.raw
        (Trivia.piece .whitespace c.before) (Trivia.piece .whitespace c.after) := by
    rw [Reading.token, Token.crlf_literal _ _ _ _ (by decide), hblanks, hblanks]
  rw [hblanks, hblanks] at htext
  simp only [node, Node.mapTokens, Node.ofCell, mapTokensAll]
  split
  · rw [mapTokens_token, Token.crlf_absent, hblanks, hblanks]
  · split
    · rw [mapTokens_toElement]
      exact congrArg (fun n => Node.mk .tableCell [Node.toElement n]) (htext true c.raw)
    · rw [mapTokens_token, htoken]

namespace Row

theorem bar_crlf (leading trailing : List Trivia) :
    (bar leading trailing).crlf = bar (leading.map Trivia.crlf) (trailing.map Trivia.crlf) :=
  Token.crlf_plain _ _ _ (by decide)

theorem elements_crlf (outline : Bool) (last : Token) (cs : List Cell) :
    mapTokensAll Token.crlf (elements (cellsWithBars outline last cs)) =
      elements (cellsWithBars outline last.crlf cs) := by
  have hcons (n : Node) (t : Token) (es : List Element) :
      mapTokensAll Token.crlf (n.toElement :: .token t :: es) =
        (n.mapTokens Token.crlf).toElement :: .token t.crlf :: mapTokensAll Token.crlf es := by
    simp [mapTokensAll, mapTokens_toElement]
  fun_induction cellsWithBars outline last cs with
  | case1 => rfl
  | case2 c =>
    rw [elements_cons, hcons, c.node_crlf]
    rfl
  | case3 c cs hcs ih =>
    cases cs with
    | nil => exact absurd rfl hcs
    | cons c' cs =>
      rw [elements_cons, hcons, c.node_crlf, ih]
      rfl

/-- The cells of a row stay as they are. -/
theorem node_crlf (outline : Bool) (leading lineEnd : List Trivia) (r : Row) :
    (r.node outline leading lineEnd).mapTokens Token.crlf =
      r.node outline (leading.map Trivia.crlf) (lineEnd.map Trivia.crlf) := by
  have hrow (first last : Token) (cs : List Cell) :
      (Node.ofRow first (cellsWithBars outline last cs)).mapTokens Token.crlf =
        .ofRow first.crlf (cellsWithBars outline last.crlf cs) := by
    have hcells := elements_crlf outline last cs
    simp only [Node.mapTokens, Node.ofRow, mapTokensAll, mapTokens_token]
    exact congrArg (fun es => Node.mk .tableRow (.token first.crlf :: es)) hcells
  have hlast : (if r.closed then bar [] lineEnd else .absent .verticalBarToken [] lineEnd).crlf =
      if r.closed then bar [] (lineEnd.map Trivia.crlf)
      else .absent .verticalBarToken [] (lineEnd.map Trivia.crlf) := by
    split
    · exact bar_crlf [] lineEnd
    · exact Token.crlf_absent [] lineEnd _
  simp only [node]
  split
  · refine (hrow _ (bar [] []) []).trans ?_
    rw [bar_crlf]
    rfl
  · rw [hrow, hlast, bar_crlf]
    rfl

theorem events_moved {s : Text} {o : Nat} {l : Line} {ls : List Line}
    (h : Line.Stand s o (l :: ls)) (r : Row) :
    (r.events (o + Text.width l.content)).map (Event.moved s) =
      r.events (s.moved o + Text.width l.content) := by
  rw [events, events]
  split
  · rfl
  · rw [← h.moved_inside (Nat.le_refl _)]
    rfl

end Row

namespace Grammar

variable {a a' : Ahead} (m : KeywordMatch)

theorem Kind.ofRole_ne_content (r : Role) : Kind.ofRole r ≠ .docStringContentToken := by
  cases r <;> decide

theorem nameOf_crlf (text ending : Text) :
    (nameOf text ending).map (Node.mapTokens Token.crlf) = nameOf text (Text.crlf ending) := by
  rw [nameOf, nameOf]
  split
  · rfl
  · have htoken := Line.textToken_crlf text ending []
    rw [List.map_nil] at htoken
    simp [Node.mapTokens, Node.ofLiterals, mapTokensAll_eq, htoken]

theorem titleLine_crlf (hline : a'.line = a.line.crlf)
    (hpending : a'.cursor.pending = a.cursor.pending.map Trivia.crlf) :
    mapTokensAll Token.crlf (titleLine m a).1.elements = (titleLine m a').1.elements := by
  have helements (keyword colon : Token) (name : Option Node) :
      mapTokensAll Token.crlf (Title.elements ⟨keyword, colon, name⟩) =
        Title.elements ⟨keyword.crlf, colon.crlf, name.map (Node.mapTokens Token.crlf)⟩ := by
    have hname := mapTokensAll_optional Token.crlf name
    simp only [Title.elements, List.cons_append, List.nil_append, mapTokensAll, mapTokens_token,
      hname]
  simp only [titleLine, hline, hpending, Line.crlf, Line.cutToken_crlf]
  split
  · rw [helements, nameOf_crlf, Token.crlf_plain _ _ _ (Kind.ofRole_ne_content m.role),
      Token.crlf_plain _ _ _ (by decide)]
    rfl
  · rw [helements, nameOf_crlf, Token.crlf_plain _ _ _ (Kind.ofRole_ne_content m.role),
      Token.crlf_absent]
    rfl

theorem stepLine_crlf (outline : Bool) (hline : a'.line = a.line.crlf)
    (hpending : a'.cursor.pending = a.cursor.pending.map Trivia.crlf) :
    (stepLine outline m a).1.crlf = (stepLine outline m a').1 ∧
      (stepLine outline m a).2.1.mapTokens Token.crlf = (stepLine outline m a').2.1 := by
  simp only [stepLine, hline, hpending, Line.crlf, Line.cutToken_crlf]
  split
  · refine ⟨Token.crlf_plain _ _ _ (Kind.ofRole_ne_content m.role), ?_⟩
    simp [Node.mapTokens, Node.ofLiterals, mapTokensAll_eq, Token.crlf_absent]
  · refine ⟨Token.crlf_plain _ _ _ (Kind.ofRole_ne_content m.role), ?_⟩
    rw [Reading.text_crlf _ _ (by decide), Trivia.lineEnd_crlf]
    rfl

end Grammar

namespace Fence

variable (f : Fence) (outline : Bool)

theorem first_crlf (pending : List Trivia) (l : Line) :
    (f.first pending l).crlf = f.first (pending.map Trivia.crlf) l.crlf := by
  have hcontent : l.crlf.content = l.content := rfl
  have hending : l.crlf.ending = Text.crlf l.ending := rfl
  simp only [first]
  rw [hcontent, hending, Token.crlf_plain _ _ _ (by decide), ← Trivia.lineEnd_crlf]
  split
  · rw [List.map_append, Trivia.piece_crlf (by decide)]
  · rw [Trivia.piece_crlf (by decide)]

theorem contentType?_crlf (l : Line) :
    (f.contentType? l).map (Node.mapTokens Token.crlf) = f.contentType? l.crlf := by
  have hcontent : l.crlf.content = l.content := rfl
  have hending : l.crlf.ending = Text.crlf l.ending := rfl
  simp only [contentType?]
  rw [hcontent, hending, ← Trivia.lineEnd_crlf]
  split
  · rfl
  · rw [Option.map_some, Node.mapTokens, Node.ofContentType, mapTokensAll, mapTokens_token,
      Token.crlf_plain _ _ _ (by decide)]
    rfl

theorem content?_crlf {body : List Line} (h : ∀ l ∈ body, '\n' ∉ l.content) :
    (f.content? outline body).map (Node.mapTokens Token.crlf) =
      f.content? outline (body.map Line.crlf) := by
  simp only [content?, Line.join_map_crlf h, Text.isEmpty_crlf]
  split
  · rfl
  · rw [Option.map_some, Reading.content_crlf]
    rfl

theorem last_crlf (ls : List Line) : (last ls).crlf = last (ls.map Line.crlf) := by
  cases ls with
  | nil => exact Token.crlf_absent [] [] _
  | cons l ls =>
    simp only [last, closing, List.map_cons, Line.crlf]
    rw [Token.crlf_plain _ _ _ (by decide), Trivia.piece_crlf (by decide), Trivia.lineEnd_crlf]

theorem body_crlf (ls : List Line) : f.body (ls.map Line.crlf) = (f.body ls).map Line.crlf := by
  rw [body, List.takeWhile_map]
  rfl

theorem behindBody_crlf (ls : List Line) :
    f.behindBody (ls.map Line.crlf) = (f.behindBody ls).map Line.crlf := by
  rw [behindBody, List.dropWhile_map]
  rfl

variable {ls : List Line}

theorem contents_body (h : ∀ l ∈ ls, '\n' ∉ l.content) : ∀ l ∈ f.body ls, '\n' ∉ l.content :=
  fun l hl => h l ((List.takeWhile_prefix _).mem hl)

theorem contents_behindBody (h : ∀ l ∈ ls, '\n' ∉ l.content) :
    ∀ l ∈ f.behindBody ls, '\n' ∉ l.content :=
  fun l hl => h l ((List.dropWhile_suffix _).mem hl)

theorem join_body_append (ls : List Line) :
    Line.join ls = Line.join (f.body ls) ++ Line.join (f.behindBody ls) := by
  rw [← Line.join_append, f.body_append_behindBody]

/-- A doc string that stands in the new text. -/
theorem docString_crlf {a a' : Ahead} (hline : a'.line = a.line.crlf)
    (hpending : a'.cursor.pending = a.cursor.pending.map Trivia.crlf)
    (hlines : a'.consume.lines = a.consume.lines.map Line.crlf)
    (hcontents : ∀ l ∈ a.consume.lines, '\n' ∉ l.content) :
    (f.docString outline a).1.mapTokens Token.crlf = (f.docString outline a').1 := by
  have hall (first last : Token) (contentType content : Option Node) :
      (Node.ofDocString first contentType content last).mapTokens Token.crlf =
        .ofDocString first.crlf (contentType.map (Node.mapTokens Token.crlf))
          (content.map (Node.mapTokens Token.crlf)) last.crlf := by
    simp only [Node.mapTokens, Node.ofDocString, ← mapTokensAll_optional]
    simp [mapTokensAll_eq]
  rw [f.docString_eq, f.docString_eq, hall, f.first_crlf, f.contentType?_crlf,
    f.content?_crlf outline (f.contents_body hcontents), last_crlf, hline, hpending, hlines,
    f.body_crlf, f.behindBody_crlf]

/-- A doc string that is not closed is reported where the document ends. -/
theorem events_docString (a : Ahead) :
    (f.docString outline a).2.events = a.cursor.events ++
      match f.behindBody a.consume.lines with
      | [] => [.missing (f.docString outline a).2.offset .docStringDelimiterToken]
      | _ :: _ => [] := by
  unfold docString
  dsimp only
  split
  · rename_i h
    rw [behindBody, h]
    rfl
  · rename_i h
    rw [behindBody, h, List.append_nil]
    rfl

end Fence

/-- Cursors at places of a text and of the new text that belong together. -/
structure Cursor.Rebroken (s : Text) (c c' : Cursor) : Prop where
  stand : Line.Stand s c.offset c.lines
  lines : c'.lines = c.lines.map Line.crlf
  offset : c'.offset = s.moved c.offset
  pending : c'.pending = c.pending.map Trivia.crlf
  events : c'.events = c.events.map (Event.moved s)

theorem Cursor.Rebroken.advance {s : Text} {c c' : Cursor} (h : c.Rebroken s c') :
    c.advance.Rebroken s c'.advance where
  stand := stand_cutTrivia h.stand
  lines := by rw [lines_advance, lines_advance, h.lines, cutTrivia_crlf]
  offset := by
    rw [offset_advance, offset_advance, h.lines, h.offset, cutTrivia_crlf,
      moved_cutTrivia h.stand]
  pending := by
    rw [pending_advance, pending_advance, h.lines, h.pending, cutTrivia_crlf, List.map_append]
  events := h.events

/-- A lacking token is reported at the places themselves. -/
theorem Cursor.Rebroken.report_missing {s : Text} {c c' : Cursor} (h : c.Rebroken s c') (k : Kind) :
    (c.report (.missing c.offset k)).Rebroken s (c'.report (.missing c'.offset k)) where
  stand := h.stand
  lines := h.lines
  offset := h.offset
  pending := h.pending
  events := by
    change c'.events ++ [Event.missing c'.offset k] =
      (c.events ++ [Event.missing c.offset k]).map (Event.moved s)
    rw [h.events, h.offset, List.map_append]
    rfl

open Grammar

namespace Twin

/-- A text and the new text, which have the same tokens but for line breaks. -/
def rebreaking (s : Text) : Twin where
  left := Token.crlf
  right := id
  guard _ _ _ := True
  At _ c c' := c.Rebroken s c'

variable {s : Text} {d : Dialect} {above : Option Kind} {o : Nat} {c c' n n' : Cursor}
  {a a' : Ahead} {es es' : List Element}

theorem gives_of_map (h : mapTokensAll Token.crlf es = es') (hat : n.Rebroken s n') :
    (rebreaking s).Gives above o es es' n n' :=
  fun _ => ⟨h.trans (mapTokensAll_id es').symm, hat⟩

theorem gives_of_tokens {ts ts' : List Token} (h : ts.map Token.crlf = ts')
    (hat : n.Rebroken s n') :
    (rebreaking s).Gives above o (ts.map .token) (ts'.map .token) n n' :=
  gives_of_map (by rw [mapTokensAll_map_token, h]) hat

theorem gives_of_node {m m' : Node} (h : m.mapTokens Token.crlf = m') (hat : n.Rebroken s n') :
    (rebreaking s).Gives above o [m.toElement] [m'.toElement] n n' :=
  gives_of_map (by rw [mapTokensAll, mapTokens_toElement, h]; rfl) hat

/-- Both readers face the same line. -/
theorem Faces.rebroken (h : (rebreaking s).Faces d o c c' a a') :
    a'.line = a.line.crlf ∧ a'.cursor.lines.tail = a.cursor.lines.tail.map Line.crlf ∧
      Line.Stand s a.cursor.offset (a.line :: a.cursor.lines.tail) := by
  have hlines := (Dialect.fits_of_peek? h.left).lines
  have hlines' := h.cursors.lines
  have hstand := h.cursors.stand
  rw [(Dialect.fits_of_peek? h.right).lines, hlines, List.map_cons] at hlines'
  obtain ⟨hline, htail⟩ := List.cons.inj hlines'
  exact ⟨hline, htail, hlines ▸ hstand⟩

theorem Faces.rebroken_consume (h : (rebreaking s).Faces d o c c' a a') :
    a.consume.Rebroken s a'.consume where
  stand := h.rebroken.2.2.tail
  lines := h.rebroken.2.1
  offset := by
    rw [Ahead.offset_consume, Ahead.offset_consume, h.cursors.offset, h.rebroken.1,
      h.rebroken.2.2.moved_width]
  pending := rfl
  events := h.cursors.events

theorem Faces.rebroken_take (h : (rebreaking s).Faces d o c c' a a') {es es' : List Event}
    (hes : es.map (Event.moved s) = es') : (a.take es).Rebroken s (a'.take es') where
  stand := h.rebroken_consume.stand
  lines := h.rebroken_consume.lines
  offset := h.rebroken_consume.offset
  pending := rfl
  events := by
    rw [Ahead.events_take, Ahead.events_take, h.cursors.events, List.map_append, hes]

/-- Behind the line that both readers skip. -/
theorem Faces.rebroken_skip (h : (rebreaking s).Faces d o c c' a a') :
    a.skip.Rebroken s a'.skip where
  stand := h.rebroken_consume.stand
  lines := h.rebroken_consume.lines
  offset := h.rebroken_consume.offset
  pending := by
    change a'.cursor.pending ++ a'.line.pieces .skippedText =
      (a.cursor.pending ++ a.line.pieces .skippedText).map Trivia.crlf
    rw [h.cursors.pending, h.rebroken.1, List.map_append, Line.pieces_crlf (by decide)]
  events := by
    obtain ⟨hline, -, hstand⟩ := h.rebroken
    have hwidth := Text.width_trimEnd_le a.line.content
    have hspan := hstand.ofWidth_moved ((Nat.zero_add _).trans_le hwidth)
    rw [Nat.add_zero, Nat.add_zero] at hspan
    simp only [Ahead.skip, List.map_append, List.map_cons, List.map_nil, Event.moved,
      h.cursors.events, h.cursors.offset, h.kind, hline, ← hspan]
    rfl

theorem Faces.rebroken_docString (h : (rebreaking s).Faces d o c c' a a') (f : Fence)
    (outline : Bool) : (f.docString outline a).2.Rebroken s (f.docString outline a').2 := by
  have hat := h.rebroken_consume
  have hjoin := f.join_body_append a.consume.lines
  have hstand := hat.stand.behind hjoin (f.contents_behindBody hat.stand.contents)
  have hmoved := hat.stand.moved_behind hjoin
  obtain ⟨hlines, hoffset, hpending⟩ := f.cursor_docString outline a
  obtain ⟨hlines', hoffset', hpending'⟩ := f.cursor_docString outline a'
  have hevents := f.events_docString outline a
  have hevents' := f.events_docString outline a'
  rw [hat.lines, f.behindBody_crlf] at hlines' hevents'
  rw [hat.lines, f.body_crlf, f.behindBody_crlf,
    Line.join_map_crlf (f.contents_body hat.stand.contents), hat.offset, ← hmoved] at hoffset'
  -- both doc strings are closed, or both run to the end of the document
  cases hrest : f.behindBody a.consume.lines with
  | nil =>
    simp only [hrest, List.map_nil, List.tail_nil, Fence.last, Token.fullWidth_absent,
      Trivia.widthOf_nil, Nat.add_zero] at hlines hlines' hoffset hoffset' hevents hevents' hstand
    rw [← hoffset] at hstand hoffset'
    refine ⟨hlines ▸ hstand, by rw [hlines, hlines', List.map_nil], hoffset', ?_, ?_⟩
    · rw [hpending, hpending', List.map_nil]
    · rw [hevents, hevents', hoffset', h.cursors.events, List.map_append]
      rfl
  | cons m ms =>
    simp only [hrest, List.map_cons, List.tail_cons, Fence.last, Fence.fullWidth_closing,
      List.append_nil] at hlines hlines' hoffset hoffset' hevents hevents' hstand
    refine ⟨?_, by rw [hlines, hlines'], ?_, ?_, ?_⟩
    · rw [hlines, hoffset]
      exact hstand.tail
    · rw [hoffset', hoffset, hstand.moved_width]
    · rw [hpending, hpending', List.map_nil]
    · rw [hevents, hevents', h.cursors.events]

/-- A text and the new text are read in lockstep. -/
theorem lockstep_rebreaking (s : Text) (d : Dialect) : (rebreaking s).Lockstep d where
  peek {o c c'} h := by
    have hat := h.advance
    cases hl : c.advance.lines with
    | nil =>
      have hl' : c'.advance.lines = [] := by rw [hat.lines, hl, List.map_nil]
      exact .inl ⟨Dialect.peek?_eq_none_iff.2 hl, Dialect.peek?_eq_none_iff.2 hl'⟩
    | cons m ms =>
      have hl' : c'.advance.lines = m.crlf :: ms.map Line.crlf := by
        rw [hat.lines, hl, List.map_cons]
      refine .inr ⟨⟨c.advance, m, d.classify m.content⟩,
        ⟨c'.advance, m.crlf, d.classify m.content⟩, ?_, ?_, rfl, hat⟩
      · rw [Dialect.peek?, hl]
      · rw [Dialect.peek?, hl']
        rfl
  role {o c c'} h := by
    rw [Dialect.nextRole?, Dialect.nextRole?, h.lines, d.kindAfterTags?_crlf]
  hasExamples {o c c'} h := by rw [h.lines, d.hasExamples_crlf]
  skip h := h.rebroken_skip
  tagLine {o c c' a a'} h hk := by
    obtain ⟨hline, -, hstand⟩ := h.rebroken
    refine ⟨_, _, _, _, tagLine?_of_tags h.left hk, tagLine?_of_tags h.right (h.kind.trans hk),
      gives_of_tokens ?_ (h.rebroken_take ?_)⟩
    · rw [TagLine.tokens_crlf, TagLine.restTrivia_crlf, hline, h.cursors.pending]
      rfl
    · rw [TagLine.events_moved hstand, hline, h.cursors.offset]
      rfl
  textLine {above o c c' a a'} h hk := by
    refine ⟨_, _, _, _, textLine?_of_text h.left hk, textLine?_of_text h.right (h.kind.trans hk),
      gives_of_tokens ?_ (h.rebroken_take rfl)⟩
    rw [List.map_cons, Line.textToken_crlf, h.rebroken.1, h.cursors.pending]
    rfl
  row {outline o c c' a a'} h hk := by
    obtain ⟨hline, -, hstand⟩ := h.rebroken
    refine ⟨_, _, _, _, row?_of_row outline h.left hk,
      row?_of_row outline h.right (h.kind.trans hk), gives_of_node ?_ (h.rebroken_take ?_)⟩
    · rw [Row.node_crlf, Trivia.lineEnd_crlf, hline, h.cursors.pending]
      rfl
    · rw [Row.events_moved hstand, hline, h.cursors.offset]
      rfl
  title {above o c c' a a' m} h hk hm := by
    obtain ⟨-, -, -, heq⟩ := titleLine_eq h.left hk hm
    obtain ⟨-, -, -, heq'⟩ := titleLine_eq h.right (h.kind.trans hk) hm
    rw [heq, heq']
    exact gives_of_map (titleLine_crlf m h.rebroken.1 h.cursors.pending) (h.rebroken_take rfl)
  stepLine {outline o c c' a a' m} h hk _ := by
    obtain ⟨hkeyword, htext⟩ := stepLine_crlf m outline h.rebroken.1 h.cursors.pending
    refine gives_of_map ?_ ?_
    · rw [mapTokensAll, mapTokensAll, mapTokensAll, mapTokens_token, mapTokens_toElement, hkeyword,
        htext]
    · have hat := h.rebroken_consume
      simp only [stepLine, h.rebroken.1, Line.crlf, Line.cutToken_crlf]
      split
      · exact hat.report_missing .literalToken
      · exact hat
  docString {outline o c c' a a' f} h hk := by
    refine gives_of_node ?_ (h.rebroken_docString f outline)
    exact f.docString_crlf outline h.rebroken.1 h.cursors.pending h.rebroken_consume.lines
      h.rebroken_consume.stand.contents
  imply {above o c c'} h := by
    have hat := h.advance
    refine gives_of_map ?_ ⟨hat.stand, hat.lines, hat.offset, rfl, ?_⟩
    · simp only [mapTokensAll, mapTokens_token, Token.crlf_absent, hat.pending, List.map_nil]
    · exact (hat.report_missing .featureKeyword).events
  eof {above o c c'} h := by
    have hat := h.advance
    refine gives_of_map ?_ ⟨hat.stand, hat.lines, hat.offset, rfl, hat.events⟩
    rw [mapTokensAll, mapTokensAll, mapTokens_token, Token.crlf_plain _ _ _ (by decide),
      hat.pending, List.map_nil]

end Twin

/-- The readers start at places that belong together. -/
theorem Preamble.rebroken_read (d : Dialect) {s : Text} (h : '\r' ∉ s) :
    (read d 0 (Line.split s)).cursor.Rebroken s (read d 0 (Line.split (Text.crlf s))).cursor := by
  have hstand := Line.Stand.of_split s
  have hread := read_crlf d hstand
  rw [Text.moved_zero, ← Line.split_crlf h] at hread
  have hcut := Cursor.stand_cutTrivia hstand
  have hmoved := Cursor.moved_cutTrivia hstand
  have hwidth := widthOf_read d 0 (Line.split (Text.crlf s))
  rw [Line.split_crlf h, Cursor.cutTrivia_crlf, ← Line.split_crlf h] at hwidth
  rw [Nat.zero_add, ← widthOf_read d 0] at hcut hmoved
  refine ⟨?_, ?_, ?_, ?_, ?_⟩
  · change Line.Stand s (Trivia.widthOf (read d 0 (Line.split s)).trivia) (read d 0 _).lines
    rw [lines_read]
    exact hcut
  · rw [hread]
    rfl
  · rw [Text.moved_zero, Nat.zero_add, ← hwidth] at hmoved
    exact hmoved.symm
  · rw [hread]
    rfl
  · rw [hread]
    rfl

/-- The tree of the new text differs in line breaks and in the content of doc strings only, and what
happens is the same at the places that its places are moved to. -/
theorem parse_crlf (d : Dialect) {s : Text} (h : '\r' ∉ s) :
    (parse d (Text.crlf s)).root = (parse d s).root.mapTokens Token.crlf ∧
      (parse d (Text.crlf s)).dialect = (parse d s).dialect ∧
        (parse d (Text.crlf s)).events = (parse d s).events.map (Event.moved s) := by
  have hstart := Preamble.rebroken_read d h
  have hdialect : (parse d (Text.crlf s)).dialect = (parse d s).dialect := by
    have hread := Preamble.read_crlf d (Line.Stand.of_split s)
    rw [Text.moved_zero, ← Line.split_crlf h] at hread
    exact (congrArg Preamble.dialect hread).trans rfl
  have hgives : (Twin.rebreaking s).Gives none 0 _ _ _ _ :=
    (Twin.lockstep_rebreaking s (parse d s).dialect).document hstart
  have hguard : EverywhereAll (Twin.rebreaking s).guard none 0 [(parse d s).root.toElement] := by
    refine (everywhereAll_cons _ _).2 ⟨?_, everywhereAll_nil.2 trivial⟩
    exact (PlacedNode.forall_descendants_iff (.root (parse d s).root)).1 fun _ _ => trivial
  obtain ⟨hsame, hat⟩ := hgives hguard
  have hparse : (parse d (Text.crlf s)).root = (document (parse d s).dialect
      (Preamble.read d 0 (Line.split (Text.crlf s))).cursor).1 ∧
        (parse d (Text.crlf s)).events = (document (parse d s).dialect
          (Preamble.read d 0 (Line.split (Text.crlf s))).cursor).2.events := by
    rw [← hdialect]
    exact ⟨rfl, rfl⟩
  refine ⟨?_, hdialect, hparse.2.trans hat.events⟩
  rw [hparse.1]
  simp only [Twin.Same, Twin.rebreaking, mapTokensAll_id] at hsame
  rw [mapTokensAll, mapTokens_toElement] at hsame
  exact (Node.toElement_inj.1 (List.cons.inj hsame).1).symm

end GherkinTree
