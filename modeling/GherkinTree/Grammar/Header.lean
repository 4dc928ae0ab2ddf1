import GherkinTree.Grammar.Step

/-!
Headers of sections: lines of tags, the line with the keyword, the colon and the name, and lines of
plain text below it. Blank and comment lines may stand between any two of them. A tag is a word that
begins with `@`; the tags of a line are its words up to the first that begins with another character,
and what stands from there on is no tag.
-/

namespace GherkinTree

/-- A line of tags: each tag with the blanks behind it, and the text behind the last. -/
structure TagLine where
  tags : List (Text × Text)
  rest : Text
  deriving DecidableEq, Repr

namespace TagLine

/-- Cuts off words as long as they begin with `@`. -/
def split (t : Text) : TagLine :=
  match t with
  | '@' :: u =>
    let behind := u.dropWhile (!Text.isBlank ·)
    let line := split (Text.trimStart behind)
    ⟨('@' :: u.takeWhile (!Text.isBlank ·), Text.leadingBlanks behind) :: line.tags, line.rest⟩
  | _ => ⟨[], t⟩
termination_by t.length
decreasing_by
  have ha := (List.dropWhile_suffix (!Text.isBlank ·) (l := u)).length_le
  have hb := (List.dropWhile_suffix Text.isBlank (l := u.dropWhile (!Text.isBlank ·))).length_le
  simp only [Text.trimStart, List.length_cons]
  omega

/-- The text of the tags and the blanks behind each. -/
def tagText (l : TagLine) : Text := l.tags.flatMap fun p => p.1 ++ p.2

/-- Tags as tokens; `rest` is the trivia behind the last. -/
def tokens (leading rest : List Trivia) : List (Text × Text) → List Token
  | [] => []
  | [(tag, blanks)] =>
    [.plain .tagToken tag leading (Trivia.piece .whitespace blanks ++ rest)]
  | (tag, blanks) :: tags =>
    .plain .tagToken tag leading (Trivia.piece .whitespace blanks) :: tokens [] rest tags

/-- Text behind the tags is a comment if it begins with `#`, and skipped otherwise. -/
def restIsComment (l : TagLine) : Bool := l.rest.head? == some '#'

/-- The text behind the tags as trivia. -/
def restTrivia (l : TagLine) (ending : Text) : List Trivia :=
  Trivia.piece (if l.restIsComment then .comment else .skippedText) (Text.trimEnd l.rest) ++
    Trivia.lineEnd (Text.trailingBlanks l.rest) ending

end TagLine

namespace Grammar

/-- The next line, if it is a line of tags. -/
def tagLine? (d : Dialect) (c : Cursor) : Option (List Token × Cursor) :=
  match d.peek? c with
  | some ⟨c, l, .tags⟩ =>
    let line := TagLine.split l.content
    let tokens := TagLine.tokens c.pending (line.restTrivia l.ending) line.tags
    let next := Ahead.consume ⟨c, l, .tags⟩
    some (tokens,
      if line.rest.isEmpty || line.restIsComment then next
      else next.report (.skippedAfterTags
        (Span.ofWidth (c.offset + Text.width line.tagText) (Text.width (Text.trimEnd line.rest)))))
  | _ => none

/-- The lines of tags in front of a header. -/
def tags (d : Dialect) (c : Cursor) : Option Node × Cursor :=
  let (tokens, c) := c.collect (tagLine? d)
  (if tokens.isEmpty then none else some (.ofTags tokens), c)

/-- The next line, if it is plain text. -/
def textLine? (d : Dialect) (c : Cursor) : Option (List Token × Cursor) :=
  match d.peek? c with
  | some ⟨c, l, .text⟩ =>
    some ([Line.textToken l.content l.ending c.pending], Ahead.consume ⟨c, l, .text⟩)
  | _ => none

/-- The lines of plain text below a header. -/
def description (d : Dialect) (c : Cursor) : Option Node × Cursor :=
  let (lines, c) := c.collect (textLine? d)
  (if lines.isEmpty then none else some (.ofDescription lines), c)

/-- The keyword, the colon and the name of a section. -/
structure Title where
  keyword : Token
  colon : Token
  name : Option Node

/-- The text that is left on a line as the name of a section, if there is any. -/
def nameOf (text ending : Text) : Option Node :=
  if text.isEmpty then none else some (.ofLiterals [Line.textToken text ending []])

/-- The title on the line ahead, which the keyword `m` opens. -/
def titleLine (m : KeywordMatch) (a : Ahead) : Title × Cursor :=
  let ending := a.line.ending
  let (afterKeyword, rest) := Line.cutToken m.rest ending
  let keyword : Token := .plain (.ofRole m.role) m.text a.cursor.pending afterKeyword
  match rest with
  | ':' :: behind =>
    let (afterColon, name) := Line.cutToken behind ending
    (⟨keyword, .plain .colonToken [':'] [] afterColon, nameOf name ending⟩, a.consume)
  | name =>
    let offset := a.cursor.offset + Text.width m.text + Trivia.widthOf afterKeyword
    (⟨keyword, .absent .colonToken [] [], nameOf name ending⟩,
      a.consume.report (.missing offset .colonToken))

/-- The title of a section whose line is lacking. -/
def absentTitle (role : Role) (c : Cursor) : Title × Cursor :=
  (⟨.absent (.ofRole role) [] [], .absent .colonToken [] [], none⟩,
    (c.report (.missing c.offset (.ofRole role))).report (.missing c.offset .colonToken))

/-- Whether a keyword opens a section of a role: an outline is a scenario. -/
def opens (role found : Role) : Bool :=
  found == role || (role == .scenario && found == .scenarioOutline)

/-- The title of a section of a role. -/
def title (d : Dialect) (role : Role) (c : Cursor) : Title × Cursor :=
  match d.peek? c with
  | some ⟨c, l, .keyword m⟩ =>
    if opens role m.role then titleLine m ⟨c, l, .keyword m⟩ else absentTitle role c
  | some ⟨c, _, _⟩ => absentTitle role c
  | none => absentTitle role c.advance

/-- The header of a section of a role, with the tags above and the description below it. -/
def header (d : Dialect) (role : Role) (c : Cursor) : Header × Cursor :=
  let (tags, c) := tags d c
  let (title, c) := title d role c
  let (description, c) := description d c
  (⟨tags, title.keyword, title.colon, title.name, description⟩, c)

end Grammar

end GherkinTree
