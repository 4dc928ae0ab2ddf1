import GherkinTree.Cell
import GherkinTree.Cursor
import GherkinTree.Placeholder
import GherkinTree.Tree.Shape

/-!
Steps: a keyword, the text behind it, and the table or doc string below it. In an outline, plain
runs and placeholders of a text become separate tokens; the first of them takes the trivia in front
of the text and the last the trivia behind it.
-/

namespace GherkinTree

/-- How a piece of text is read: `decode` gives the value of a plain run. -/
structure Reading where
  kind : Kind
  decode : Text → Text

namespace Reading

/-- Step text stands for itself. -/
def stepText : Reading := ⟨.literalToken, id⟩

def cell : Reading := ⟨.tableLiteralToken, Cell.unescape⟩

def docString (f : Fence) : Reading := ⟨.docStringContentToken, f.unescape⟩

def token (r : Reading) (raw : Text) (leading trailing : List Trivia) : Token :=
  .literal r.kind raw (r.decode raw) leading trailing

/-- One piece of an interpolated text. -/
def part (r : Reading) (leading trailing : List Trivia) : Piece → Element
  | .literal t => .token (r.token t leading trailing)
  | .placeholder name =>
    (Node.ofPlaceholder (.plain .lessThanToken ['<'] leading [])
      (.plain .identifierToken name [] []) (.plain .greaterThanToken ['>'] [] trailing)).toElement

/-- The pieces of an interpolated text. -/
def parts (r : Reading) (leading trailing : List Trivia) : List Piece → List Element
  | [] => []
  | [p] => [r.part leading trailing p]
  | p :: ps => r.part leading [] p :: r.parts [] trailing ps

/-- Text cut at its placeholders. -/
def interpolated (r : Reading) (raw : Text) (leading trailing : List Trivia) : Node :=
  .ofParts (r.parts leading trailing (Piece.split raw))

/-- Text, cut at its placeholders in an outline. -/
def text (r : Reading) (outline : Bool) (raw : Text) (leading trailing : List Trivia) : Node :=
  if outline then r.interpolated raw leading trailing
  else .ofLiterals [r.token raw leading trailing]

end Reading

namespace Cell

/-- A cell without text holds a missing token, which is no mistake. -/
def node (outline : Bool) (c : Cell) : Node :=
  let leading := Trivia.piece .whitespace c.before
  let trailing := Trivia.piece .whitespace c.after
  .ofCell <|
    if c.raw.isEmpty then .token (.absent .tableLiteralToken leading trailing)
    else if outline then (Reading.cell.interpolated c.raw leading trailing).toElement
    else .token (Reading.cell.token c.raw leading trailing)

end Cell

namespace Row

def bar (leading trailing : List Trivia) : Token := .plain .verticalBarToken ['|'] leading trailing

/-- Cells, each with the bar behind it; `last` is the bar behind the last. -/
def cellsWithBars (outline : Bool) (last : Token) : List Cell → List (Node × Token)
  | [] => []
  | [c] => [(c.node outline, last)]
  | c :: cs => (c.node outline, bar [] []) :: cellsWithBars outline last cs

/-- A row whose line ends in the trivia `lineEnd`. -/
def node (outline : Bool) (leading lineEnd : List Trivia) (r : Row) : Node :=
  if r.cells.isEmpty then .ofRow (bar leading lineEnd) []
  else
    let last := if r.closed then bar [] lineEnd else .absent .verticalBarToken [] lineEnd
    .ofRow (bar leading []) (cellsWithBars outline last r.cells)

end Row

namespace Grammar

/-- The next line, if it is a table row. -/
def row? (d : Dialect) (outline : Bool) (c : Cursor) : Option (List Node × Cursor) :=
  match d.peek? c with
  | some ⟨c, l, .tableRow⟩ =>
    let row := Row.split l.content.tail
    let node := row.node outline c.pending (Trivia.lineEnd row.rest l.ending)
    let next := Ahead.consume ⟨c, l, .tableRow⟩
    some ([node],
      if row.closed then next
      else next.report (.missing (c.offset + Text.width l.content) .verticalBarToken))
  | _ => none

/-- The rows of a table. -/
def table (d : Dialect) (outline : Bool) (c : Cursor) : Node × Cursor :=
  let (rows, c) := c.collect (row? d outline)
  (.ofTable rows, c)

end Grammar

namespace Fence

/-- A closing line: its indentation, the fence and the end of the line. -/
def closing (l : Line) : Token :=
  .plain .docStringDelimiterToken (Text.trim l.content)
    (Trivia.piece .whitespace (Text.leadingBlanks l.content))
    (Trivia.lineEnd (Text.trailingBlanks (Text.trimStart l.content)) l.ending)

/-- The doc string that the line ahead opens. All lines up to the one that closes it are content;
a doc string that is not closed runs to the end of the document. -/
def docString (f : Fence) (outline : Bool) (a : Ahead) : Node × Cursor :=
  let l := a.line
  let behind := l.content.drop f.text.length
  let blanks := Trivia.piece .whitespace (Text.leadingBlanks behind)
  let named := Text.trimStart behind
  let lineEnd := Trivia.lineEnd (Text.trailingBlanks named) l.ending
  let first : Token :=
    .plain .docStringDelimiterToken f.text a.cursor.pending
      (if named.isEmpty then blanks ++ lineEnd else blanks)
  let contentType : Option Node :=
    if named.isEmpty then none
    else some (.ofContentType
      (.plain .docStringContentTypeToken (Text.trimEnd named) [] lineEnd))
  let after := a.consume
  let body := after.lines.takeWhile fun m => !f.closes m.content
  let rest := after.lines.dropWhile fun m => !f.closes m.content
  let raw := Line.join body
  let content : Option Node :=
    if raw.isEmpty then none else some ((Reading.docString f).text outline raw [] [])
  let behindBody := after.offset + Text.width raw
  match rest with
  | [] =>
    (.ofDocString first contentType content (.absent .docStringDelimiterToken [] []),
      { after with lines := [], offset := behindBody }.report
        (.missing behindBody .docStringDelimiterToken))
  | m :: ms =>
    (.ofDocString first contentType content (closing m),
      { after with lines := ms, offset := behindBody + m.width })

end Fence

namespace Line

/-- What follows a token on its line: the blanks, with the line break if nothing else is left,
and the text that is left. -/
def cutToken (behind ending : Text) : List Trivia × Text :=
  let text := Text.trimStart behind
  if text.isEmpty then (Trivia.lineEnd (Text.leadingBlanks behind) ending, [])
  else (Trivia.piece .whitespace (Text.leadingBlanks behind), text)

/-- The text that is left on a line as one token. -/
def textToken (text ending : Text) (leading : List Trivia) : Token :=
  .plain .literalToken (Text.trimEnd text) leading
    (Trivia.lineEnd (Text.trailingBlanks text) ending)

end Line

namespace Grammar

/-- The table or doc string below a step. -/
def argument (d : Dialect) (outline : Bool) (c : Cursor) : Option Node × Cursor :=
  match d.peek? c with
  | some ⟨c, _, .tableRow⟩ =>
    let (table, c) := table d outline c
    (some table, c)
  | some ⟨c, l, .docString f⟩ =>
    let (docString, c) := f.docString outline ⟨c, l, .docString f⟩
    (some docString, c)
  | _ => (none, c)

/-- The step that the keyword `m` opens on the line ahead. -/
def step (d : Dialect) (outline : Bool) (m : KeywordMatch) (a : Ahead) : Node × Cursor :=
  let ending := a.line.ending
  let (trailing, text) := Line.cutToken m.rest ending
  let keyword : Token := .plain (.ofRole m.role) m.text a.cursor.pending trailing
  let next := a.consume
  if text.isEmpty then
    let missing : Node := .ofLiterals [.absent .literalToken [] []]
    let (argument, last) := argument d outline (next.report (.missing next.offset .literalToken))
    (.ofStep keyword missing argument, last)
  else
    let text := Reading.stepText.text outline (Text.trimEnd text) []
      (Trivia.lineEnd (Text.trailingBlanks text) ending)
    let (argument, last) := argument d outline next
    (.ofStep keyword text argument, last)

end Grammar

end GherkinTree
