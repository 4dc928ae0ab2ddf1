import GherkinTree.Proofs.Form
import GherkinTree.Tree.Build

/-!
A reader that checks what it makes. It reads what the grammar reads, but each node goes through its
builder and has to be of a kind of nodes, each token has to be of a kind of tokens, and the text of
a token has to lie in front of the place where the reader stands. Main statement: no check fails on
any document, so the reader gives what the unchecked one gives.
-/

namespace GherkinTree

/-- A check that failed. -/
inductive Fault where
  | shape (e : ShapeError)
  | notNodeKind (kind : Kind)
  /-- A token ends behind the place where the reader stands. -/
  | unread (stop position : Nat)
  deriving DecidableEq, Repr

namespace Checked

/-- What a builder gives. -/
def build {α : Type} : Except ShapeError α → Except Fault α
  | .ok a => .ok a
  | .error e => .error (.shape e)

/-- A node that a builder gives. -/
def node (b : Except ShapeError Node) : Except Fault Node := do
  let n ← build b
  if n.kind.isNode then return n else throw (.notNodeKind n.kind)

/-- A token that the source has from `start` on, made when the reader stands at `position`. -/
def token (start position : Nat) (kind : Kind) (text : Text) (leading trailing : List Trivia) :
    Except Fault Token :=
  let stop := start + Text.width text
  if stop ≤ position then build (Build.token kind text leading trailing)
  else throw (.unread stop position)

/-- Repeats a step as long as it gives a result and leaves fewer lines. -/
def collect {α : Type} (step : Cursor → Except Fault (Option (List α × Cursor))) (c : Cursor) :
    Except Fault (List α × Cursor) :=
  match step c with
  | .error e => .error e
  | .ok none => .ok ([], c)
  | .ok (some (xs, next)) =>
    if next.lines.length < c.lines.length then
      match collect step next with
      | .error e => .error e
      | .ok (ys, last) => .ok (xs ++ ys, last)
    else .ok (xs, next)
termination_by c.lines.length

section Text

variable (r : Reading)

def part (leading trailing : List Trivia) : Piece → Except Fault Element
  | .literal t => do
    let run ← build (Build.literal r.kind t (r.decode t) leading trailing)
    return .token run
  | .placeholder name => do
    let less ← build (Build.token .lessThanToken ['<'] leading [])
    let name ← build (Build.token .identifierToken name [] [])
    let greater ← build (Build.token .greaterThanToken ['>'] [] trailing)
    let n ← node (Build.placeholder less name greater)
    return n.toElement

def parts (leading trailing : List Trivia) : List Piece → Except Fault (List Element)
  | [] => return []
  | [p] => do
    let e ← part r leading trailing p
    return [e]
  | p :: ps => do
    let e ← part r leading [] p
    let es ← parts [] trailing ps
    return e :: es

def interpolated (raw : Text) (leading trailing : List Trivia) : Except Fault Node := do
  let ps ← parts r leading trailing (Piece.split raw)
  node (Build.parts ps)

end Text

def cell (outline : Bool) (c : Cell) : Except Fault Node := do
  let leading := Trivia.piece .whitespace c.before
  let trailing := Trivia.piece .whitespace c.after
  if c.raw.isEmpty then
    let t ← build (Build.missing .tableLiteralToken leading trailing)
    node (Build.cell (.token t))
  else if outline then
    let n ← interpolated Reading.cell c.raw leading trailing
    node (Build.cell n.toElement)
  else
    let t ← build (Build.literal .tableLiteralToken c.raw (Cell.unescape c.raw) leading trailing)
    node (Build.cell (.token t))

def bar (leading trailing : List Trivia) : Except Fault Token :=
  build (Build.token .verticalBarToken ['|'] leading trailing)

def cellsWithBars (outline : Bool) (last : Except Fault Token) :
    List Cell → Except Fault (List (Node × Token))
  | [] => return []
  | [c] => do
    let n ← cell outline c
    let t ← last
    return [(n, t)]
  | c :: cs => do
    let n ← cell outline c
    let t ← bar [] []
    let rest ← cellsWithBars outline last cs
    return (n, t) :: rest

def rowNode (outline : Bool) (leading lineEnd : List Trivia) (r : Row) : Except Fault Node := do
  if r.cells.isEmpty then
    let t ← bar leading lineEnd
    node (Build.row t [])
  else
    let t ← bar leading []
    let last :=
      if r.closed then bar [] lineEnd else build (Build.missing .verticalBarToken [] lineEnd)
    let cells ← cellsWithBars outline last r.cells
    node (Build.row t cells)

def row? (d : Dialect) (outline : Bool) (c : Cursor) :
    Except Fault (Option (List Node × Cursor)) :=
  match d.peek? c with
  | some ⟨c, l, .tableRow⟩ => do
    let row := Row.split l.content.tail
    let n ← rowNode outline c.pending (Trivia.lineEnd row.rest l.ending) row
    let next := Ahead.consume ⟨c, l, .tableRow⟩
    return some ([n],
      if row.closed then next
      else next.report (.missing (c.offset + Text.width l.content) .verticalBarToken))
  | _ => return none

def table (d : Dialect) (outline : Bool) (c : Cursor) : Except Fault (Node × Cursor) := do
  let (rows, c) ← collect (row? d outline) c
  let n ← node (Build.table rows)
  return (n, c)

/-- The type behind the first fence, if there is any. -/
def contentType (start position : Nat) (named : Text) (lineEnd : List Trivia) :
    Except Fault (Option Node) := do
  if named.isEmpty then return none
  else
    let t ← token start position .docStringContentTypeToken (Text.trimEnd named) [] lineEnd
    let n ← node (Build.contentType t)
    return some n

/-- The text between the fences, if there is any. -/
def content (f : Fence) (outline : Bool) (raw : Text) : Except Fault (Option Node) := do
  if raw.isEmpty then return none
  else if outline then
    let n ← interpolated (Reading.docString f) raw [] []
    return some n
  else
    let t ← build (Build.literal .docStringContentToken raw (f.unescape raw) [] [])
    let n ← node (Build.literals [t])
    return some n

/-- The tokens of a doc string are made when all of it is read. -/
def docString (f : Fence) (outline : Bool) (a : Ahead) : Except Fault (Node × Cursor) := do
  let behind := a.line.content.drop f.text.length
  let blanks := Trivia.piece .whitespace (Text.leadingBlanks behind)
  let named := Text.trimStart behind
  let lineEnd := Trivia.lineEnd (Text.trailingBlanks named) a.line.ending
  let body := a.consume.lines.takeWhile fun m => !f.closes m.content
  let rest := a.consume.lines.dropWhile fun m => !f.closes m.content
  let raw := Line.join body
  let behindBody := a.consume.offset + Text.width raw
  let next := (f.docString outline a).2
  let first ← token a.cursor.offset next.offset .docStringDelimiterToken f.text a.cursor.pending
    (if named.isEmpty then blanks ++ lineEnd else blanks)
  let contentType ← contentType (a.cursor.offset + Text.width f.text + Trivia.widthOf blanks)
    next.offset named lineEnd
  let content ← content f outline raw
  match rest with
  | [] =>
    let last ← build (Build.missing .docStringDelimiterToken [] [])
    let n ← node (Build.docString first contentType content last)
    return (n, next)
  | m :: _ =>
    let last ← token (behindBody + Text.width (Text.leadingBlanks m.content)) next.offset
      .docStringDelimiterToken (Text.trim m.content)
      (Trivia.piece .whitespace (Text.leadingBlanks m.content))
      (Trivia.lineEnd (Text.trailingBlanks (Text.trimStart m.content)) m.ending)
    let n ← node (Build.docString first contentType content last)
    return (n, next)

def argument (d : Dialect) (outline : Bool) (c : Cursor) :
    Except Fault (Option Node × Cursor) :=
  match d.peek? c with
  | some ⟨c, _, .tableRow⟩ => do
    let (n, c) ← table d outline c
    return (some n, c)
  | some ⟨c, l, .docString f⟩ => do
    let (n, c) ← docString f outline ⟨c, l, .docString f⟩
    return (some n, c)
  | _ => return (none, c)

def stepText (start position : Nat) (outline : Bool) (raw : Text) (trailing : List Trivia) :
    Except Fault Node := do
  if outline then interpolated Reading.stepText raw [] trailing
  else
    let t ← token start position .literalToken raw [] trailing
    node (Build.literals [t])

def step (d : Dialect) (outline : Bool) (m : KeywordMatch) (a : Ahead) :
    Except Fault (Node × Cursor) := do
  let ending := a.line.ending
  let (trailing, text) := Line.cutToken m.rest ending
  let behind := a.cursor.offset + Text.width m.text + Trivia.widthOf trailing
  let keyword ← token a.cursor.offset behind (.ofRole m.role) m.text a.cursor.pending trailing
  let next := a.consume
  if text.isEmpty then
    let t ← build (Build.missing .literalToken [] [])
    let text ← node (Build.literals [t])
    let (argument, last) ← argument d outline (next.report (.missing next.offset .literalToken))
    let n ← node (Build.step keyword text argument)
    return (n, last)
  else
    let text ← stepText behind next.offset outline (Text.trimEnd text)
      (Trivia.lineEnd (Text.trailingBlanks text) ending)
    let (argument, last) ← argument d outline next
    let n ← node (Build.step keyword text argument)
    return (n, last)

/-- The tags of a line are made when all of the line is read. -/
def tagTokens (start position : Nat) (leading rest : List Trivia) :
    List (Text × Text) → Except Fault (List Token)
  | [] => return []
  | [(tag, blanks)] => do
    let t ← token start position .tagToken tag leading (Trivia.piece .whitespace blanks ++ rest)
    return [t]
  | (tag, blanks) :: tags => do
    let t ← token start position .tagToken tag leading (Trivia.piece .whitespace blanks)
    let ts ← tagTokens (start + Text.width tag + Text.width blanks) position [] rest tags
    return t :: ts

def tagLine? (d : Dialect) (c : Cursor) : Except Fault (Option (List Token × Cursor)) :=
  match d.peek? c with
  | some ⟨c, l, .tags⟩ => do
    let line := TagLine.split l.content
    let next := Ahead.consume ⟨c, l, .tags⟩
    let ts ← tagTokens c.offset next.offset c.pending (line.restTrivia l.ending) line.tags
    return some (ts,
      if line.rest.isEmpty || line.restIsComment then next
      else next.report (.skippedAfterTags
        (Span.ofWidth (c.offset + Text.width line.tagText) (Text.width (Text.trimEnd line.rest)))))
  | _ => return none

def tags (d : Dialect) (c : Cursor) : Except Fault (Option Node × Cursor) := do
  let (ts, c) ← collect (tagLine? d) c
  if ts.isEmpty then return (none, c)
  else
    let n ← node (Build.tags ts)
    return (some n, c)

/-- The text that is left on a line, which ends where the reader stands. -/
def textToken (start position : Nat) (text ending : Text) (leading : List Trivia) :
    Except Fault Token :=
  token start position .literalToken (Text.trimEnd text) leading
    (Trivia.lineEnd (Text.trailingBlanks text) ending)

def textLine? (d : Dialect) (c : Cursor) : Except Fault (Option (List Token × Cursor)) :=
  match d.peek? c with
  | some ⟨c, l, .text⟩ => do
    let next := Ahead.consume ⟨c, l, .text⟩
    let t ← textToken c.offset next.offset l.content l.ending c.pending
    return some ([t], next)
  | _ => return none

def description (d : Dialect) (c : Cursor) : Except Fault (Option Node × Cursor) := do
  let (ts, c) ← collect (textLine? d) c
  if ts.isEmpty then return (none, c)
  else
    let n ← node (Build.description ts)
    return (some n, c)

def nameOf (start position : Nat) (text ending : Text) : Except Fault (Option Node) := do
  if text.isEmpty then return none
  else
    let t ← textToken start position text ending []
    let n ← node (Build.literals [t])
    return some n

def titleLine (m : KeywordMatch) (a : Ahead) : Except Fault (Grammar.Title × Cursor) := do
  let ending := a.line.ending
  let (afterKeyword, rest) := Line.cutToken m.rest ending
  let behind := a.cursor.offset + Text.width m.text + Trivia.widthOf afterKeyword
  let keyword ← token a.cursor.offset behind (.ofRole m.role) m.text a.cursor.pending afterKeyword
  match rest with
  | ':' :: rest =>
    let (afterColon, text) := Line.cutToken rest ending
    let behindColon := behind + Text.width [':'] + Trivia.widthOf afterColon
    let colon ← token behind behindColon .colonToken [':'] [] afterColon
    let name ← nameOf behindColon a.consume.offset text ending
    return (⟨keyword, colon, name⟩, a.consume)
  | text =>
    let colon ← build (Build.missing .colonToken [] [])
    let name ← nameOf behind a.consume.offset text ending
    return (⟨keyword, colon, name⟩, a.consume.report (.missing behind .colonToken))

def absentTitle (role : Role) (c : Cursor) : Except Fault (Grammar.Title × Cursor) := do
  let keyword ← build (Build.missing (.ofRole role) [] [])
  let colon ← build (Build.missing .colonToken [] [])
  return (⟨keyword, colon, none⟩,
    (c.report (.missing c.offset (.ofRole role))).report (.missing c.offset .colonToken))

def title (d : Dialect) (role : Role) (c : Cursor) : Except Fault (Grammar.Title × Cursor) :=
  match d.peek? c with
  | some ⟨c, l, .keyword m⟩ =>
    if Grammar.opens role m.role then titleLine m ⟨c, l, .keyword m⟩ else absentTitle role c
  | some ⟨c, _, _⟩ => absentTitle role c
  | none => absentTitle role c.advance

def header (d : Dialect) (role : Role) (c : Cursor) : Except Fault (Header × Cursor) := do
  let (tags, c) ← tags d c
  let (title, c) ← title d role c
  let (description, c) ← description d c
  return (⟨tags, title.keyword, title.colon, title.name, description⟩, c)

/-- Skips the line ahead, of which no token is made. -/
def skipAhead (a : Ahead) : Except Fault (Option (List Node × Cursor)) := return some ([], a.skip)

def stepOrSkip? (d : Dialect) (outline : Bool) (c : Cursor) :
    Except Fault (Option (List Node × Cursor)) :=
  match d.peek? c with
  | none => return none
  | some a =>
    match a.kind with
    | .keyword m =>
      if m.role.isStep then do
        let (n, c) ← step d outline m a
        return some ([n], c)
      else return none
    | _ =>
      match (Grammar.roleAhead d a).1 with
      | some role => if role.isStructural then return none else skipAhead a
      | none => skipAhead a

def steps (d : Dialect) (outline : Bool) (c : Cursor) : Except Fault (List Node × Cursor) :=
  collect (stepOrSkip? d outline) c

def background (d : Dialect) (c : Cursor) : Except Fault (Node × Cursor) := do
  let (header, c) ← header d .background c
  let (steps, c) ← steps d false c
  let n ← node (Build.background header steps)
  return (n, c)

def examples (d : Dialect) (c : Cursor) : Except Fault (Node × Cursor) := do
  let (header, c) ← header d .examples c
  match d.peek? c with
  | some ⟨c, _, .tableRow⟩ =>
    let (table, c) ← table d false c
    let n ← node (Build.examples header (some table))
    return (n, c)
  | _ =>
    let n ← node (Build.examples header none)
    return (n, c)

def examplesOrSkip? (d : Dialect) (c : Cursor) : Except Fault (Option (List Node × Cursor)) :=
  match d.peek? c with
  | none => return none
  | some a =>
    match (Grammar.roleAhead d a).1 with
    | some .examples => do
      let (n, c) ← examples d a.cursor
      return some ([n], c)
    | some role => if role.isStructural then return none else skipAhead a
    | none => skipAhead a

def scenario (d : Dialect) (c : Cursor) : Except Fault (Node × Cursor) := do
  let (header, c) ← header d .scenario c
  let outline := header.keyword.kind == .scenarioOutlineKeyword || d.hasExamples none c.lines
  let (steps, c) ← steps d outline c
  let (examples, c) ← collect (examplesOrSkip? d) c
  let n ← node (Build.scenario header steps examples)
  return (n, c)

def background? (d : Dialect) (c : Cursor) : Except Fault (Option Node × Cursor) :=
  match d.peek? c with
  | none => return (none, c)
  | some a =>
    match Grammar.roleAhead d a with
    | (some .background, false) => do
      let (n, c) ← background d a.cursor
      return (some n, c)
    | _ => return (none, c)

def scenarioOrSkip? (d : Dialect) (c : Cursor) : Except Fault (Option (List Node × Cursor)) :=
  match d.peek? c with
  | none => return none
  | some a =>
    match (Grammar.roleAhead d a).1 with
    | some .scenario | some .scenarioOutline => do
      let (n, c) ← scenario d a.cursor
      return some ([n], c)
    | some .rule => return none
    | _ => skipAhead a

def body (d : Dialect) (c : Cursor) : Except Fault (Option Node × List Node × Cursor) := do
  let (_, c) := c.collect (Grammar.skipToSection? d)
  let (background, c) ← background? d c
  let (scenarios, c) ← collect (scenarioOrSkip? d) c
  return (background, scenarios, c)

def rule (d : Dialect) (c : Cursor) : Except Fault (Node × Cursor) := do
  let (header, c) ← header d .rule c
  let (background, scenarios, c) ← body d c
  let n ← node (Build.rule header background scenarios)
  return (n, c)

def ruleOrSkip? (d : Dialect) (c : Cursor) : Except Fault (Option (List Node × Cursor)) :=
  match d.peek? c with
  | none => return none
  | some a =>
    match (Grammar.roleAhead d a).1 with
    | some .rule => do
      let (n, c) ← rule d a.cursor
      return some ([n], c)
    | _ => skipAhead a

def impliedHeader (d : Dialect) (c : Cursor) : Except Fault (Header × Cursor) := do
  let c := c.advance
  let keyword ← build (Build.missing .featureKeyword c.pending [])
  let c := { c with pending := [] }.report (.missing c.offset .featureKeyword)
  let colon ← build (Build.missing .colonToken [] [])
  match (← textLine? d c) with
  | some (line, c) =>
    let name ← node (Build.literals line)
    let (description, c) ← description d c
    return (⟨none, keyword, colon, some name, description⟩, c)
  | none =>
    let (description, c) ← description d c
    return (⟨none, keyword, colon, none, description⟩, c)

def featureHeader (d : Dialect) (c : Cursor) : Except Fault (Header × Cursor) :=
  match d.peek? c with
  | none => impliedHeader d c
  | some a =>
    match (Grammar.roleAhead d a).1 with
    | some .feature => header d .feature a.cursor
    | _ => impliedHeader d c

def feature (d : Dialect) (c : Cursor) : Except Fault (Node × Cursor) := do
  let (header, c) ← featureHeader d c
  let (background, scenarios, c) ← body d c
  let (rules, c) ← collect (ruleOrSkip? d) c
  let n ← node (Build.feature header background scenarios rules)
  return (n, c)

def feature? (d : Dialect) (c : Cursor) : Except Fault (Option Node × Cursor) :=
  match d.peek? c with
  | none => return (none, c)
  | some a => do
    let (n, c) ← feature d a.cursor
    return (some n, c)

def document (d : Dialect) (c : Cursor) : Except Fault (Node × Cursor) := do
  let (feature, c) ← feature? d c
  let c := c.advance
  let eof ← token c.offset c.offset .endOfFileToken [] c.pending []
  let n ← node (Build.document feature eof)
  return (n, { c with pending := [] })

/-- Reads a document and checks everything that it makes. -/
def parse (d : Dialect) (source : Text) : Except Fault Parsed := do
  let preamble := Preamble.read d 0 (Line.split source)
  let (root, c) ← document preamble.dialect preamble.cursor
  return ⟨root, preamble.dialect, c.events⟩

end Checked

end GherkinTree
