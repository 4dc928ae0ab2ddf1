import GherkinTree.Dialect.Vocabulary
import GherkinTree.Event
import GherkinTree.Line
import GherkinTree.Tree.Basic

/-!
Reading a document line by line. A cursor holds the lines still to be read; blank lines, comment
lines, indentation and skipped lines wait in it until the next token takes them as its leading
trivia. Comments in front of the first other line may be directives that select the dialect.
-/

namespace GherkinTree

namespace Line

/-- A whole line as trivia, its text being of the given kind. -/
def pieces (kind : TriviaKind) (l : Line) : List Trivia :=
  Trivia.piece .whitespace (Text.leadingBlanks l.content) ++
    Trivia.piece kind (Text.trim l.content) ++
    Trivia.lineEnd (Text.trailingBlanks (Text.trimStart l.content)) l.ending

theorem render_pieces (kind : TriviaKind) (l : Line) :
    Trivia.render (l.pieces kind) = l.full := by
  simp [pieces, full, Text.trim]
  simp [← List.append_assoc]

end Line

/-- A place between lines. -/
structure Cursor where
  /-- The lines still to be read. -/
  lines : List Line
  /-- The byte offset of the first of them. -/
  offset : Nat
  /-- Trivia that no token has taken yet; it ends at the offset. -/
  pending : List Trivia
  /-- What has happened so far. -/
  events : List Event

namespace Cursor

/-- Cuts lines in front of the first text that is neither blank nor a comment. -/
def cutTrivia : List Line → List Trivia × List Line
  | [] => ([], [])
  | l :: ls =>
    if Line.isTrivial (Text.trimStart l.content) then
      let (ts, rest) := cutTrivia ls
      (l.pieces .comment ++ ts, rest)
    else
      (Trivia.piece .whitespace (Text.leadingBlanks l.content),
        ⟨Text.trimStart l.content, l.ending⟩ :: ls)

theorem render_cutTrivia (ls : List Line) :
    Trivia.render (cutTrivia ls).1 ++ Line.join (cutTrivia ls).2 = Line.join ls := by
  fun_induction cutTrivia ls with
  | case1 => rfl
  | case2 l ls h ts rest hc ih => simp_all [Line.render_pieces]
  | case3 l ls h =>
    simp [Line.full, ← List.append_assoc]

theorem length_cutTrivia_le (ls : List Line) : (cutTrivia ls).2.length ≤ ls.length := by
  fun_induction cutTrivia ls with
  | case1 => simp
  | case2 l ls h ts rest hc ih => simp_all; omega
  | case3 l ls h => simp

/-- Moves on to the next text that is neither blank nor a comment. -/
def advance (c : Cursor) : Cursor :=
  let (ts, ls) := cutTrivia c.lines
  { c with lines := ls, offset := c.offset + Trivia.widthOf ts, pending := c.pending ++ ts }

/-- Records an event. -/
def report (c : Cursor) (e : Event) : Cursor := { c with events := c.events ++ [e] }

/-- Repeats a step as long as it gives a result and leaves fewer lines, and collects what it
gives. -/
def collect {α : Type} (step : Cursor → Option (List α × Cursor)) (c : Cursor) : List α × Cursor :=
  match step c with
  | none => ([], c)
  | some (xs, next) =>
    if next.lines.length < c.lines.length then
      let (ys, last) := collect step next
      (xs ++ ys, last)
    else (xs, next)
termination_by c.lines.length

end Cursor

/-- The line that a cursor stands in front of, blank lines and comments left behind, and its
kind. -/
structure Ahead where
  cursor : Cursor
  line : Line
  kind : LineKind

namespace Ahead

/-- Behind the line, whose tokens have taken the pending trivia. -/
def consume (a : Ahead) : Cursor :=
  { a.cursor with
    lines := a.cursor.lines.tail
    offset := a.cursor.offset + a.line.width
    pending := [] }

/-- Behind the line, which fits nowhere and is reported. -/
def skip (a : Ahead) : Cursor where
  lines := a.cursor.lines.tail
  offset := a.cursor.offset + a.line.width
  pending := a.cursor.pending ++ a.line.pieces .skippedText
  events := a.cursor.events ++
    [.skippedLine (Span.ofWidth a.cursor.offset (Text.width (Text.trimEnd a.line.content)))
      a.kind.describe]

end Ahead

/-- The next line that is neither blank nor a comment. -/
def Dialect.peek? (d : Dialect) (c : Cursor) : Option Ahead :=
  match c.advance.lines with
  | [] => none
  | l :: _ => some ⟨c.advance, l, d.classify l.content⟩

/-- The comments in front of a document: the dialect they select, the trivia they make, what
happened, and the lines that remain. -/
structure Preamble where
  dialect : Dialect
  trivia : List Trivia
  events : List Event
  lines : List Line

namespace Preamble

/-- Reads blank and comment lines from a byte offset on. Each directive with a known language
selects its dialect; one with an unknown language is reported and changes nothing. -/
def read (d : Dialect) (offset : Nat) : List Line → Preamble
  | [] => ⟨d, [], [], []⟩
  | l :: ls =>
    if Line.isTrivial (Text.trimStart l.content) then
      match languageCode? (Text.trim l.content) with
      | none =>
        let p := read d (offset + l.width) ls
        { p with trivia := l.pieces .comment ++ p.trivia }
      | some code =>
        let trivia := l.pieces .languageDirective
        match Dialect.find (String.ofList code) with
        | .ok found =>
          let p := read found (offset + l.width) ls
          { p with trivia := trivia ++ p.trivia, events := .selected found.code :: p.events }
        | .error _ =>
          let span := Span.ofWidth (offset + Text.width (Text.leadingBlanks l.content))
            (Text.width (Text.trim l.content))
          let p := read d (offset + l.width) ls
          { p with
            trivia := trivia ++ p.trivia
            events := .unknownLanguage span (String.ofList code) d.code :: p.events }
    else
      ⟨d, Trivia.piece .whitespace (Text.leadingBlanks l.content), [],
        ⟨Text.trimStart l.content, l.ending⟩ :: ls⟩

/-- The cursor behind the preamble of a document. -/
def cursor (p : Preamble) : Cursor := ⟨p.lines, Trivia.widthOf p.trivia, p.trivia, p.events⟩

end Preamble

end GherkinTree
