import GherkinTree.Text

/-!
Spans and positions in a source text. A span is a half-open range of byte offsets whose ends are in
order. Lines begin at offset zero and behind every line feed; a column counts characters from the
start of its line.
-/

namespace GherkinTree

/-- The bytes from `start` up to, not including, `stop`. -/
structure Span where
  start : Nat
  stop : Nat
  ordered : start ≤ stop
  deriving DecidableEq

namespace Span

/-- The span with the given ends, in either order. -/
def between (a b : Nat) : Span :=
  if h : a ≤ b then ⟨a, b, h⟩ else ⟨b, a, Nat.le_of_not_le h⟩

/-- The span of `width` bytes from `start` on. -/
def ofWidth (start width : Nat) : Span := ⟨start, start + width, Nat.le_add_right ..⟩

/-- The span without bytes at an offset. -/
def empty (offset : Nat) : Span := ⟨offset, offset, Nat.le_refl _⟩

@[simp] theorem start_ofWidth (s w : Nat) : (ofWidth s w).start = s := rfl
@[simp] theorem stop_ofWidth (s w : Nat) : (ofWidth s w).stop = s + w := rfl
@[simp] theorem start_empty (n : Nat) : (empty n).start = n := rfl
@[simp] theorem stop_empty (n : Nat) : (empty n).stop = n := rfl

/-- The number of bytes. -/
def width (s : Span) : Nat := s.stop - s.start

def isEmpty (s : Span) : Bool := s.start == s.stop

/-- Whether the byte at an offset lies in the span. -/
def contains (s : Span) (offset : Nat) : Bool := s.start ≤ offset && offset < s.stop

/-- Whether both ends of another span lie within the span, its own ends included. -/
def containsSpan (s t : Span) : Bool := s.start ≤ t.start && t.stop ≤ s.stop

/-- The least span that contains both. -/
def cover (s t : Span) : Span where
  start := min s.start t.start
  stop := max s.stop t.stop
  ordered := Nat.le_trans (Nat.min_le_left ..) (Nat.le_trans s.ordered (Nat.le_max_left ..))

/-- Spans are ordered by their start, then by their end. -/
def compare (s t : Span) : Ordering :=
  (Ord.compare s.start t.start).then (Ord.compare s.stop t.stop)

/-- The order of `compare` as a Boolean relation. -/
def le (s t : Span) : Bool := (compare s t).isLE

def render (s : Span) : String := toString s.start ++ ".." ++ toString s.stop

end Span

/-- A line and a column, both counted from zero. -/
structure LinePosition where
  line : Nat
  column : Nat
  deriving DecidableEq, Repr

/-- Readers count lines and columns from one. -/
def LinePosition.render (p : LinePosition) : String :=
  toString (p.line + 1) ++ ":" ++ toString (p.column + 1)

/-- The text of a document. -/
structure Source where
  text : Text
  deriving DecidableEq, Repr

namespace Source

def width (s : Source) : Nat := Text.width s.text

/-- The offsets behind the line feeds of a text that begins at an offset. -/
def startsFrom (offset : Nat) : Text → List Nat
  | [] => []
  | c :: t =>
    if c = '\n' then (offset + c.utf8Size) :: startsFrom (offset + c.utf8Size) t
    else startsFrom (offset + c.utf8Size) t

/-- The offsets at which lines begin. -/
def lineStarts (s : Source) : List Nat := 0 :: startsFrom 0 s.text

def lineCount (s : Source) : Nat := s.lineStarts.length

/-- The text of a span, if both ends are character boundaries of the source. -/
def slice? (s : Source) (span : Span) : Option Text := do
  Text.takeBytes? (← Text.dropBytes? s.text span.start) span.width

/-- The width of a line without its line break, given the text from its start to behind its line
feed: a carriage return directly in front of the line feed belongs to the line break. -/
def contentWidth (line : Text) : Nat :=
  match line.reverse with
  | '\n' :: '\r' :: t => Text.width t
  | '\n' :: t => Text.width t
  | t => Text.width t

/-- The span of a line without its line break. -/
def line? (s : Source) (index : Nat) : Option Span := do
  let start ← s.lineStarts[index]?
  let stop := (s.lineStarts[index + 1]?).getD s.width
  let line ← s.slice? (.between start stop)
  some (.ofWidth start (contentWidth line))

/-- The position `offset` bytes into a text that begins at a line and a column. An offset behind
the end counts as the end, and an offset inside a character has column zero. -/
def positionFrom (line column : Nat) : Text → Nat → LinePosition
  | _, 0 => ⟨line, column⟩
  | [], _ + 1 => ⟨line, column⟩
  | c :: t, n + 1 =>
    if n + 1 < c.utf8Size then ⟨line, 0⟩
    else if c = '\n' then positionFrom (line + 1) 0 t (n + 1 - c.utf8Size)
    else positionFrom line (column + 1) t (n + 1 - c.utf8Size)

/-- The position of an offset. -/
def position (s : Source) (offset : Nat) : LinePosition := positionFrom 0 0 s.text offset

/-- The positions of both ends of a span. -/
def positions (s : Source) (span : Span) : LinePosition × LinePosition :=
  (s.position span.start, s.position span.stop)

end Source

end GherkinTree
