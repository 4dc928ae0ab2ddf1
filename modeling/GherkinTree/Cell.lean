import GherkinTree.Text

/-!
Cells of a table row. A row is cut at its bars; a backslash keeps the next character from being
one. In the text of a cell a backslash escapes a bar, a backslash and, as the letter `n`, a line
feed; in front of any other character it stands for itself.
-/

namespace GherkinTree

/-- The text of a cell between the blanks around it. -/
structure Cell where
  before : Text
  raw : Text
  after : Text
  deriving DecidableEq, Repr

namespace Cell

/-- The value that the text of a cell stands for. -/
def unescape : Text → Text
  | [] => []
  | [c] => [c]
  | c :: d :: t =>
    if c = '\\' then
      if d = '|' then '|' :: unescape t
      else if d = '\\' then '\\' :: unescape t
      else if d = 'n' then '\n' :: unescape t
      else '\\' :: d :: unescape t
    else c :: unescape (d :: t)

/-- A value written as the text of a cell. -/
def escape : Text → Text
  | [] => []
  | c :: t =>
    if c = '\\' then '\\' :: '\\' :: escape t
    else if c = '|' then '\\' :: '|' :: escape t
    else if c = '\n' then '\\' :: 'n' :: escape t
    else c :: escape t

/-- Cuts a text in front of its first bar that no backslash escapes. -/
def cutBar : Text → Text × Text
  | [] => ([], [])
  | [c] => if c = '|' then ([], [c]) else ([c], [])
  | c :: d :: t =>
    if c = '|' then ([], c :: d :: t)
    else if c = '\\' then let (a, b) := cutBar t; (c :: d :: a, b)
    else let (a, b) := cutBar (d :: t); (c :: a, b)

theorem cutBar_append (t : Text) : (cutBar t).1 ++ (cutBar t).2 = t := by
  fun_induction cutBar t <;> simp_all

end Cell

/-- A row behind its first bar: its cells, whether a bar follows the last of them, and the blanks
behind the last bar. -/
structure Row where
  cells : List Cell
  closed : Bool
  rest : Text
  deriving DecidableEq, Repr

namespace Row

/-- Cuts the text behind a bar into cells. -/
def split (t : Text) : Row :=
  if (Text.trimStart t).isEmpty then ⟨[], true, t⟩
  else
    let raw := (Cell.cutBar (Text.trimStart t)).1
    let cell := ⟨Text.leadingBlanks t, Text.trimEnd raw, Text.trailingBlanks raw⟩
    match _h : (Cell.cutBar (Text.trimStart t)).2 with
    | [] => ⟨[cell], false, []⟩
    | _ :: r =>
      let row := split r
      ⟨cell :: row.cells, row.closed, row.rest⟩
termination_by t.length
decreasing_by
  have ha := congrArg List.length (Cell.cutBar_append (Text.trimStart t))
  have hb := congrArg List.length (Text.leadingBlanks_append_trimStart t)
  simp only [List.length_append, _h, List.length_cons] at ha hb
  omega

end Row

end GherkinTree
