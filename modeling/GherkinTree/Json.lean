import GherkinTree.Diagnostic

/-!
JSON values and their indented form: two spaces for each level, one member or element a line.
Diagnostics are written as such values.
-/

namespace GherkinTree

inductive Json where
  | number (n : Nat)
  | string (s : Text)
  | array (elements : List Json)
  | object (members : List (String × Json))

namespace Json

/-- A character as written in a JSON string. -/
def char (c : Char) : Text :=
  if c = '\x22' then ['\\', '\x22']
  else if c = '\\' then ['\\', '\\']
  else if c = '\x08' then ['\\', 'b']
  else if c = '\t' then ['\\', 't']
  else if c = '\n' then ['\\', 'n']
  else if c = '\x0c' then ['\\', 'f']
  else if c = '\r' then ['\\', 'r']
  else if c.toNat < 0x20 then
    ['\\', 'u', '0', '0', Nat.digitChar (c.toNat / 16), Nat.digitChar (c.toNat % 16)]
  else [c]

def quote (t : Text) : Text := '\x22' :: t.flatMap char ++ ['\x22']

/-- The line break in front of an item, and the indentation of its level. -/
def newLine (level : Nat) : Text := '\n' :: List.replicate (2 * level) ' '

mutual

/-- The indented form of a value on a level. -/
def pretty (level : Nat) : Json → Text
  | number n => (toString n).toList
  | string s => quote s
  | array [] => ['[', ']']
  | array (e :: es) =>
    '[' :: newLine (level + 1) ++ e.pretty (level + 1) ++ elements (level + 1) es ++
      newLine level ++ [']']
  | object [] => ['\x7b', '\x7d']
  | object ((k, v) :: ms) =>
    '\x7b' :: newLine (level + 1) ++ quote k.toList ++ [':', ' '] ++ v.pretty (level + 1) ++
      members (level + 1) ms ++ newLine level ++ ['\x7d']

/-- Elements behind the first. -/
def elements (level : Nat) : List Json → Text
  | [] => []
  | e :: es => ',' :: newLine level ++ e.pretty level ++ elements level es

/-- Members behind the first. -/
def members (level : Nat) : List (String × Json) → Text
  | [] => []
  | (k, v) :: ms =>
    ',' :: newLine level ++ quote k.toList ++ [':', ' '] ++ v.pretty level ++ members level ms

end

end Json

def Span.toJson (s : Span) : Json :=
  .object [("start", .number s.start), ("end", .number s.stop)]

/-- The tag of a problem and what it is about. -/
def Problem.members : Problem → List (String × Json)
  | missingToken k => [("type", .string "missing_token".toList), ("expected", .string k.name.toList)]
  | unexpectedContent found =>
    [("type", .string "unexpected_content".toList), ("found", .string found.toList)]
  | unknownLanguage code =>
    [("type", .string "unknown_language".toList), ("code", .string code.toList)]

namespace Diagnostic

def toJson (d : Diagnostic) : Json :=
  .object ([("span", d.span.toJson), ("severity", .string d.severity.name.toList)] ++
    d.problem.members)

/-- A list of diagnostics in indented form. -/
def pretty (ds : List Diagnostic) : Text := Json.pretty 0 (.array (ds.map toJson))

end Diagnostic

end GherkinTree
