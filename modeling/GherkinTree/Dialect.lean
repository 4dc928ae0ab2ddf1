import GherkinTree.Role

/-!
A dialect is the table of keyword spellings of one natural language. The table is kept longest
spelling first, ties in the order of roles, so the first spelling that fits is the longest that
fits. A structural keyword fits only in front of a colon; a step keyword that was listed with a
space behind it fits only in front of a blank or at the end.
-/

namespace GherkinTree

/-- One spelling of a role; `separated` tells that a blank has to follow it. -/
structure Spelling where
  role : Role
  text : Text
  separated : Bool
  deriving DecidableEq, Repr

namespace Spelling

/-- Whether `rest` may follow the spelling. -/
def accepts (s : Spelling) (rest : Text) : Bool :=
  if s.role.isStructural then rest.head? == some ':'
  else if s.separated then rest.head?.all Text.isBlank
  else true

/-- What follows the spelling in a text that begins with it. -/
def rest? (s : Spelling) (t : Text) : Option Text := (Text.after? s.text t).filter s.accepts

/-- A longer spelling stands first, and of equally long ones the one of the earlier role. -/
def precedes (a b : Spelling) : Bool :=
  Text.width b.text < Text.width a.text ||
    (Text.width a.text == Text.width b.text && a.role.rank ≤ b.role.rank)

/-- The entry for a spelling as keyword tables write it: spaces at the end are no part of the
keyword, they tell that a blank has to follow. The asterisk is a role of its own, whichever step
role lists it. Nothing but spaces is no keyword. -/
def ofListed? (role : Role) (listed : Text) : Option Spelling :=
  let text := (listed.reverse.dropWhile (· == ' ')).reverse
  if text.isEmpty then none
  else if role.isStructural then some ⟨role, text, false⟩
  else if text == ['*'] then some ⟨.wildcard, text, true⟩
  else some ⟨role, text, text.length != listed.length⟩

end Spelling

/-- A keyword at the start of a text, cut off from what follows it. -/
structure KeywordMatch where
  role : Role
  text : Text
  rest : Text
  deriving DecidableEq, Repr

/-- The keywords of one language. -/
structure Dialect where
  code : String
  name : String
  native : String
  entries : List Spelling
  deriving DecidableEq, Repr

namespace Dialect

/-- A dialect without keywords. -/
def new (code name native : String) : Dialect := ⟨code, name, native, []⟩

/-- Adds an entry at the end unless its role already has a spelling of that text. -/
def addEntry (table : List Spelling) (s : Spelling) : List Spelling :=
  if table.any fun t => t.role == s.role && t.text == s.text then table else table ++ [s]

/-- Adds the listed spellings of a role and restores the order of the table. -/
def withSpellings (d : Dialect) (role : Role) (listed : List Text) : Dialect :=
  let added := listed.filterMap (Spelling.ofListed? role)
  { d with entries := (added.foldl addEntry d.entries).mergeSort Spelling.precedes }

/-- The spellings of a role, longest first. -/
def spellings (d : Dialect) (role : Role) : List Text :=
  (d.entries.filter (·.role == role)).map (·.text)

/-- The longest keyword of one of the roles at the start of a text. -/
def matchKeyword (d : Dialect) (t : Text) (roles : List Role) : Option KeywordMatch :=
  d.entries.findSome? fun s =>
    if roles.contains s.role then (s.rest? t).map fun rest => ⟨s.role, s.text, rest⟩ else none

/-- The longest keyword at the start of a text. -/
def matchAny (d : Dialect) (t : Text) : Option KeywordMatch := d.matchKeyword t Role.all

/-- A matched keyword and what follows it make up the text. -/
theorem append_of_matchKeyword {d : Dialect} {t : Text} {roles : List Role} {m : KeywordMatch}
    (h : d.matchKeyword t roles = some m) : t = m.text ++ m.rest := by
  obtain ⟨s, -, hs⟩ := List.exists_of_findSome?_eq_some h
  split at hs
  · obtain ⟨rest, hr, rfl⟩ := Option.map_eq_some_iff.1 hs
    exact Text.after?_eq_some_iff.1 (Option.filter_eq_some_iff.1 hr).1
  · cases hs

end Dialect

end GherkinTree
