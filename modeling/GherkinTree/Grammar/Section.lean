import GherkinTree.Grammar.Header

/-!
Sections. A section is a header and what follows it, up to the line that opens a section it cannot
hold; a line that fits nowhere on the way is skipped.
-/

namespace GherkinTree

namespace Grammar

/-- The role of the keyword on the line ahead, and whether tags come first: tags belong to the next
line that holds none. -/
def roleAhead (d : Dialect) (a : Ahead) : Option Role × Bool :=
  match a.kind with
  | .tags => ((d.kindAfterTags? a.cursor.lines).bind LineKind.role?, true)
  | k => (k.role?, false)

/-- Skips the line ahead. -/
def skipAhead (a : Ahead) : Option (List Node × Cursor) := some ([], a.skip)

/-- The next step, or a skipped line, up to the line that begins a section. -/
def stepOrSkip? (d : Dialect) (outline : Bool) (c : Cursor) : Option (List Node × Cursor) :=
  match d.peek? c with
  | none => none
  | some a =>
    match a.kind with
    | .keyword m =>
      if m.role.isStep then
        let (step, c) := step d outline m a
        some ([step], c)
      else none
    | _ =>
      match (roleAhead d a).1 with
      | some role => if role.isStructural then none else skipAhead a
      | none => skipAhead a

def steps (d : Dialect) (outline : Bool) (c : Cursor) : List Node × Cursor :=
  c.collect (stepOrSkip? d outline)

def background (d : Dialect) (c : Cursor) : Node × Cursor :=
  let (header, c) := header d .background c
  let (steps, c) := steps d false c
  (.ofBackground header steps, c)

/-- An examples section, whose table comes directly behind its header. -/
def examples (d : Dialect) (c : Cursor) : Node × Cursor :=
  let (header, c) := header d .examples c
  match d.peek? c with
  | some ⟨c, _, .tableRow⟩ =>
    let (table, c) := table d false c
    (.ofExamples header (some table), c)
  | _ => (.ofExamples header none, c)

/-- The next examples section, or a skipped line, up to the line that begins another section. -/
def examplesOrSkip? (d : Dialect) (c : Cursor) : Option (List Node × Cursor) :=
  match d.peek? c with
  | none => none
  | some a =>
    match (roleAhead d a).1 with
    | some .examples =>
      let (examples, c) := examples d a.cursor
      some ([examples], c)
    | some role => if role.isStructural then none else skipAhead a
    | none => skipAhead a

/-- A scenario. Its placeholders count if its keyword says outline or if examples follow. -/
def scenario (d : Dialect) (c : Cursor) : Node × Cursor :=
  let (header, c) := header d .scenario c
  let outline := header.keyword.kind == .scenarioOutlineKeyword || d.hasExamples none c.lines
  let (steps, c) := steps d outline c
  let (examples, c) := c.collect (examplesOrSkip? d)
  (.ofScenario header steps examples, c)

/-- A skipped line in front of the first background, scenario or rule. A background with tags is
none: its tags are skipped. -/
def skipToSection? (d : Dialect) (c : Cursor) : Option (List Node × Cursor) :=
  match d.peek? c with
  | none => none
  | some a =>
    match roleAhead d a with
    | (some .background, false) => none
    | (some .scenario, _) | (some .scenarioOutline, _) | (some .rule, _) => none
    | _ => skipAhead a

/-- The background that the cursor stands at, if any. -/
def background? (d : Dialect) (c : Cursor) : Option Node × Cursor :=
  match d.peek? c with
  | none => (none, c)
  | some a =>
    match roleAhead d a with
    | (some .background, false) =>
      let (background, c) := background d a.cursor
      (some background, c)
    | _ => (none, c)

/-- The next scenario, or a skipped line, up to the next rule. -/
def scenarioOrSkip? (d : Dialect) (c : Cursor) : Option (List Node × Cursor) :=
  match d.peek? c with
  | none => none
  | some a =>
    match (roleAhead d a).1 with
    | some .scenario | some .scenarioOutline =>
      let (scenario, c) := scenario d a.cursor
      some ([scenario], c)
    | some .rule => none
    | _ => skipAhead a

/-- The background and the scenarios up to the next rule: the body of a rule, and of a feature in
front of its rules. -/
def body (d : Dialect) (c : Cursor) : Option Node × List Node × Cursor :=
  let (_, c) := c.collect (skipToSection? d)
  let (background, c) := background? d c
  let (scenarios, c) := c.collect (scenarioOrSkip? d)
  (background, scenarios, c)

def rule (d : Dialect) (c : Cursor) : Node × Cursor :=
  let (header, c) := header d .rule c
  let (background, scenarios, c) := body d c
  (.ofRule header background scenarios, c)

/-- The next rule, or a skipped line. -/
def ruleOrSkip? (d : Dialect) (c : Cursor) : Option (List Node × Cursor) :=
  match d.peek? c with
  | none => none
  | some a =>
    match (roleAhead d a).1 with
    | some .rule =>
      let (rule, c) := rule d a.cursor
      some ([rule], c)
    | _ => skipAhead a

end Grammar

end GherkinTree
