import GherkinTree.Grammar.Section

/-!
Documents: a feature and the end of the file. A document whose first line opens no feature still
has one, with a missing keyword.
-/

namespace GherkinTree

namespace Grammar

/-- The header of a feature without a feature line. Its first line of plain text is the name. -/
def impliedHeader (d : Dialect) (c : Cursor) : Header × Cursor :=
  let c := c.advance
  let keyword : Token := .absent .featureKeyword c.pending []
  let c := { c with pending := [] }.report (.missing c.offset .featureKeyword)
  let (name, c) :=
    match textLine? d c with
    | some (line, c) => (some (Node.ofLiterals line), c)
    | none => (none, c)
  let (description, c) := description d c
  (⟨none, keyword, .absent .colonToken [] [], name, description⟩, c)

/-- The header of a feature; one that the document lacks is implied. -/
def featureHeader (d : Dialect) (c : Cursor) : Header × Cursor :=
  match d.peek? c with
  | none => impliedHeader d c
  | some a =>
    match (roleAhead d a).1 with
    | some .feature => header d .feature a.cursor
    | _ => impliedHeader d c

def feature (d : Dialect) (c : Cursor) : Node × Cursor :=
  let (header, c) := featureHeader d c
  let (background, scenarios, c) := body d c
  let (rules, c) := c.collect (ruleOrSkip? d)
  (.ofFeature header background scenarios rules, c)

/-- The feature of a document that holds anything but trivia. -/
def feature? (d : Dialect) (c : Cursor) : Option Node × Cursor :=
  match d.peek? c with
  | none => (none, c)
  | some a =>
    let (feature, c) := feature d a.cursor
    (some feature, c)

def document (d : Dialect) (c : Cursor) : Node × Cursor :=
  let (feature, c) := feature? d c
  let c := c.advance
  (.ofDocument feature (.plain .endOfFileToken [] c.pending []), { c with pending := [] })

end Grammar

/-- What reading a document gives. -/
structure Parsed where
  root : Node
  dialect : Dialect
  events : List Event

/-- Reads a document, in the given dialect unless a directive selects another. -/
def parse (d : Dialect) (source : Text) : Parsed :=
  let preamble := Preamble.read d 0 (Line.split source)
  let (root, c) := Grammar.document preamble.dialect preamble.cursor
  ⟨root, preamble.dialect, c.events⟩

end GherkinTree
