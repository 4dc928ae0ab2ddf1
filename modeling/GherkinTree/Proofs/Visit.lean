import GherkinTree.Proofs.KeptLine
import GherkinTree.Proofs.Lockstep
import GherkinTree.Proofs.Place

/-!
What the reader is at while it reads, as a tree of visits: a visit is a call of a function of the
grammar or a round of a loop, with the offsets at which it begins and ends and the visits made in
between. A visit goes forward if no offset in it decreases or leaves the source, every visit that is
entered because of the line ahead passes the end of the line it begins on, and no construct has more
rounds than lines.
-/

namespace GherkinTree

/-- What the reader may be at. -/
inductive Construct where
  | document
  | feature
  | rule
  | background
  | scenario
  | examples
  | header
  | tags
  | description
  | step
  | table
  | docString
  | tagLine
  | textLine
  | row
  | skipLine
  /-- A round of a loop of the construct around it. -/
  | round
  deriving DecidableEq, Repr

/-- Whether a visit has to pass a line: the constructs that the reader enters because of the line
ahead of it. -/
def Construct.passes : Construct → Bool
  | document | feature | tags | description => false
  | _ => true

/-- A call of a function or a round of a loop: the offsets at which it begins and ends, and the
visits that it makes in turn. -/
inductive Visit where
  | mk (construct : Construct) (start stop : Nat) (inner : List Visit)

namespace Visit

def start : Visit → Nat
  | mk _ start _ _ => start

def stop : Visit → Nat
  | mk _ _ stop _ => stop

def isRound : Visit → Bool
  | mk k _ _ _ => k == .round

/-- Visits one after the other, from an offset to another. -/
def InOrder (o : Nat) : List Visit → Nat → Prop
  | [], o' => o ≤ o'
  | v :: vs, o' => o ≤ v.start ∧ InOrder v.stop vs o'

/-- A visit goes on, and so do all visits in it: offsets do not decrease and stay in the source, a
line is passed where one has to be, and there are no more rounds than lines to end. -/
inductive Forward (source : Text) : Visit → Prop where
  | mk {k : Construct} {start stop : Nat} {vs : List Visit}
      (le : start ≤ stop) (bound : stop ≤ Text.width source)
      (passes : k.passes = true → PassesLine source start stop)
      (order : InOrder start vs stop)
      (rounds : vs.countP isRound + SourceLine.behind source stop ≤ SourceLine.behind source start)
      (inner : ∀ v ∈ vs, Forward source v) : Forward source (.mk k start stop vs)

section Grammar

variable (d : Dialect)

/-- A call for the line ahead of `c`, which ends at `next`. -/
def call (k : Construct) (c next : Cursor) : List Visit :=
  match d.peek? c with
  | none => []
  | some a => [.mk k a.cursor.offset next.offset []]

/-- The rounds of a loop; `inner` are the visits of a round between two cursors. -/
def rounds {α : Type} (step : Cursor → Option (List α × Cursor))
    (inner : Cursor → Cursor → List Visit) (c : Cursor) : List Visit :=
  match step c with
  | none => []
  | some (_, next) =>
    .mk .round c.offset next.offset (inner c next) ::
      if next.lines.length < c.lines.length then rounds step inner next else []
termination_by c.lines.length

def tags (c : Cursor) : Visit :=
  .mk .tags c.offset (Grammar.tags d c).2.offset
    (rounds (Grammar.tagLine? d) (call d .tagLine) c)

def description (c : Cursor) : Visit :=
  .mk .description c.offset (Grammar.description d c).2.offset
    (rounds (Grammar.textLine? d) (call d .textLine) c)

def header (role : Role) (c : Cursor) : Visit :=
  let titled := (Grammar.title d role (Grammar.tags d c).2).2
  .mk .header c.offset (Grammar.header d role c).2.offset [tags d c, description d titled]

def table (outline : Bool) (c : Cursor) : Visit :=
  .mk .table c.offset (Grammar.table d outline c).2.offset
    (rounds (Grammar.row? d outline) (call d .row) c)

/-- The table or the doc string below a step. -/
def argument (outline : Bool) (c : Cursor) : List Visit :=
  match d.peek? c with
  | none => []
  | some a =>
    match a.kind with
    | .tableRow => [table d outline a.cursor]
    | .docString f => [.mk .docString a.cursor.offset (f.docString outline a).2.offset []]
    | _ => []

def step (outline : Bool) (m : KeywordMatch) (a : Ahead) : Visit :=
  .mk .step a.cursor.offset (Grammar.step d outline m a).2.offset
    (argument d outline (Grammar.stepLine outline m a).2.2)

def stepRound (outline : Bool) (c next : Cursor) : List Visit :=
  match d.peek? c with
  | none => []
  | some a =>
    match a.kind with
    | .keyword m => [step d outline m a]
    | _ => [.mk .skipLine a.cursor.offset next.offset []]

def background (c : Cursor) : Visit :=
  .mk .background c.offset (Grammar.background d c).2.offset
    (header d .background c ::
      rounds (Grammar.stepOrSkip? d false) (stepRound d false)
        (Grammar.header d .background c).2)

/-- The table below the header of an examples section. -/
def table? (c : Cursor) : List Visit :=
  match d.peek? c with
  | some ⟨c, _, .tableRow⟩ => [table d false c]
  | _ => []

def examples (c : Cursor) : Visit :=
  .mk .examples c.offset (Grammar.examples d c).2.offset
    (header d .examples c :: table? d (Grammar.header d .examples c).2)

def examplesRound (c next : Cursor) : List Visit :=
  match d.peek? c with
  | none => []
  | some a =>
    match (Grammar.roleAhead d a).1 with
    | some .examples => [examples d a.cursor]
    | _ => [.mk .skipLine a.cursor.offset next.offset []]

def scenario (c : Cursor) : Visit :=
  let (h, titled) := Grammar.header d .scenario c
  let outline := h.keyword.kind == .scenarioOutlineKeyword || d.hasExamples none titled.lines
  .mk .scenario c.offset (Grammar.scenario d c).2.offset
    (header d .scenario c ::
      (rounds (Grammar.stepOrSkip? d outline) (stepRound d outline) titled ++
        rounds (Grammar.examplesOrSkip? d) (examplesRound d) (Grammar.steps d outline titled).2))

/-- The round that reads the background of a body. -/
def backgroundRound (c : Cursor) : List Visit :=
  match d.peek? c with
  | none => []
  | some a =>
    match Grammar.roleAhead d a with
    | (some .background, false) =>
      [.mk .round c.offset (Grammar.background d a.cursor).2.offset [background d a.cursor]]
    | _ => []

def scenarioRound (c next : Cursor) : List Visit :=
  match d.peek? c with
  | none => []
  | some a =>
    match (Grammar.roleAhead d a).1 with
    | some .scenario | some .scenarioOutline => [scenario d a.cursor]
    | _ => [.mk .skipLine a.cursor.offset next.offset []]

/-- The rounds that read the body of a feature or of a rule. -/
def body (c : Cursor) : List Visit :=
  let skipped := (c.collect (Grammar.skipToSection? d)).2
  rounds (Grammar.skipToSection? d) (call d .skipLine) c ++ backgroundRound d skipped ++
    rounds (Grammar.scenarioOrSkip? d) (scenarioRound d) (Grammar.background? d skipped).2

def rule (c : Cursor) : Visit :=
  .mk .rule c.offset (Grammar.rule d c).2.offset
    (header d .rule c :: body d (Grammar.header d .rule c).2)

def ruleRound (c next : Cursor) : List Visit :=
  match d.peek? c with
  | none => []
  | some a =>
    match (Grammar.roleAhead d a).1 with
    | some .rule => [rule d a.cursor]
    | _ => [.mk .skipLine a.cursor.offset next.offset []]

/-- The name and the description of a feature without a feature line. -/
def impliedHeader (c : Cursor) : List Visit :=
  match Grammar.textLine? d (Grammar.implied c) with
  | none => [description d (Grammar.implied c)]
  | some (_, named) => call d .textLine (Grammar.implied c) named ++ [description d named]

def featureHeader (c : Cursor) : List Visit :=
  match d.peek? c with
  | none => impliedHeader d c
  | some a =>
    match (Grammar.roleAhead d a).1 with
    | some .feature => [header d .feature a.cursor]
    | _ => impliedHeader d c

def feature (c : Cursor) : Visit :=
  let titled := (Grammar.featureHeader d c).2
  .mk .feature c.offset (Grammar.feature d c).2.offset
    (featureHeader d c ++ body d titled ++
      rounds (Grammar.ruleOrSkip? d) (ruleRound d) (Grammar.body d titled).2.2)

/-- The feature of a document that holds anything but trivia. -/
def feature? (c : Cursor) : List Visit :=
  match d.peek? c with
  | none => []
  | some a => [feature d a.cursor]

/-- The visits of the reader to a source. -/
def parse (source : Text) : Visit :=
  let preamble := Preamble.read d 0 (Line.split source)
  .mk .document 0 (Grammar.document preamble.dialect preamble.cursor).2.offset
    (feature? preamble.dialect preamble.cursor)

end Grammar

end Visit

end GherkinTree
