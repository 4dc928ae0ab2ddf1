import GherkinTree.Cell
import GherkinTree.Line
import GherkinTree.Tree.Shape

/-!
Trees built by hand. Each builder checks that its parts are of the kinds that the grammar allows in
their places, in the order in which it names them, and gives the first fault it finds.
-/

namespace GherkinTree

/-- Why parts do not fit together. -/
inductive ShapeError where
  | notTokenKind (kind : Kind)
  | noValue (kind : Kind)
  | unexpectedKind (expected found : Kind)
  | notText (found : Kind)
  | notSectionKeyword (found : Kind)
  | taggedBackground
  | noTags
  | noDescriptionLines
  | notStepKeyword (found : Kind)
  | notStepArgument (found : Kind)
  | noRows
  | notCellContent (found : Kind)
  | noTextTokens
  | notLiteral (found : Kind)
  | noTextParts
  | notTextPart (found : Kind)
  deriving DecidableEq, Repr

def ShapeError.message : ShapeError → String
  | notTokenKind k => k.name ++ " is not a token kind"
  | noValue k => k.name ++ " does not carry a value"
  | unexpectedKind expected found => "expected " ++ expected.name ++ ", found " ++ found.name
  | notText found => "expected text, found " ++ found.name
  | notSectionKeyword found => "unexpected section keyword " ++ found.name
  | taggedBackground => "backgrounds cannot be tagged"
  | noTags => "tags node needs at least one tag"
  | noDescriptionLines => "description needs at least one line"
  | notStepKeyword found => found.name ++ " is not a step keyword"
  | notStepArgument found => found.name ++ " is not a step argument"
  | noRows => "table needs at least one row"
  | notCellContent found => found.name ++ " cannot fill a table cell"
  | noTextTokens => "text needs at least one token"
  | notLiteral found => found.name ++ " is not literal"
  | noTextParts => "text needs at least one part"
  | notTextPart found => found.name ++ " cannot appear in text"

namespace Build

/-- Fails with an error unless a condition holds. -/
def require (condition : Bool) (e : ShapeError) : Except ShapeError Unit :=
  if condition then .ok () else .error e

/-- Checks every item in order. -/
def checkAll {α : Type} (check : α → Except ShapeError Unit) : List α → Except ShapeError Unit
  | [] => .ok ()
  | a :: as => do
    check a
    checkAll check as

def requireKind (expected found : Kind) : Except ShapeError Unit :=
  require (found == expected) (.unexpectedKind expected found)

def requireToken (expected : Kind) (t : Token) : Except ShapeError Unit :=
  requireKind expected t.kind

def requireNode (expected : Kind) (n : Node) : Except ShapeError Unit :=
  requireKind expected n.kind

def requireOptional (expected : Kind) (n : Option Node) : Except ShapeError Unit :=
  checkAll (requireNode expected) n.toList

def requireText (n : Node) : Except ShapeError Unit :=
  require (n.kind == .literalText || n.kind == .interpolatedText) (.notText n.kind)

def token (kind : Kind) (text : Text) (leading trailing : List Trivia) :
    Except ShapeError Token := do
  require kind.isToken (.notTokenKind kind)
  return .plain kind text leading trailing

/-- A token with a value; only literal kinds have values of their own. -/
def literal (kind : Kind) (text value : Text) (leading trailing : List Trivia) :
    Except ShapeError Token := do
  require kind.isLiteral (.noValue kind)
  require kind.isToken (.notTokenKind kind)
  return .literal kind text value leading trailing

/-- The cell content that stands for a value. -/
def tableLiteral (value : Text) : Except ShapeError Token :=
  literal .tableLiteralToken (Cell.escape value) value [] []

/-- The doc string content that stands for a value between the fences. -/
def docStringLiteral (value : Text) (f : Fence) : Except ShapeError Token :=
  literal .docStringContentToken (f.escape value) value [] []

def missing (kind : Kind) (leading trailing : List Trivia) : Except ShapeError Token := do
  require kind.isToken (.notTokenKind kind)
  return .absent kind leading trailing

/-- Checks a header whose keyword has to be of one of the kinds. -/
def checkHeader (keywords : List Kind) (h : Header) : Except ShapeError Unit := do
  requireOptional .tags h.tags
  require (keywords.contains h.keyword.kind) (.notSectionKeyword h.keyword.kind)
  requireToken .colonToken h.colon
  requireOptional .literalText h.name
  requireOptional .description h.description

def document (feature : Option Node) (eof : Token) : Except ShapeError Node := do
  requireOptional .feature feature
  requireToken .endOfFileToken eof
  return .ofDocument feature eof

def feature (h : Header) (background : Option Node) (scenarios rules : List Node) :
    Except ShapeError Node := do
  requireOptional .background background
  checkHeader [.featureKeyword] h
  checkAll (requireNode .scenario) scenarios
  checkAll (requireNode .rule) rules
  return .ofFeature h background scenarios rules

def rule (h : Header) (background : Option Node) (scenarios : List Node) :
    Except ShapeError Node := do
  requireOptional .background background
  checkHeader [.ruleKeyword] h
  checkAll (requireNode .scenario) scenarios
  return .ofRule h background scenarios

/-- A background carries no tags. -/
def background (h : Header) (steps : List Node) : Except ShapeError Node := do
  require h.tags.isNone .taggedBackground
  checkHeader [.backgroundKeyword] h
  checkAll (requireNode .step) steps
  return .ofBackground h steps

def scenario (h : Header) (steps examples : List Node) : Except ShapeError Node := do
  checkHeader [.scenarioKeyword, .scenarioOutlineKeyword] h
  checkAll (requireNode .step) steps
  checkAll (requireNode .examples) examples
  return .ofScenario h steps examples

def examples (h : Header) (table : Option Node) : Except ShapeError Node := do
  requireOptional .table table
  checkHeader [.examplesKeyword] h
  return .ofExamples h table

def tags (tags : List Token) : Except ShapeError Node := do
  require (!tags.isEmpty) .noTags
  checkAll (requireToken .tagToken) tags
  return .ofTags tags

def description (lines : List Token) : Except ShapeError Node := do
  require (!lines.isEmpty) .noDescriptionLines
  checkAll (requireToken .literalToken) lines
  return .ofDescription lines

def step (keyword : Token) (text : Node) (argument : Option Node) : Except ShapeError Node := do
  require keyword.kind.isStepKeyword (.notStepKeyword keyword.kind)
  requireText text
  checkAll (fun a => require (a.kind == .table || a.kind == .docString) (.notStepArgument a.kind))
    argument.toList
  return .ofStep keyword text argument

def table (rows : List Node) : Except ShapeError Node := do
  require (!rows.isEmpty) .noRows
  checkAll (requireNode .tableRow) rows
  return .ofTable rows

def row (bar : Token) (cells : List (Node × Token)) : Except ShapeError Node := do
  requireToken .verticalBarToken bar
  checkAll (fun c => do requireNode .tableCell c.1; requireToken .verticalBarToken c.2) cells
  return .ofRow bar cells

def cell (content : Element) : Except ShapeError Node := do
  require (content.kind == .tableLiteralToken || content.kind == .interpolatedText)
    (.notCellContent content.kind)
  return .ofCell content

def docString (first : Token) (contentType content : Option Node) (last : Token) :
    Except ShapeError Node := do
  requireToken .docStringDelimiterToken first
  requireOptional .docStringContentType contentType
  checkAll requireText content.toList
  requireToken .docStringDelimiterToken last
  return .ofDocString first contentType content last

def contentType (t : Token) : Except ShapeError Node := do
  requireToken .docStringContentTypeToken t
  return .ofContentType t

def literals (tokens : List Token) : Except ShapeError Node := do
  require (!tokens.isEmpty) .noTextTokens
  checkAll (fun t => require t.kind.isLiteral (.notLiteral t.kind)) tokens
  return .ofLiterals tokens

def parts (parts : List Element) : Except ShapeError Node := do
  require (!parts.isEmpty) .noTextParts
  checkAll (fun p => require (p.kind.isLiteral || p.kind == .interpolation) (.notTextPart p.kind))
    parts
  return .ofParts parts

def placeholder (less name greater : Token) : Except ShapeError Node := do
  requireToken .lessThanToken less
  requireToken .identifierToken name
  requireToken .greaterThanToken greater
  return .ofPlaceholder less name greater

end Build

end GherkinTree
