import GherkinTree.Role

/-!
Kinds of tokens and nodes. A keyword token has one kind for each role, so a tree tells what a
keyword does without knowing the language it is written in.
-/

namespace GherkinTree

inductive Kind where
  | featureKeyword
  | backgroundKeyword
  | ruleKeyword
  | scenarioKeyword
  | scenarioOutlineKeyword
  | examplesKeyword
  | givenKeyword
  | whenKeyword
  | thenKeyword
  | andKeyword
  | butKeyword
  | wildcardKeyword
  | colonToken
  | tagToken
  | literalToken
  | tableLiteralToken
  | verticalBarToken
  | docStringDelimiterToken
  | docStringContentTypeToken
  | docStringContentToken
  | lessThanToken
  | identifierToken
  | greaterThanToken
  | endOfFileToken
  | document
  | feature
  | tags
  | background
  | rule
  | scenario
  | examples
  | step
  | table
  | tableRow
  | tableCell
  | docString
  | docStringContentType
  | description
  | literalText
  | interpolatedText
  | interpolation
  deriving DecidableEq, Repr

namespace Kind

/-- The kinds of leaves. -/
def tokens : List Kind :=
  [featureKeyword, backgroundKeyword, ruleKeyword, scenarioKeyword, scenarioOutlineKeyword,
    examplesKeyword, givenKeyword, whenKeyword, thenKeyword, andKeyword, butKeyword,
    wildcardKeyword, colonToken, tagToken, literalToken, tableLiteralToken, verticalBarToken,
    docStringDelimiterToken, docStringContentTypeToken, docStringContentToken, lessThanToken,
    identifierToken, greaterThanToken, endOfFileToken]

/-- The kinds of inner nodes. -/
def nodes : List Kind :=
  [document, feature, tags, background, rule, scenario, examples, step, table, tableRow,
    tableCell, docString, docStringContentType, description, literalText, interpolatedText,
    interpolation]

def all : List Kind := tokens ++ nodes

def isToken (k : Kind) : Bool := tokens.contains k

def isNode (k : Kind) : Bool := !k.isToken

def name : Kind → String
  | featureKeyword => "FeatureKeyword"
  | backgroundKeyword => "BackgroundKeyword"
  | ruleKeyword => "RuleKeyword"
  | scenarioKeyword => "ScenarioKeyword"
  | scenarioOutlineKeyword => "ScenarioOutlineKeyword"
  | examplesKeyword => "ExamplesKeyword"
  | givenKeyword => "GivenKeyword"
  | whenKeyword => "WhenKeyword"
  | thenKeyword => "ThenKeyword"
  | andKeyword => "AndKeyword"
  | butKeyword => "ButKeyword"
  | wildcardKeyword => "WildcardKeyword"
  | colonToken => "ColonToken"
  | tagToken => "TagToken"
  | literalToken => "LiteralToken"
  | tableLiteralToken => "TableLiteralToken"
  | verticalBarToken => "VerticalBarToken"
  | docStringDelimiterToken => "DocStringDelimiterToken"
  | docStringContentTypeToken => "DocStringContentTypeToken"
  | docStringContentToken => "DocStringContentToken"
  | lessThanToken => "LessThanToken"
  | identifierToken => "IdentifierToken"
  | greaterThanToken => "GreaterThanToken"
  | endOfFileToken => "EndOfFileToken"
  | document => "Document"
  | feature => "Feature"
  | tags => "Tags"
  | background => "Background"
  | rule => "Rule"
  | scenario => "Scenario"
  | examples => "Examples"
  | step => "Step"
  | table => "Table"
  | tableRow => "TableRow"
  | tableCell => "TableCell"
  | docString => "DocString"
  | docStringContentType => "DocStringContentType"
  | description => "Description"
  | literalText => "LiteralText"
  | interpolatedText => "InterpolatedText"
  | interpolation => "Interpolation"

def ofName? (s : String) : Option Kind := all.find? (·.name == s)

/-- The kind of the keywords of a role. -/
def ofRole : Role → Kind
  | .feature => featureKeyword
  | .rule => ruleKeyword
  | .background => backgroundKeyword
  | .scenarioOutline => scenarioOutlineKeyword
  | .scenario => scenarioKeyword
  | .examples => examplesKeyword
  | .givenStep => givenKeyword
  | .whenStep => whenKeyword
  | .thenStep => thenKeyword
  | .andStep => andKeyword
  | .butStep => butKeyword
  | .wildcard => wildcardKeyword

/-- The role of a keyword kind. -/
def role? : Kind → Option Role
  | featureKeyword => some .feature
  | ruleKeyword => some .rule
  | backgroundKeyword => some .background
  | scenarioOutlineKeyword => some .scenarioOutline
  | scenarioKeyword => some .scenario
  | examplesKeyword => some .examples
  | givenKeyword => some .givenStep
  | whenKeyword => some .whenStep
  | thenKeyword => some .thenStep
  | andKeyword => some .andStep
  | butKeyword => some .butStep
  | wildcardKeyword => some .wildcard
  | _ => none

@[simp] theorem role?_ofRole (r : Role) : (ofRole r).role? = some r := by cases r <;> rfl

def isKeyword (k : Kind) : Bool := k.role?.isSome

def isStepKeyword (k : Kind) : Bool := k.role?.any Role.isStep

/-- Whether tokens of the kind hold text whose value may differ from how it is written. -/
def isLiteral : Kind → Bool
  | literalToken | tableLiteralToken | docStringContentToken => true
  | _ => false

/-- What a reader of a report calls the kind. -/
def describe : Kind → String
  | featureKeyword => "`Feature` keyword"
  | backgroundKeyword => "`Background` keyword"
  | ruleKeyword => "`Rule` keyword"
  | scenarioKeyword => "`Scenario` keyword"
  | scenarioOutlineKeyword => "`Scenario Outline` keyword"
  | examplesKeyword => "`Examples` keyword"
  | givenKeyword | whenKeyword | thenKeyword | andKeyword | butKeyword | wildcardKeyword =>
    "step keyword"
  | colonToken => "`:`"
  | tagToken => "tag"
  | literalToken | literalText | interpolatedText => "text"
  | tableLiteralToken | tableCell => "table cell"
  | verticalBarToken => "`|`"
  | docStringDelimiterToken => "doc string delimiter"
  | docStringContentTypeToken | docStringContentType => "doc string content type"
  | docStringContentToken => "doc string content"
  | lessThanToken => "`<`"
  | identifierToken => "placeholder name"
  | greaterThanToken => "`>`"
  | endOfFileToken => "end of file"
  | document => "document"
  | feature => "feature"
  | tags => "tags"
  | background => "background"
  | rule => "rule"
  | scenario => "scenario"
  | examples => "examples"
  | step => "step"
  | table => "table"
  | tableRow => "table row"
  | docString => "doc string"
  | description => "description"
  | interpolation => "placeholder"

end Kind

end GherkinTree
