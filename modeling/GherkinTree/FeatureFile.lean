import GherkinTree.Grammar.Document
import GherkinTree.Json
import GherkinTree.Options
import GherkinTree.Source
import GherkinTree.Text.Utf8
import GherkinTree.Tree.Debug
import GherkinTree.View.Section

/-!
Feature files: the source, its tree and what there is to say about it. Every source has a tree, and
the text of the tree is the source; only bytes that are no text have none.
-/

namespace GherkinTree

structure FeatureFile where
  source : Source
  tree : Node
  /-- What is wrong with the document, in the order of positions. -/
  diagnostics : List Diagnostic
  options : Options
  /-- The dialect that the document is written in. -/
  dialect : Dialect
  /-- What happened while the document was read. -/
  log : List LogRecord

namespace FeatureFile

/-- Reads a document. -/
def parse (o : Options) (text : Text) : FeatureFile :=
  let parsed := GherkinTree.parse o.dialect text
  let diagnostics := Event.diagnostics parsed.events
  { source := ⟨text⟩
    tree := parsed.root
    diagnostics
    options := o
    dialect := parsed.dialect
    log :=
      (o.path.toList.map fun p => ⟨.debug, "parsing " ++ p.text⟩) ++
        ⟨.debug, "parsing " ++ toString (Text.width text) ++ " bytes with dialect " ++
          o.dialect.code⟩ ::
        parsed.events.map Event.record ++
        [⟨.debug, "parsed document with " ++ toString diagnostics.length ++ " diagnostics"⟩] }

/-- Why bytes cannot be read as a document. -/
inductive ReadError where
  | invalidUtf8 (cause : Utf8.DecodeError)
  deriving DecidableEq, Repr

def ReadError.message : ReadError → String
  | invalidUtf8 cause => "feature source is not valid UTF-8: " ++ cause.message

/-- Reads a document from its bytes. -/
def parseBytes (o : Options) (bytes : List UInt8) : Except ReadError FeatureFile :=
  match Utf8.decode bytes with
  | .ok text => .ok (parse o text)
  | .error e => .error (.invalidUtf8 e)

/-- The tree with positions. -/
def root (f : FeatureFile) : PlacedNode := .root f.tree

/-- The root as a document. -/
def document? (f : FeatureFile) : Option DocumentView := View.cast? .document f.root

def hasErrors (f : FeatureFile) : Bool := f.diagnostics.any Diagnostic.isError

/-- The diagnostics within the text of a node. -/
def diagnosticsIn (f : FeatureFile) (n : PlacedNode) : List Diagnostic :=
  let span := n.span
  f.diagnostics.filter fun d => span.containsSpan d.span

/-- The lines and columns of a span. -/
def location (f : FeatureFile) (s : Span) : LinePosition × LinePosition := f.source.positions s

/-- The debugging form: the path, the dialect and the diagnostics. -/
def debug (f : FeatureFile) : Text :=
  let path : Text :=
    match f.options.path with
    | none => "None".toList
    | some p => "Some(".toList ++ Quoted.text p.text.toList ++ [')']
  "SyntaxTree \x7b path: ".toList ++ path ++
    ", dialect: ".toList ++ Quoted.text f.dialect.code.toList ++
    ", diagnostics: ".toList ++ debugList (f.diagnostics.map Diagnostic.debug) ++ ", .. \x7d".toList

end FeatureFile

end GherkinTree
