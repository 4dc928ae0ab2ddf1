import GherkinTree.Kind
import GherkinTree.Source

/-!
Diagnostics tell what is wrong with a document and where. A document always has a tree, so a
diagnostic is a remark on the tree and never takes its place.
-/

namespace GherkinTree

inductive Severity where
  | error
  | warning
  deriving DecidableEq, Repr

namespace Severity

def name : Severity → String
  | error => "error"
  | warning => "warning"

/-- The name as written in the debugging form. -/
def label : Severity → String
  | error => "Error"
  | warning => "Warning"

end Severity

/-- What is wrong. -/
inductive Problem where
  | missingToken (expected : Kind)
  | unexpectedContent (found : String)
  | unknownLanguage (code : String)
  deriving DecidableEq, Repr

namespace Problem

/-- The stable code of a problem. -/
def code : Problem → String
  | missingToken _ => "GHK1001"
  | unexpectedContent _ => "GHK1002"
  | unknownLanguage _ => "GHK1003"

/-- A directive with an unknown language is ignored, which does no harm to the tree. -/
def severity : Problem → Severity
  | unknownLanguage _ => .warning
  | _ => .error

def message : Problem → String
  | missingToken k => "expected " ++ k.describe
  | unexpectedContent found => "unexpected " ++ found
  | unknownLanguage code => "unknown language `" ++ code ++ "`, keeping the current dialect"

end Problem

structure Diagnostic where
  span : Span
  problem : Problem
  deriving DecidableEq

namespace Diagnostic

def missingToken (offset : Nat) (expected : Kind) : Diagnostic :=
  ⟨Span.empty offset, .missingToken expected⟩

def unexpectedContent (span : Span) (found : String) : Diagnostic :=
  ⟨span, .unexpectedContent found⟩

def unknownLanguage (span : Span) (code : String) : Diagnostic := ⟨span, .unknownLanguage code⟩

def severity (d : Diagnostic) : Severity := d.problem.severity

def isError (d : Diagnostic) : Bool := d.severity == .error

def message (d : Diagnostic) : String := d.problem.message

def render (d : Diagnostic) : String :=
  d.severity.name ++ "[" ++ d.problem.code ++ "]: " ++ d.message ++ " at " ++ d.span.render

/-- Diagnostics in the order of their spans; equal spans keep their order. -/
def sortByPosition (ds : List Diagnostic) : List Diagnostic :=
  ds.mergeSort fun a b => a.span.le b.span

end Diagnostic

end GherkinTree
