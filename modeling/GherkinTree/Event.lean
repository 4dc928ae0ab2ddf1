import GherkinTree.Diagnostic

/-!
What happens while a document is read, in the order in which it happens. Some events are
diagnostics of the document; all of them leave a record in the log.
-/

namespace GherkinTree

inductive LogLevel where
  | trace
  | debug
  | info
  | warn
  | error
  deriving DecidableEq, Repr

def LogLevel.name : LogLevel → String
  | trace => "TRACE"
  | debug => "DEBUG"
  | info => "INFO"
  | warn => "WARN"
  | error => "ERROR"

structure LogRecord where
  level : LogLevel
  message : String
  deriving DecidableEq, Repr

inductive Event where
  /-- A required token is lacking. -/
  | missing (offset : Nat) (kind : Kind)
  /-- A line fits nowhere. -/
  | skippedLine (span : Span) (found : String)
  /-- Text follows the tags of a line. -/
  | skippedAfterTags (span : Span)
  /-- A directive names a known language. -/
  | selected (code : String)
  /-- A directive names an unknown language, and the dialect `kept` stays in effect. -/
  | unknownLanguage (span : Span) (code kept : String)
  deriving DecidableEq

namespace Event

def diagnostic? : Event → Option Diagnostic
  | missing offset kind => some (.missingToken offset kind)
  | skippedLine span found => some (.unexpectedContent span found)
  | skippedAfterTags span => some (.unexpectedContent span "text after tags")
  | selected _ => none
  | unknownLanguage span code _ => some (.unknownLanguage span code)

def record : Event → LogRecord
  | missing offset kind =>
    ⟨.trace, "inserting missing " ++ kind.name ++ " at " ++ toString offset⟩
  | skippedLine span found => ⟨.debug, "skipping unexpected " ++ found ++ " at " ++ span.render⟩
  | skippedAfterTags span => ⟨.debug, "skipping text after tags at " ++ span.render⟩
  | selected code => ⟨.debug, "language directive selects dialect " ++ code⟩
  | unknownLanguage _ code kept =>
    ⟨.warn, "unknown language: " ++ code ++ "; keeping dialect " ++ kept ++
      " for the rest of the document"⟩

/-- The diagnostics among the events, in the order of their spans. -/
def diagnostics (es : List Event) : List Diagnostic :=
  Diagnostic.sortByPosition (es.filterMap diagnostic?)

end Event

end GherkinTree
