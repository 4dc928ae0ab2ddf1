import GherkinTree.Dialect
import GherkinTree.Trivia

/-!
Lines and what their first characters make of them. A line ends at a line feed, with a carriage
return directly in front of it, or at the end of the text; the lines of a text, each with its
line break, make up the text. Two fences open and close doc strings; inside the content, each of the
three marks of a fence takes a backslash.
-/

namespace GherkinTree

/-- The marks of a doc string: three double quotes or three backticks. -/
inductive Fence where
  | quotes
  | backticks
  deriving DecidableEq, Repr

namespace Fence

def all : List Fence := [quotes, backticks]

def name : Fence → String
  | quotes => "Quotes"
  | backticks => "Backticks"

def ofName? (s : String) : Option Fence := all.find? (·.name == s)

/-- The character that a fence repeats. -/
def mark : Fence → Char
  | quotes => '\x22'
  | backticks => '\x60'

/-- The fence as written. -/
def text (f : Fence) : Text := [f.mark, f.mark, f.mark]

/-- The fence as written inside the content it delimits. -/
def escaped (f : Fence) : Text := ['\\', f.mark, '\\', f.mark, '\\', f.mark]

/-- The fence at the start of a text. -/
def atStart? (t : Text) : Option Fence := all.find? fun f => Text.startsWith f.text t

/-- The content that an escaped text stands for. -/
def unescape (f : Fence) (raw : Text) : Text := Text.replace f.escaped f.text raw

/-- The content written so that it does not close its own doc string. -/
def escape (f : Fence) (value : Text) : Text := Text.replace f.text f.escaped value

/-- Whether a line closes a doc string of the fence. -/
def closes (f : Fence) (line : Text) : Bool := Text.trim line == f.text

end Fence

/-- A line and the line break that ends it, empty at the end of the text. -/
structure Line where
  content : Text
  ending : Text
  deriving DecidableEq, Repr

namespace Line

/-- The content and the line break. -/
def full (l : Line) : Text := l.content ++ l.ending

def width (l : Line) : Nat := Text.width l.full

/-- The lines of a text. Nothing follows the last line break of a text that ends with one. -/
def split : Text → List Line
  | [] => []
  | '\n' :: t => ⟨[], ['\n']⟩ :: split t
  | '\r' :: '\n' :: t => ⟨[], ['\r', '\n']⟩ :: split t
  | c :: t =>
    match split t with
    | [] => [⟨[c], []⟩]
    | l :: ls => ⟨c :: l.content, l.ending⟩ :: ls

/-- The text that lines make up. -/
def join (ls : List Line) : Text := ls.flatMap full

@[simp] theorem join_nil : join [] = [] := rfl
@[simp] theorem join_cons (l : Line) (ls : List Line) : join (l :: ls) = l.full ++ join ls := rfl

theorem join_split (t : Text) : join (split t) = t := by
  fun_induction split t <;> simp_all [full]

/-- Whether a line without the blanks at its start is blank or a comment. -/
def isTrivial (body : Text) : Bool := body.head?.all (· == '#')

end Line

/-- What a line is, judged by its first characters. -/
inductive LineKind where
  | tags
  | tableRow
  | docString (fence : Fence)
  | keyword (found : KeywordMatch)
  | text
  deriving DecidableEq, Repr

namespace LineKind

def role? : LineKind → Option Role
  | keyword m => some m.role
  | _ => none

/-- What a reader of a report calls the line. -/
def describe : LineKind → String
  | tags => "tags"
  | tableRow => "table row"
  | docString _ => "doc string"
  | text => "text"
  | keyword m =>
    if m.role.isStep then "step" else "`" ++ m.role.name ++ "` line"

end LineKind

namespace Dialect

/-- The kind of a line, given without the blanks at its start. -/
def classify (d : Dialect) (body : Text) : LineKind :=
  match body with
  | '@' :: _ => .tags
  | '|' :: _ => .tableRow
  | _ =>
    match Fence.atStart? body with
    | some f => .docString f
    | none =>
      match d.matchAny body with
      | some m => .keyword m
      | none => .text

/-- The kind of the first line that is neither blank nor a comment nor tags. -/
def kindAfterTags? (d : Dialect) : List Line → Option LineKind
  | [] => none
  | l :: ls =>
    let body := Text.trimStart l.content
    if Line.isTrivial body then kindAfterTags? d ls
    else
      match d.classify body with
      | .tags => kindAfterTags? d ls
      | k => some k

/-- Whether an examples line comes before the next line that opens another section. A line that
begins with a fence hides all lines up to the one that closes it; `fence` is the open one. -/
def hasExamples (d : Dialect) (fence : Option Fence) : List Line → Bool
  | [] => false
  | l :: ls =>
    match fence with
    | some f => hasExamples d (if f.closes l.content then none else some f) ls
    | none =>
      let body := Text.trim l.content
      if Line.isTrivial body then hasExamples d none ls
      else
        match d.classify body with
        | .docString f => hasExamples d (some f) ls
        | .keyword m =>
          if m.role = .examples then true
          else if m.role.isStructural then false
          else hasExamples d none ls
        | _ => hasExamples d none ls

end Dialect

end GherkinTree
