import GherkinTree.Text

/-!
Trivia is the text between tokens: blanks, line breaks, comments, language directives, and lines
that fit nowhere in the grammar.
-/

namespace GherkinTree

inductive TriviaKind where
  | whitespace
  | newline
  | comment
  | languageDirective
  | skippedText
  deriving DecidableEq, Repr

namespace TriviaKind

def all : List TriviaKind := [whitespace, newline, comment, languageDirective, skippedText]

def name : TriviaKind → String
  | whitespace => "Whitespace"
  | newline => "Newline"
  | comment => "Comment"
  | languageDirective => "LanguageDirective"
  | skippedText => "SkippedText"

def ofName? (s : String) : Option TriviaKind := all.find? (·.name == s)

end TriviaKind

/-- The language code that a comment of the form `# language: code` names. Blanks may stand
around each part, and the code ends at the next blank. -/
def languageCode? (comment : Text) : Option Text := do
  let t ← Text.after? ['#'] comment
  let t ← Text.after? "language".toList (Text.trimStart t)
  let t ← Text.after? [':'] (Text.trimStart t)
  let code := (Text.trimStart t).takeWhile (!Text.isBlank ·)
  if code.isEmpty then none else some code

/-- One piece of trivia. -/
structure Trivia where
  kind : TriviaKind
  text : Text
  deriving DecidableEq, Repr

namespace Trivia

/-- The piece of a kind, if there is any text for it. -/
def piece (kind : TriviaKind) (text : Text) : List Trivia :=
  if text.isEmpty then [] else [⟨kind, text⟩]

def width (t : Trivia) : Nat := Text.width t.text

def isComment (t : Trivia) : Bool := t.kind == .comment || t.kind == .languageDirective

/-- The language code of a directive. -/
def language? (t : Trivia) : Option Text :=
  if t.kind = .languageDirective then languageCode? t.text else none

/-- The text of a run of pieces. -/
def render (ts : List Trivia) : Text := ts.flatMap (·.text)

@[simp] theorem render_nil : render [] = [] := rfl
@[simp] theorem render_append (a b : List Trivia) : render (a ++ b) = render a ++ render b :=
  List.flatMap_append

@[simp] theorem render_piece (k : TriviaKind) (t : Text) : render (piece k t) = t := by
  cases t <;> simp [piece, render]

/-- The width of a run of pieces. -/
def widthOf : List Trivia → Nat
  | [] => 0
  | t :: ts => t.width + widthOf ts

@[simp] theorem widthOf_nil : widthOf [] = 0 := rfl
@[simp] theorem widthOf_cons (t : Trivia) (ts : List Trivia) :
    widthOf (t :: ts) = t.width + widthOf ts := rfl

@[simp] theorem width_render (ts : List Trivia) : Text.width (render ts) = widthOf ts := by
  induction ts with
  | nil => rfl
  | cons t ts ih => simpa [render, width] using ih

theorem widthOf_piece (k : TriviaKind) (t : Text) : widthOf (piece k t) = Text.width t := by
  rw [← width_render, render_piece]

/-- The blanks and the line break that end a line. -/
def lineEnd (blanks ending : Text) : List Trivia := piece .whitespace blanks ++ piece .newline ending

@[simp] theorem render_lineEnd (blanks ending : Text) :
    render (lineEnd blanks ending) = blanks ++ ending := by simp [lineEnd]

end Trivia

end GherkinTree
