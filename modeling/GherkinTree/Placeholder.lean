import GherkinTree.Text

/-!
Placeholders in the text of an outline. A placeholder is a name between angle brackets; the name
is not empty and holds neither angle brackets nor line breaks. Any other bracket is plain text.
-/

namespace GherkinTree

/-- A run of plain text, or the name of a placeholder. -/
inductive Piece where
  | literal (text : Text)
  | placeholder (name : Text)
  deriving DecidableEq, Repr

namespace Piece

/-- The characters of placeholder names. -/
def isNameChar (c : Char) : Bool := c != '<' && c != '>' && c != '\n' && c != '\r'

/-- The name at the start of a text that follows an opening bracket, and what stands behind the
closing bracket. -/
def name? (t : Text) : Option (Text × Text) :=
  match t.takeWhile isNameChar, t.dropWhile isNameChar with
  | c :: name, '>' :: rest => some (c :: name, rest)
  | _, _ => none

/-- A name, its closing bracket and what follows make up the text. -/
theorem append_of_name? {t name rest : Text} (h : name? t = some (name, rest)) :
    t = name ++ '>' :: rest := by
  have ht : t.takeWhile isNameChar ++ t.dropWhile isNameChar = t :=
    List.takeWhile_append_dropWhile
  unfold name? at h
  split at h
  · rename_i ha hb
    cases h
    rw [← ht, ha, hb]
  · cases h

/-- Puts a character in front of the plain text that the pieces start with. -/
def cons (c : Char) : List Piece → List Piece
  | literal t :: ps => literal (c :: t) :: ps
  | ps => literal [c] :: ps

/-- Cuts a text at its placeholders. -/
def split : Text → List Piece
  | [] => []
  | c :: t =>
    if c = '<' then
      match _h : name? t with
      | some (name, rest) => placeholder name :: split rest
      | none => cons c (split t)
    else cons c (split t)
termination_by t => t.length
decreasing_by
  all_goals try simp
  have := congrArg List.length (append_of_name? _h)
  simp at this
  omega

/-- A piece as it is written. -/
def text : Piece → Text
  | literal t => t
  | placeholder name => '<' :: name ++ ['>']

end Piece

end GherkinTree
