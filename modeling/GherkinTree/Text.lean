/-!
Text is the list of its characters. Every offset and width of the library counts UTF-8 bytes, so
the width of a text is the sum of the encoded sizes of its characters; blank characters are those
with the Unicode property White_Space. Each cut keeps all characters: what a function drops is
what its companion keeps.
-/

namespace GherkinTree

/-- Text as the list of its characters. -/
abbrev Text := List Char

namespace Text

/-- The number of bytes a text takes in UTF-8. -/
def width : Text → Nat
  | [] => 0
  | c :: t => c.utf8Size + width t

@[simp] theorem width_nil : width [] = 0 := rfl
@[simp] theorem width_cons (c : Char) (t : Text) : width (c :: t) = c.utf8Size + width t := rfl

@[simp] theorem width_append (a b : Text) : width (a ++ b) = width a + width b := by
  induction a with
  | nil => simp
  | cons c a ih => simp [ih, Nat.add_assoc]

theorem width_eq_zero_iff (t : Text) : width t = 0 ↔ t = [] := by
  cases t with
  | nil => simp
  | cons c t => have := c.utf8Size_pos; simp; omega

/-- The characters with the property White_Space. -/
def isBlank (c : Char) : Bool :=
  let n := c.toNat
  (0x09 ≤ n && n ≤ 0x0D) || n == 0x20 || n == 0x85 || n == 0xA0 || n == 0x1680 ||
    (0x2000 ≤ n && n ≤ 0x200A) || n == 0x2028 || n == 0x2029 || n == 0x202F || n == 0x205F ||
    n == 0x3000

/-- Blank characters at the start. -/
def leadingBlanks (t : Text) : Text := t.takeWhile isBlank

/-- The text without the blank characters at its start. -/
def trimStart (t : Text) : Text := t.dropWhile isBlank

@[simp] theorem leadingBlanks_append_trimStart (t : Text) :
    leadingBlanks t ++ trimStart t = t := List.takeWhile_append_dropWhile

/-- Cuts a text before the blank characters at its end. -/
def cutEnd : Text → Text × Text
  | [] => ([], [])
  | c :: t =>
    match cutEnd t with
    | ([], b) => if isBlank c then ([], c :: b) else ([c], b)
    | (d :: r, b) => (c :: d :: r, b)

/-- The text without the blank characters at its end. -/
def trimEnd (t : Text) : Text := (cutEnd t).1

/-- Blank characters at the end. -/
def trailingBlanks (t : Text) : Text := (cutEnd t).2

@[simp] theorem trimEnd_append_trailingBlanks (t : Text) :
    trimEnd t ++ trailingBlanks t = t := by
  unfold trimEnd trailingBlanks
  induction t with
  | nil => rfl
  | cons c t ih =>
    unfold cutEnd
    split <;> rename_i h <;> rw [h] at ih
    · by_cases hc : isBlank c <;> simpa [hc] using ih
    · simpa using ih

/-- The text without the blank characters at either end. -/
def trim (t : Text) : Text := trimEnd (trimStart t)

/-- What follows `p` in a text that begins with `p`. -/
def after? : (p t : Text) → Option Text
  | [], t => some t
  | _ :: _, [] => none
  | c :: p, d :: t => if c = d then after? p t else none

theorem after?_eq_some_iff {p t r : Text} : after? p t = some r ↔ t = p ++ r := by
  induction p generalizing t with
  | nil => simp [after?, eq_comm]
  | cons c p ih =>
    cases t with
    | nil => simp [after?]
    | cons d t =>
      by_cases h : c = d
      · simp [after?, h, ih]
      · simp [after?, h, Ne.symm h]

/-- Whether a text begins with `p`. -/
def startsWith (p t : Text) : Bool := (after? p t).isSome

/-- The text from a byte offset on, if the offset is a character boundary of the text. -/
def dropBytes? : Text → Nat → Option Text
  | t, 0 => some t
  | [], _ + 1 => none
  | c :: t, n + 1 => if c.utf8Size ≤ n + 1 then dropBytes? t (n + 1 - c.utf8Size) else none

/-- The text up to a byte offset, if the offset is a character boundary of the text. -/
def takeBytes? : Text → Nat → Option Text
  | _, 0 => some []
  | [], _ + 1 => none
  | c :: t, n + 1 =>
    if c.utf8Size ≤ n + 1 then (takeBytes? t (n + 1 - c.utf8Size)).map (c :: ·) else none

/-- Every occurrence of `old`, found from left to right without overlap, becomes `new`; an empty
`old` occurs nowhere. -/
def replace (old new : Text) : Text → Text
  | [] => []
  | c :: t =>
    match after? old (c :: t) with
    | some r => if r.length ≤ t.length then new ++ replace old new r else c :: replace old new t
    | none => c :: replace old new t
termination_by t => t.length

/-- ASCII capitals become small letters; all other characters stay. -/
def lowerAscii (t : Text) : Text := t.map Char.toLower

end Text

end GherkinTree
