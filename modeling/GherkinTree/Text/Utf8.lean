import GherkinTree.Text

/-!
Reading text from bytes. A character takes one to four bytes; the first tells how many follow, and
the second is limited so that no character has two encodings and none is a surrogate. Reading stops
at the first byte from which no character can be read.
-/

namespace GherkinTree.Utf8

/-- Bytes that are no text: where the fault begins, and how many bytes are surely at fault, unless
the bytes end too soon. -/
structure DecodeError where
  index : Nat
  faulty : Option Nat
  deriving DecidableEq, Repr

def DecodeError.message (e : DecodeError) : String :=
  match e.faulty with
  | some n =>
    "invalid utf-8 sequence of " ++ toString n ++ " bytes from index " ++ toString e.index
  | none => "incomplete utf-8 byte sequence from index " ++ toString e.index

/-- What the first byte of a longer character tells: the value of its own bits, the least and the
greatest second byte, and how many bytes follow. -/
structure Lead where
  value : Nat
  low : Nat
  high : Nat
  count : Nat

def lead? (b : Nat) : Option Lead :=
  if 0xC2 ≤ b ∧ b ≤ 0xDF then some ⟨b % 32, 0x80, 0xBF, 1⟩
  else if b = 0xE0 then some ⟨b % 16, 0xA0, 0xBF, 2⟩
  else if b = 0xED then some ⟨b % 16, 0x80, 0x9F, 2⟩
  else if 0xE1 ≤ b ∧ b ≤ 0xEF then some ⟨b % 16, 0x80, 0xBF, 2⟩
  else if b = 0xF0 then some ⟨b % 8, 0x90, 0xBF, 3⟩
  else if 0xF1 ≤ b ∧ b ≤ 0xF3 then some ⟨b % 8, 0x80, 0xBF, 3⟩
  else if b = 0xF4 then some ⟨b % 8, 0x80, 0x8F, 3⟩
  else none

/-- Reads the bytes that follow the first of a character: `low` and `high` limit the next one,
`count` of them are left, `value` is what the bytes so far stand for and `seen` their number.
Gives the code point and the bytes behind it, or the number of faulty bytes. -/
def continuation (low high : Nat) : (count value seen : Nat) → List UInt8 →
    Except (Option Nat) (Nat × List UInt8)
  | 0, value, _, bytes => .ok (value, bytes)
  | _ + 1, _, _, [] => .error none
  | count + 1, value, seen, b :: bytes =>
    if low ≤ b.toNat ∧ b.toNat ≤ high then
      continuation 0x80 0xBF count (value * 64 + b.toNat % 64) (seen + 1) bytes
    else .error (some seen)

/-- The character at the start of bytes that are not empty, and the bytes behind it. -/
def next (b : UInt8) (bytes : List UInt8) : Except (Option Nat) (Nat × List UInt8) :=
  if b.toNat < 0x80 then .ok (b.toNat, bytes)
  else
    match lead? b.toNat with
    | none => .error (some 1)
    | some l => continuation l.low l.high l.count l.value 1 bytes

theorem length_continuation_le {low high count value seen : Nat} {bytes : List UInt8}
    {r : Nat × List UInt8} (h : continuation low high count value seen bytes = .ok r) :
    r.2.length ≤ bytes.length := by
  fun_induction continuation low high count value seen bytes with
  | case1 => cases h; simp
  | case2 => cases h
  | case3 _ _ _ _ _ _ _ _ ih => have := ih h; simp; omega
  | case4 => cases h

theorem length_next_le {b : UInt8} {bytes : List UInt8} {r : Nat × List UInt8}
    (h : next b bytes = .ok r) : r.2.length ≤ bytes.length := by
  unfold next at h
  split at h
  · cases h; simp
  · split at h
    · cases h
    · exact length_continuation_le h

/-- Reads bytes from an index on. -/
def decodeFrom (index : Nat) (bytes : List UInt8) : Except DecodeError Text :=
  match bytes with
  | [] => .ok []
  | b :: rest =>
    match _h : next b rest with
    | .error faulty => .error ⟨index, faulty⟩
    | .ok (code, tail) =>
      match decodeFrom (index + (Char.ofNat code).utf8Size) tail with
      | .error e => .error e
      | .ok t => .ok (Char.ofNat code :: t)
termination_by bytes.length
decreasing_by
  have := length_next_le _h
  simp at *
  omega

/-- The text that bytes encode. -/
def decode (bytes : List UInt8) : Except DecodeError Text := decodeFrom 0 bytes

end GherkinTree.Utf8
