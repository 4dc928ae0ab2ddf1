import GherkinTree.Proofs.Reading
import Mathlib.Data.List.Chain

/-!
Decoding a text as a whole and piece by piece. The escapes of cells and of doc strings hold no angle
brackets, so where a text is cut at its placeholders no escape is cut apart. Main statement: the
pieces of a text, decoded one by one, make up the decoded text; with the names of the placeholders
left as they are written they do exactly if decoding changes none of these names.
-/

namespace GherkinTree

namespace Text

/-- Decoding the two sides of a character apart is decoding the whole. -/
def Keeps (decode : Text → Text) (x : Char) : Prop :=
  ∀ l r, decode (l ++ x :: r) = decode l ++ x :: decode r

theorem after?_append_cons {p : Text} {x : Char} (hx : x ∉ p) (l r : Text) :
    after? p (l ++ x :: r) = (after? p l).map (· ++ x :: r) := by
  induction p generalizing l with
  | nil => rfl
  | cons c p ih =>
    obtain ⟨hc, hp⟩ := List.ne_and_not_mem_of_not_mem_cons hx
    cases l with
    | nil => simp [after?, Ne.symm hc]
    | cons d l =>
      by_cases h : c = d
      · simpa [after?, h] using ih hp l
      · simp [after?, h]

theorem replace_cons_of_not_mem {old : Text} {x : Char} (hx : x ∉ old) (new t : Text) :
    replace old new (x :: t) = x :: replace old new t := by
  rw [replace]
  cases old with
  | nil => simp [after?]
  | cons c old => simp [after?, Ne.symm (List.ne_of_not_mem_cons hx)]

/-- A character that is not part of what is replaced stays where it is. -/
theorem keeps_replace {old : Text} {x : Char} (hx : x ∉ old) (new : Text) :
    Keeps (replace old new) x := by
  intro l r
  fun_induction replace old new l with
  | case1 => exact replace_cons_of_not_mem hx new r
  | case2 c t u hu hlen ih =>
    have hafter := after?_append_cons hx (c :: t) r
    rw [hu, Option.map_some, List.cons_append] at hafter
    rw [List.cons_append, replace, hafter]
    simp only [List.length_append, Nat.add_le_add_iff_right, hlen, if_true, ih, List.append_assoc]
  | case3 c t u hu hlen ih =>
    have hafter := after?_append_cons hx (c :: t) r
    rw [hu, Option.map_some, List.cons_append] at hafter
    rw [List.cons_append, replace, hafter]
    simp only [List.length_append, Nat.add_le_add_iff_right, hlen, if_false, ih, List.cons_append]
  | case4 c t hu ih =>
    have hafter := after?_append_cons hx (c :: t) r
    rw [hu, Option.map_none, List.cons_append] at hafter
    rw [List.cons_append, replace, hafter]
    simp only [ih, List.cons_append]

theorem length_replace_le {old new : Text} (h : new.length ≤ old.length) (t : Text) :
    (replace old new t).length ≤ t.length := by
  fun_induction replace old new t with
  | case1 => exact Nat.le_refl 0
  | case2 c t u hu hlen ih =>
    have hsplit := congrArg List.length (after?_eq_some_iff.1 hu)
    rw [List.length_append] at hsplit ⊢
    omega
  | case3 c t u hu hlen ih => simpa using ih
  | case4 c t hu ih => simpa using ih

end Text

namespace Cell

/-- What a cell may escape is a bar, a backslash and the letter of a line feed. -/
theorem keeps_unescape {x : Char} (hs : x ≠ '\\') (hb : x ≠ '|') (hn : x ≠ 'n') :
    Text.Keeps unescape x := by
  have hcons (r : Text) : unescape (x :: r) = x :: unescape r := by
    cases r with
    | nil => rfl
    | cons d t => rw [unescape, if_neg hs]
  intro l r
  fun_induction unescape l with
  | case1 => exact hcons r
  | case2 c =>
    by_cases hc : c = '\\'
    · simp [unescape, hc, hs, hb, hn]
    · simp [unescape, hc, hcons]
  | case3 t ih => simp [unescape, ih]
  | case4 t _ ih => simp [unescape, ih]
  | case5 t _ _ ih => simp [unescape, ih]
  | case6 d t hbar hslash hfeed ih => simp [unescape, hbar, hslash, hfeed, ih]
  | case7 c d t hc ih => simpa [unescape, hc] using ih

theorem length_unescape_le (t : Text) : (unescape t).length ≤ t.length := by
  fun_induction unescape t <;> simp <;> omega

end Cell

namespace Piece

/-- The name of a placeholder. -/
def placeholder? : Piece → Option Text
  | literal _ => none
  | placeholder name => some name

/-- What a piece stands for: a placeholder stays as it is written. -/
def value (decode : Text → Text) : Piece → Text
  | literal t => decode t
  | placeholder name => (placeholder name).text

/-- A piece with its name decoded as well. -/
def decoded (decode : Text → Text) : Piece → Text
  | literal t => decode t
  | placeholder name => (placeholder (decode name)).text

/-- Pieces of which at most one is plain text. -/
def Apart (p q : Piece) : Prop := p.placeholder?.isSome = true ∨ q.placeholder?.isSome = true

theorem isChain_cons_of_apart (c : Char) {ps : List Piece} (h : ps.IsChain Apart) :
    (cons c ps).IsChain Apart := by
  cases ps with
  | nil => simp [cons]
  | cons p ps =>
    cases p with
    | literal t => cases ps <;> simp_all [cons, Apart, placeholder?]
    | placeholder name => exact .cons_cons (.inr rfl) h

/-- Two runs of plain text are never next to each other. -/
theorem isChain_split (t : Text) : (split t).IsChain Apart := by
  fun_induction split t with
  | case1 => exact .nil
  | case2 t name rest h ih =>
    cases hs : split rest with
    | nil => exact .singleton _
    | cons q qs => exact .cons_cons (.inl rfl) (hs ▸ ih)
  | case3 t h ih => exact isChain_cons_of_apart '<' ih
  | case4 c t h ih => exact isChain_cons_of_apart c ih

end Piece

/-- A decoder that treats angle brackets as plain text and makes no text longer. -/
structure Text.Decoder (decode : Text → Text) : Prop where
  less : Text.Keeps decode '<'
  greater : Text.Keeps decode '>'
  shrinks : ∀ t, (decode t).length ≤ t.length

theorem Text.decoder_id : Text.Decoder id where
  less _ _ := rfl
  greater _ _ := rfl
  shrinks _ := Nat.le_refl _

theorem Cell.decoder_unescape : Text.Decoder Cell.unescape where
  less := keeps_unescape (by decide) (by decide) (by decide)
  greater := keeps_unescape (by decide) (by decide) (by decide)
  shrinks := length_unescape_le

theorem Fence.decoder_unescape (f : Fence) : Text.Decoder f.unescape where
  less := Text.keeps_replace (by cases f <;> decide) f.text
  greater := Text.keeps_replace (by cases f <;> decide) f.text
  shrinks := Text.length_replace_le (by cases f <;> decide)

namespace Text.Decoder

variable {decode : Text → Text}

theorem nil (h : Decoder decode) : decode [] = [] :=
  List.length_eq_zero_iff.1 (Nat.le_zero.1 (h.shrinks []))

/-- What stands in front of an opening bracket is decoded apart. -/
theorem append_less (h : Decoder decode) (l r : Text) :
    decode (l ++ '<' :: r) = decode l ++ decode ('<' :: r) := by
  have hnil := h.less [] r
  rw [h.nil, List.nil_append, List.nil_append] at hnil
  rw [h.less, hnil]

/-- A placeholder is decoded apart from what follows. -/
theorem placeholder_append (h : Decoder decode) (name r : Text) :
    decode ((Piece.placeholder name).text ++ r) =
      (Piece.placeholder name).decoded decode ++ decode r := by
  have hshape : (Piece.placeholder name).text ++ r = [] ++ '<' :: (name ++ '>' :: r) := by
    simp [Piece.text]
  rw [hshape, h.less, h.greater, h.nil]
  simp [Piece.decoded, Piece.text]

/-- The decoded pieces of a text make up the decoded text. -/
theorem flatMap_decoded (h : Decoder decode) {ps : List Piece} (hps : ps.IsChain Piece.Apart) :
    decode (ps.flatMap Piece.text) = ps.flatMap (Piece.decoded decode) := by
  induction ps with
  | nil => exact h.nil
  | cons p ps ih =>
    have ih := ih hps.tail
    rw [List.flatMap_cons, List.flatMap_cons, ← ih]
    cases p with
    | placeholder name => exact h.placeholder_append name _
    | literal t =>
      cases ps with
      | nil => simp [Piece.text, Piece.decoded, h.nil]
      | cons q qs =>
        cases q with
        | literal u => simp [Piece.Apart, Piece.placeholder?] at hps
        | placeholder name => exact h.append_less t _

end Text.Decoder

namespace Piece

variable {decode : Text → Text} {ps : List Piece}

theorem length_decoded_le (h : Text.Decoder decode) (p : Piece) :
    (p.decoded decode).length ≤ (p.value decode).length := by
  cases p with
  | literal t => exact Nat.le_refl _
  | placeholder name => simpa [decoded, value, text] using h.shrinks name

theorem length_flatMap_decoded_le (h : Text.Decoder decode) (ps : List Piece) :
    (ps.flatMap (decoded decode)).length ≤ (ps.flatMap (value decode)).length := by
  induction ps with
  | nil => exact Nat.le_refl 0
  | cons p ps ih =>
    have := p.length_decoded_le h
    simp only [List.flatMap_cons, List.length_append]
    omega

theorem value_eq_decoded_iff (p : Piece) :
    p.value decode = p.decoded decode ↔ ∀ name ∈ p.placeholder?, decode name = name := by
  cases p with
  | literal t => simp [value, decoded, placeholder?]
  | placeholder name => simp [value, decoded, placeholder?, text, eq_comm]

/-- Pieces stand for their decoded text exactly if decoding changes no name. -/
theorem flatMap_value_eq_iff (h : Text.Decoder decode) (ps : List Piece) :
    ps.flatMap (value decode) = ps.flatMap (decoded decode) ↔
      ∀ name ∈ ps.filterMap placeholder?, decode name = name := by
  induction ps with
  | nil => simp
  | cons p ps ih =>
    have hsplit : (p :: ps).flatMap (value decode) = (p :: ps).flatMap (decoded decode) ↔
        p.value decode = p.decoded decode ∧
          ps.flatMap (value decode) = ps.flatMap (decoded decode) := by
      simp only [List.flatMap_cons]
      refine ⟨fun he => List.append_inj he ?_, fun he => by rw [he.1, he.2]⟩
      -- neither part gets longer, so the parts are equally long
      have hlen := congrArg List.length he
      have := p.length_decoded_le h
      have := length_flatMap_decoded_le h ps
      simp only [List.length_append] at hlen
      omega
    rw [hsplit, ih, value_eq_decoded_iff]
    cases p <;> simp [placeholder?]

end Piece

/-- How a text stands for a value: either as a whole or cut at its placeholders, whose names stay as
they are written. -/
structure Decodes (decode : Text → Text) (raw : Text) (names : List Text) (value : Text) :
    Prop where
  pieces : ∃ ps, (ps = [.literal raw] ∨ ps = Piece.split raw) ∧
    names = ps.filterMap Piece.placeholder? ∧ value = ps.flatMap (Piece.value decode)
  exact : value = decode raw ↔ ∀ name ∈ names, decode name = name

namespace Decodes

variable {decode : Text → Text} {raw : Text}

theorem of_pieces (h : Text.Decoder decode) {ps : List Piece}
    (hps : ps = [.literal raw] ∨ ps = Piece.split raw) :
    Decodes decode raw (ps.filterMap Piece.placeholder?) (ps.flatMap (Piece.value decode)) where
  pieces := ⟨ps, hps, rfl, rfl⟩
  exact := by
    have hall : decode raw = ps.flatMap (Piece.decoded decode) := by
      rcases hps with rfl | rfl
      · simp [Piece.decoded]
      · rw [← h.flatMap_decoded (Piece.isChain_split raw), Piece.text_split]
    rw [hall]
    exact Piece.flatMap_value_eq_iff h ps

/-- A text that is not cut. -/
theorem whole (decode : Text → Text) (raw : Text) : Decodes decode raw [] (decode raw) where
  pieces := ⟨[.literal raw], .inl rfl, rfl, by simp [Piece.value]⟩
  exact := by simp

end Decodes

end GherkinTree
