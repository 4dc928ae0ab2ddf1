import GherkinTree.Proofs.Lexeme

/-!
What a text is cut into at its placeholders. A placeholder holds no opening bracket, so two of them
never overlap, and one that begins in a run of plain text also ends there. Main statement: the cut
is the only way to write a text as placeholders and runs of plain text that hold no placeholder.
-/

namespace GherkinTree

namespace Piece

variable {t name run : Text} {c : Char} {p : Piece} {ps : List Piece}

/-- Whether a text is the name of a placeholder. -/
def IsName (name : Text) : Prop := name ≠ [] ∧ ∀ c ∈ name, c ∉ ['<', '>', '\n', '\r']

/-- Pieces that are the placeholders of a text and the runs of plain text around them. -/
structure Cuts (t : Text) (ps : List Piece) : Prop where
  text : ps.flatMap Piece.text = t
  names : ∀ name, placeholder name ∈ ps → IsName name
  solid : literal [] ∉ ps
  /-- No run is cut in two. -/
  apart : ∀ a b, ¬ [literal a, literal b] <:+: ps
  /-- No run holds a placeholder. -/
  complete : ∀ run, literal run ∈ ps → ∀ name, IsName name → ¬ '<' :: name ++ ['>'] <:+: run

theorem isNameChar_iff : isNameChar c = true ↔ c ∉ ['<', '>', '\n', '\r'] := by
  simp [isNameChar, and_assoc]

/-- A name stands at the start of a text exactly if a closing bracket follows it. -/
theorem name?_eq_some_iff {rest : Text} :
    name? t = some (name, rest) ↔ IsName name ∧ t = name ++ '>' :: rest := by
  constructor
  · intro h
    refine ⟨⟨name?_ne_nil h, fun c hc => ?_⟩, append_of_name? h⟩
    exact isNameChar_iff.1 (isNameChar_of_name? h c hc)
  · rintro ⟨⟨hne, hchars⟩, rfl⟩
    have hname : ∀ c ∈ name, isNameChar c = true := fun c hc => isNameChar_iff.2 (hchars c hc)
    have htake : (name ++ '>' :: rest).takeWhile isNameChar = name := by
      rw [List.takeWhile_append_of_pos hname, List.takeWhile_cons_of_neg (by decide),
        List.append_nil]
    have hdrop : (name ++ '>' :: rest).dropWhile isNameChar = '>' :: rest := by
      rw [List.dropWhile_append_of_pos hname, List.dropWhile_cons_of_neg (by decide)]
    obtain ⟨c, u, rfl⟩ := List.exists_cons_of_ne_nil hne
    simp only [name?, htake, hdrop]

/-- A text that begins with a placeholder begins with a bracket and a name. -/
theorem exists_name?_of_prefix (hn : IsName name) (h : '<' :: name ++ ['>'] <+: c :: t) :
    c = '<' ∧ ∃ rest, name? t = some (name, rest) := by
  obtain ⟨rest, hrest⟩ := h
  rw [List.cons_append, List.cons_append, List.append_assoc] at hrest
  obtain ⟨rfl, rfl⟩ := List.cons.inj hrest
  exact ⟨rfl, rest, name?_eq_some_iff.2 ⟨hn, rfl⟩⟩

/-- A run of plain text is among the pieces, or it is a character and the run that they begin with,
if there is one. -/
theorem cases_of_literal_mem_cons (h : literal run ∈ cons c ps) : literal run ∈ ps ∨
    ∃ u, run = c :: u ∧ (u = [] ∨ literal u ∈ ps) ∧ u <+: ps.flatMap text := by
  cases ps with
  | nil =>
    obtain rfl : run = [c] := by simpa [cons] using h
    exact .inr ⟨[], rfl, .inl rfl, List.nil_prefix⟩
  | cons q ps =>
    cases q with
    | literal u =>
      rcases List.mem_cons.1 h with h | h
      · cases h
        exact .inr ⟨u, rfl, .inr List.mem_cons_self, List.prefix_append u _⟩
      · exact .inl (List.mem_cons_of_mem _ h)
    | placeholder n =>
      rcases List.mem_cons.1 h with h | h
      · cases h
        exact .inr ⟨[], rfl, .inl rfl, List.nil_prefix⟩
      · exact .inl h

theorem apart_cons (h : ∀ a b, ¬ [literal a, literal b] <:+: ps) (a b : Text) :
    ¬ [literal a, literal b] <:+: cons c ps := by
  intro hab
  cases ps with
  | nil => exact absurd hab.length_le (by simp [cons])
  | cons q ps =>
    cases q with
    | literal u =>
      rcases List.infix_cons_iff.1 hab with hab | hab
      · obtain ⟨-, hab⟩ := List.cons_prefix_cons.1 hab
        exact h u b (List.cons_prefix_cons.2 ⟨rfl, hab⟩).isInfix
      · exact h a b (hab.trans (List.suffix_cons _ _).isInfix)
    | placeholder n =>
      rcases List.infix_cons_iff.1 hab with hab | hab
      · cases (List.cons_prefix_cons.1 (List.cons_prefix_cons.1 hab).2).1
      · exact h a b hab

/-- A run of plain text goes on up to the next placeholder. -/
theorem apart_split (t : Text) : ∀ a b, ¬ [literal a, literal b] <:+: split t := by
  fun_induction split t with
  | case1 =>
    intro a b hab
    cases List.infix_nil.1 hab
  | case2 t name rest h ih =>
    intro a b hab
    rcases List.infix_cons_iff.1 hab with hab | hab
    · cases (List.cons_prefix_cons.1 hab).1
    · exact ih a b hab
  | case3 t h ih => exact apart_cons ih
  | case4 c t h ih => exact apart_cons ih

theorem complete_cons (htext : ps.flatMap text = t) (hc : c = '<' → name? t = none)
    (h : ∀ run, literal run ∈ ps → ∀ name, IsName name → ¬ '<' :: name ++ ['>'] <:+: run) :
    ∀ run, literal run ∈ cons c ps → ∀ name, IsName name → ¬ '<' :: name ++ ['>'] <:+: run := by
  intro run hrun name hn hinfix
  rcases cases_of_literal_mem_cons hrun with hrun | ⟨u, rfl, hu, hprefix⟩
  · exact h run hrun name hn hinfix
  · rcases List.infix_cons_iff.1 hinfix with hinfix | hinfix
    · -- a placeholder at the character would have been cut off
      have hstart := hinfix.trans (List.cons_prefix_cons.2 ⟨rfl, htext ▸ hprefix⟩)
      obtain ⟨hopen, rest, hname⟩ := exists_name?_of_prefix hn hstart
      rw [hc hopen] at hname
      cases hname
    · rcases hu with rfl | hu
      · cases List.infix_nil.1 hinfix
      · exact h u hu name hn hinfix

/-- No placeholder is left in a run of plain text: each opening bracket was looked at. -/
theorem complete_split (t : Text) :
    ∀ run, literal run ∈ split t → ∀ name, IsName name → ¬ '<' :: name ++ ['>'] <:+: run := by
  fun_induction split t with
  | case1 =>
    intro run hrun
    cases hrun
  | case2 t name rest h ih =>
    intro run hrun
    rcases List.mem_cons.1 hrun with hrun | hrun
    · cases hrun
    · exact ih run hrun
  | case3 t h ih => exact complete_cons (text_split t) (fun _ => h) ih
  | case4 c t hc ih => exact complete_cons (text_split t) (fun h => absurd h hc) ih

theorem cuts_split (t : Text) : Cuts t (split t) where
  text := text_split t
  names _ hname :=
    ⟨solid_split t _ hname, fun c hc => isNameChar_iff.1 (isNameChar_of_mem_split hname c hc)⟩
  solid h := solid_split t _ h rfl
  apart := apart_split t
  complete := complete_split t

theorem split_placeholder (hn : IsName name) (t : Text) :
    split ('<' :: (name ++ '>' :: t)) = placeholder name :: split t := by
  have hname : name? (name ++ '>' :: t) = some (name, t) := name?_eq_some_iff.2 ⟨hn, rfl⟩
  rw [split, if_pos rfl]
  split
  · rename_i h
    rw [hname] at h
    cases h
    rfl
  · rename_i h
    rw [hname] at h
    cases h

theorem split_char (hc : c = '<' → name? t = none) : split (c :: t) = cons c (split t) := by
  rw [split]
  split
  · rename_i h
    split
    · rename_i hname
      rw [hc h] at hname
      cases hname
    · rfl
  · rfl

/-- What can stand behind a run of plain text: nothing, or a placeholder. -/
def Resumes (t : Text) : Prop :=
  t = [] ∨ ∃ name rest, IsName name ∧ t = '<' :: (name ++ '>' :: rest)

/-- A placeholder that does not end in a run of plain text does not begin in it: it would hold the
bracket that opens the next. -/
theorem name?_eq_none (h : Resumes t)
    (hrun : ∀ name, IsName name → ¬ '<' :: name ++ ['>'] <:+: '<' :: run) :
    name? (run ++ t) = none := by
  rw [Option.eq_none_iff_forall_ne_some]
  rintro ⟨name, rest⟩ hname
  obtain ⟨hn, htext⟩ := name?_eq_some_iff.1 hname
  rw [List.append_cons] at htext
  rcases List.append_eq_append_iff.1 htext with ⟨v, hv, rfl⟩ | ⟨v, rfl, -⟩
  · cases v with
    | nil =>
      rw [List.append_nil] at hv
      exact hrun name hn (by rw [List.cons_append, hv])
    | cons x v =>
      obtain rfl : x = '<' := by
        rcases h with h | ⟨n, r, -, h⟩
        · cases h
        · exact (List.cons.inj h).1
      have hopen : '<' ∈ name ++ ['>'] := by
        rw [hv]
        exact List.mem_append_right _ List.mem_cons_self
      rcases List.mem_append.1 hopen with hopen | hopen
      · exact hn.2 _ hopen (by decide)
      · exact absurd hopen (by decide)
  · refine hrun name hn ⟨[], v, ?_⟩
    simp

/-- A run of plain text is cut off where the next placeholder begins. -/
theorem split_literal (h : Resumes t)
    (hrun : ∀ name, IsName name → ¬ '<' :: name ++ ['>'] <:+: c :: run) :
    split (c :: run ++ t) = literal (c :: run) :: split t := by
  have hc : c = '<' → name? (run ++ t) = none := by
    rintro rfl
    exact name?_eq_none h hrun
  rw [List.cons_append, split_char hc]
  induction run generalizing c with
  | nil =>
    rcases h with rfl | ⟨name, rest, hn, rfl⟩
    · rw [List.nil_append, split]
      rfl
    · rw [List.nil_append, split_placeholder hn]
      rfl
  | cons d run ih =>
    have hrun' (name : Text) (hn : IsName name) : ¬ '<' :: name ++ ['>'] <:+: d :: run :=
      fun hd => hrun name hn (hd.trans (List.suffix_cons c _).isInfix)
    have hd : d = '<' → name? (run ++ t) = none := by
      rintro rfl
      exact name?_eq_none h hrun'
    rw [List.cons_append, split_char hd, ih hrun' hd]
    rfl

namespace Cuts

theorem tail (h : Cuts t (p :: ps)) : Cuts (ps.flatMap Piece.text) ps where
  text := rfl
  names name hname := h.names name (List.mem_cons_of_mem p hname)
  solid hs := h.solid (List.mem_cons_of_mem p hs)
  apart a b hab := h.apart a b (hab.trans (List.suffix_cons p ps).isInfix)
  complete run hrun := h.complete run (List.mem_cons_of_mem p hrun)

/-- Behind a run of plain text stands nothing or a placeholder. -/
theorem resumes (h : Cuts t (literal run :: ps)) : Resumes (ps.flatMap Piece.text) := by
  cases ps with
  | nil => exact .inl rfl
  | cons q ps =>
    cases q with
    | literal u =>
      exact absurd (List.prefix_append [literal run, literal u] ps).isInfix (h.apart run u)
    | placeholder name =>
      refine .inr ⟨name, ps.flatMap Piece.text, ?_, ?_⟩
      · exact h.names name (List.mem_cons_of_mem _ List.mem_cons_self)
      · simp [Piece.text]

theorem eq_split (h : Cuts t ps) : ps = split t := by
  rw [← h.text]
  induction ps generalizing t with
  | nil => rw [List.flatMap_nil, split]
  | cons p ps ih =>
    have ih := ih h.tail
    cases p with
    | placeholder name =>
      have hn : IsName name := h.names name List.mem_cons_self
      have htext : (placeholder name :: ps).flatMap Piece.text =
          '<' :: (name ++ '>' :: ps.flatMap Piece.text) := by simp [Piece.text]
      rw [htext, split_placeholder hn, ← ih]
    | literal run =>
      cases run with
      | nil => exact absurd List.mem_cons_self h.solid
      | cons c run =>
        have hrun := h.complete (c :: run) List.mem_cons_self
        rw [List.flatMap_cons, Piece.text, split_literal h.resumes hrun, ← ih]

end Cuts

/-- The cut of a text at its placeholders is its only cut into placeholders and runs of plain text
that hold none. -/
theorem eq_split_iff_cuts : ps = split t ↔ Cuts t ps := by
  constructor
  · rintro rfl
    exact cuts_split t
  · exact Cuts.eq_split

/-- The last bracket that opens in front of a name counts. -/
example : split "a<<b>c>".toList =
    [literal "a<".toList, placeholder ['b'], literal "c>".toList] := by cbv

end Piece

end GherkinTree
