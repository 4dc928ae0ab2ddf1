import GherkinTree.Proofs.Diagnosis
import GherkinTree.Proofs.Lookahead

/-!
Texts as tokens. However a text is read, as one token or cut at its placeholders, its tokens are
all present, write the text with the trivia around it, and hand that trivia to the first and the
last of them. Main statement: `Spells` for the text of a step, of a cell and of a doc string.
-/

namespace GherkinTree

namespace Piece

@[simp] theorem text_cons (c : Char) (ps : List Piece) :
    (cons c ps).flatMap text = c :: ps.flatMap text := by
  cases ps with
  | nil => rfl
  | cons p ps => cases p <;> simp [cons, text]

/-- The pieces of a text make up the text. -/
theorem text_split (t : Text) : (split t).flatMap text = t := by
  fun_induction split t with
  | case1 => rfl
  | case2 t name rest h ih => simp [ih, text, append_of_name? h]
  | case3 t h ih => simp [ih]
  | case4 c t h ih => simp [ih]

/-- A piece that holds some text. -/
def Solid : Piece → Prop
  | literal t => t ≠ []
  | placeholder name => name ≠ []

theorem solid_cons (c : Char) {ps : List Piece} (h : ∀ p ∈ ps, p.Solid) :
    ∀ p ∈ cons c ps, p.Solid := by
  cases ps with
  | nil => simp [cons, Solid]
  | cons q qs => cases q <;> simp_all [cons, Solid]

theorem name?_ne_nil {t name rest : Text} (h : name? t = some (name, rest)) : name ≠ [] := by
  unfold name? at h
  split at h
  · cases h
    simp
  · cases h

theorem solid_split (t : Text) : ∀ p ∈ split t, p.Solid := by
  fun_induction split t with
  | case1 => simp
  | case2 t name rest h ih =>
    rintro p hp
    rcases List.mem_cons.1 hp with rfl | hp
    · exact name?_ne_nil h
    · exact ih p hp
  | case3 t h ih => exact solid_cons '<' ih
  | case4 c t h ih => exact solid_cons c ih

end Piece

/-- Tokens that write a text between trivia. -/
structure Spells (ts : List Token) (leading : List Trivia) (raw : Text)
    (trailing : List Trivia) : Prop where
  render : Token.renderAll ts = Trivia.render leading ++ raw ++ Trivia.render trailing
  present : ∀ t ∈ ts, t.missing = false ∧ t.text ≠ []
  leading : ∀ t ∈ ts, t.leading = [] ∨ t.leading = leading
  trailing : ∀ t ∈ ts, t.trailing = [] ∨ t.trailing = trailing

namespace Spells

variable {ts : List Token} {leading trailing : List Trivia} {raw : Text}

/-- Nothing is wrong with tokens whose trivia is in order. -/
theorem quiet (h : Spells ts leading raw trailing) (hl : Trivia.Quiet leading)
    (ht : Trivia.Quiet trailing) : ∀ t ∈ ts, t.Quiet := by
  intro t hm
  refine ⟨?_, ?_, by simp [Token.isReported, (h.present t hm).1]⟩
  · rcases h.leading t hm with he | he <;> rw [he]
    · exact Trivia.quiet_nil
    · exact hl
  · rcases h.trailing t hm with he | he <;> rw [he]
    · exact Trivia.quiet_nil
    · exact ht

theorem bare (h : Spells ts [] raw []) : ∀ t ∈ ts, t.leading = [] ∧ t.trailing = [] := by
  intro t hm
  exact ⟨(h.leading t hm).elim id id, (h.trailing t hm).elim id id⟩

end Spells

namespace Reading

variable (r : Reading) {leading trailing : List Trivia}

theorem spells_token {raw : Text} (h : raw ≠ []) (leading trailing : List Trivia) :
    Spells [r.token raw leading trailing] leading raw trailing := by
  constructor
  · simp [token, Token.literal, Token.render]
  · simp [token, Token.literal, h]
  · simp [token, Token.literal]
  · simp [token, Token.literal]

theorem spells_part {p : Piece} (h : p.Solid) (leading trailing : List Trivia) :
    Spells (r.part leading trailing p).tokens leading p.text trailing := by
  cases p with
  | literal t => simpa [part, Piece.text] using r.spells_token h leading trailing
  | placeholder name =>
    have hn : name ≠ [] := h
    constructor
    · simp [part, Node.ofPlaceholder, Node.toElement, Piece.text, Token.plain, Token.render]
    · simp [part, Node.ofPlaceholder, Node.toElement, Token.plain, hn]
    · simp [part, Node.ofPlaceholder, Node.toElement, Token.plain]
    · simp [part, Node.ofPlaceholder, Node.toElement, Token.plain]

theorem spells_parts (leading trailing : List Trivia) {ps : List Piece} (hs : ∀ p ∈ ps, p.Solid)
    (hp : ps ≠ []) :
    Spells (Element.tokensAll (r.parts leading trailing ps)) leading (ps.flatMap Piece.text)
      trailing := by
  fun_induction parts r leading trailing ps with
  | case1 => exact absurd rfl hp
  | case2 leading p =>
    simpa using r.spells_part (hs p List.mem_cons_self) leading trailing
  | case3 leading p ps hps ih =>
    have h₁ := r.spells_part (hs p List.mem_cons_self) leading []
    have h₂ := ih (fun q hq => hs q (List.mem_cons_of_mem p hq)) (by simpa using hps)
    simp only [Element.tokensAll_cons, List.flatMap_cons]
    constructor
    · simp [h₁.render, h₂.render]
    · intro t ht
      exact (List.mem_append.1 ht).elim (h₁.present t) (h₂.present t)
    · intro t ht
      rcases List.mem_append.1 ht with ht | ht
      · exact h₁.leading t ht
      · exact .inl ((h₂.leading t ht).elim id id)
    · intro t ht
      rcases List.mem_append.1 ht with ht | ht
      · exact .inl ((h₁.trailing t ht).elim id id)
      · exact h₂.trailing t ht

theorem spells_interpolated {raw : Text} (h : raw ≠ []) (leading trailing : List Trivia) :
    Spells (r.interpolated raw leading trailing).toElement.tokens leading raw trailing := by
  have hp : Piece.split raw ≠ [] := by
    intro he
    exact h (by rw [← Piece.text_split raw, he]; rfl)
  have hs := r.spells_parts leading trailing (Piece.solid_split raw) hp
  rw [Piece.text_split] at hs
  simpa [interpolated, Node.ofParts, Node.toElement] using hs

/-- A text is spelled by its tokens, in an outline or not. -/
theorem spells_text (outline : Bool) {raw : Text} (h : raw ≠ [])
    (leading trailing : List Trivia) :
    Spells (r.text outline raw leading trailing).toElement.tokens leading raw trailing := by
  cases outline with
  | true => exact r.spells_interpolated h leading trailing
  | false => simpa [text, Node.ofLiterals, Node.toElement] using r.spells_token h leading trailing

theorem leaves_part (leading trailing : List Trivia) (p : Piece) :
    (r.part leading trailing p).leaves = (r.part leading trailing p).tokens.map .token := by
  cases p <;> simp [part, Node.ofPlaceholder, Node.toElement, Element.leaves_node, Element.isText]

theorem leavesAll_parts (leading trailing : List Trivia) (ps : List Piece) :
    Element.leavesAll false (r.parts leading trailing ps) =
      (Element.tokensAll (r.parts leading trailing ps)).map .token := by
  fun_induction parts r leading trailing ps with
  | case1 => simp
  | case2 leading p => simp [leaves_part]
  | case3 leading p ps hps ih => simp [leaves_part, ih]

theorem leaves_interpolated (raw : Text) (leading trailing : List Trivia) :
    (r.interpolated raw leading trailing).leaves =
      (r.interpolated raw leading trailing).toElement.tokens.map .token := by
  have hk : (r.interpolated raw leading trailing).kind ≠ .docString := by
    simp [interpolated, Node.ofParts]
  rw [Node.leaves_of_ne hk]
  simp [interpolated, Node.ofParts, Node.toElement, leavesAll_parts]

theorem leaves_text (outline : Bool) (raw : Text) (leading trailing : List Trivia) :
    (r.text outline raw leading trailing).leaves =
      (r.text outline raw leading trailing).toElement.tokens.map .token := by
  cases outline with
  | true => exact r.leaves_interpolated raw leading trailing
  | false =>
    simp [text, Node.leaves, Node.ofLiterals, Node.toElement, Element.leaves_node, Element.isText]

theorem isText_text (outline : Bool) (raw : Text) (leading trailing : List Trivia) :
    (r.text outline raw leading trailing).toElement.isText = true := by
  cases outline <;> rfl

/-- There are no doc strings inside a text. -/
theorem bodies_text (outline : Bool) (raw : Text) (leading trailing : List Trivia) (o : Nat) :
    (r.text outline raw leading trailing).toElement.bodies o = [] := by
  rw [List.eq_nil_iff_forall_not_mem]
  intro s hs
  have h := (Element.mem_bodies_leaves s o _).2 hs
  change s ∈ Leaf.bodies o (r.text outline raw leading trailing).leaves at h
  rw [leaves_text, Leaf.bodies_map_token] at h
  cases h

end Reading

end GherkinTree
