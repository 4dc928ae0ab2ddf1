import GherkinTree.Proofs.Form
import GherkinTree.Proofs.Layout
import GherkinTree.Proofs.Survey

/-!
What the lines of a document are cut into. A token has a text exactly if the source has the token,
only the content of a doc string runs over several lines, and texts are cut off from the blanks
around them. Main statements: each kind of line becomes tokens that stand `Along` it and are
`Worded`.
-/

namespace GherkinTree

open Element

/-- Whether the text of a token below a node may begin or end with blanks: the content of a doc
string, the name of a placeholder, and the runs of a text that is cut at its placeholders. -/
def Kind.keepsBlanks (above : Option Kind) : Kind → Bool
  | .docStringContentToken | .identifierToken => true
  | .literalToken | .tableLiteralToken => above == some .interpolatedText
  | _ => false

theorem Kind.keepsBlanks_of_isLiteral {k : Kind} (h : k.isLiteral = true) :
    k.keepsBlanks (some .interpolatedText) = true := by cases k <;> first | rfl | cases h

namespace Token

/-- A token in front of the end of the file whose text is what its kind says. -/
structure Worded (above : Option Kind) (t : Token) : Prop where
  inside : t.kind ≠ .endOfFileToken
  empty : t.text = [] ↔ t.missing = true
  oneLine : '\n' ∈ t.text → t.kind = .docStringContentToken
  trimmed : t.kind.keepsBlanks above = false → t.text.Trimmed

variable {above : Option Kind} {k : Kind} {t : Text} {leading trailing : List Trivia}

theorem worded_plain (hk : k ≠ .endOfFileToken) (hne : t ≠ []) (hn : '\n' ∉ t) (ht : t.Trimmed) :
    (plain k t leading trailing).Worded above :=
  ⟨hk, by simp [plain, hne], fun h => absurd h hn, fun _ => ht⟩

/-- A token that is one character. -/
theorem worded_mark {c : Char} (hk : k ≠ .endOfFileToken) (hc : Text.isBlank c = false) :
    (plain k [c] leading trailing).Worded above := by
  refine worded_plain hk (List.cons_ne_nil c []) ?_
    (Text.trimmed_of_forall (List.forall_mem_singleton.2 hc))
  intro hn
  rw [← List.mem_singleton.1 hn] at hc
  revert hc
  decide

theorem worded_absent (hk : k ≠ .endOfFileToken) : (absent k leading trailing).Worded above :=
  ⟨hk, by simp [absent], nofun, fun _ => Text.trimmed_nil⟩

end Token

namespace Element

theorem tokensAll_map_token (ts : List Token) : tokensAll (ts.map .token) = ts := by
  induction ts with
  | nil => simp
  | cons t ts ih => simp [ih]

/-- The tokens under elements are worded. -/
def WordedAll (above : Option Kind) (es : List Element) : Prop :=
  ∀ o, ∀ x ∈ heldAll above o es, x.2.2.Worded x.1

namespace WordedAll

variable {above : Option Kind} {k : Kind} {as bs : List Element} {t : Token}

theorem nil : WordedAll above [] := fun o => by simp

theorem append (ha : WordedAll above as) (hb : WordedAll above bs) :
    WordedAll above (as ++ bs) := by
  intro o
  rw [heldAll_append]
  exact List.forall_mem_append.2 ⟨ha o, hb _⟩

theorem token (h : t.Worded above) : WordedAll above [.token t] := fun o => by simpa using h

theorem tokens {ts : List Token} (h : ∀ t ∈ ts, t.Worded above) :
    WordedAll above (ts.map .token) := by
  intro o x hx
  rw [heldAll_map_token] at hx
  obtain ⟨y, hy, rfl⟩ := List.mem_map.1 hx
  exact h y.2 (Token.mem_of_mem_sites hy)

theorem node (h : WordedAll (some k) as) : WordedAll above [.node k as] := fun o => by
  simpa using h o

end WordedAll

end Element

namespace Piece

variable {p : Piece} {t name : Text} {c : Char}

theorem mem_of_mem_text (hp : p ∈ split t) (hc : c ∈ p.text) : c ∈ t := by
  rw [← text_split t]
  exact List.mem_flatMap.2 ⟨p, hp, hc⟩

theorem isNameChar_of_name? {rest : Text} (h : name? t = some (name, rest)) :
    ∀ c ∈ name, isNameChar c = true := by
  unfold name? at h
  split at h
  · rename_i hname hrest
    cases h
    rw [← hname]
    exact List.all_eq_true.1 List.all_takeWhile
  · cases h

theorem mem_of_placeholder_mem_cons {ps : List Piece} (h : placeholder name ∈ cons c ps) :
    placeholder name ∈ ps := by
  cases ps with
  | nil => simp [cons] at h
  | cons q ps => cases q <;> simpa [cons] using h

theorem isNameChar_of_mem_split (h : placeholder name ∈ split t) :
    ∀ c ∈ name, isNameChar c = true := by
  fun_induction split t with
  | case1 => cases h
  | case2 t found rest hfound ih =>
    rcases List.mem_cons.1 h with he | h
    · cases he
      exact isNameChar_of_name? hfound
    · exact ih h
  | case3 t hnone ih => exact ih (mem_of_placeholder_mem_cons h)
  | case4 c t hc ih => exact ih (mem_of_placeholder_mem_cons h)

end Piece

namespace Reading

open Trivia Token

variable (r : Reading) {above : Option Kind} {raw : Text} {leading trailing : List Trivia}

theorem worded_token (hk : r.kind.isLiteral = true) (hne : raw ≠ [])
    (hone : '\n' ∈ raw → r.kind = .docStringContentToken)
    (htrim : r.kind.keepsBlanks above = false → raw.Trimmed) :
    (r.token raw leading trailing).Worded above := by
  refine ⟨?_, by simp [token, literal, hne], hone, htrim⟩
  intro he
  rw [show r.kind = .endOfFileToken from he] at hk
  cases hk

/-- The pieces of a text keep their blanks. -/
theorem worded_part (hk : r.kind.isLiteral = true)
    (hone : '\n' ∈ raw → r.kind = .docStringContentToken) {p : Piece} (hp : p ∈ Piece.split raw) :
    WordedAll (some .interpolatedText) [r.part leading trailing p] := by
  have hsolid := Piece.solid_split raw p hp
  unfold Piece.Solid at hsolid
  cases p with
  | literal t =>
    refine .token (r.worded_token hk hsolid (fun h => hone (Piece.mem_of_mem_text hp h)) ?_)
    intro hkeeps
    rw [Kind.keepsBlanks_of_isLiteral hk] at hkeeps
    cases hkeeps
  | placeholder name =>
    have hname : '\n' ∉ name := by
      intro hn
      have hchar := Piece.isNameChar_of_mem_split hp _ hn
      revert hchar
      decide
    have hidentifier : (plain .identifierToken name [] []).Worded (some .interpolation) :=
      ⟨nofun, by simpa [plain] using hsolid, fun hn => absurd hn hname, nofun⟩
    have htokens : ∀ t ∈ [plain .lessThanToken ['<'] leading [], plain .identifierToken name [] [],
        plain .greaterThanToken ['>'] [] trailing], t.Worded (some .interpolation) := by
      simp only [List.forall_mem_cons]
      exact ⟨worded_mark (by simp) (by decide), hidentifier, worded_mark (by simp) (by decide),
        List.forall_mem_nil _⟩
    exact .node (.tokens htokens)

theorem worded_parts (hk : r.kind.isLiteral = true) (ps : List Piece)
    (hone : '\n' ∈ raw → r.kind = .docStringContentToken) (hp : ∀ p ∈ ps, p ∈ Piece.split raw) :
    WordedAll (some .interpolatedText) (r.parts leading trailing ps) := by
  fun_induction parts r leading trailing ps with
  | case1 => exact .nil
  | case2 leading p => exact r.worded_part hk hone (hp p List.mem_cons_self)
  | case3 leading p ps hps ih =>
    obtain ⟨hp, hps⟩ := List.forall_mem_cons.1 hp
    exact (r.worded_part hk hone hp).append (ih hps)

theorem worded_interpolated (hk : r.kind.isLiteral = true)
    (hone : '\n' ∈ raw → r.kind = .docStringContentToken) :
    WordedAll above [(r.interpolated raw leading trailing).toElement] :=
  .node (r.worded_parts hk _ hone fun _ h => h)

/-- A text that is not cut at its placeholders is cut off from the blanks around it. -/
theorem worded_text (hk : r.kind.isLiteral = true) (outline : Bool) (hne : raw ≠ [])
    (hone : '\n' ∈ raw → r.kind = .docStringContentToken)
    (htrim : r.kind ≠ .docStringContentToken → raw.Trimmed) :
    WordedAll above [(r.text outline raw leading trailing).toElement] := by
  cases outline with
  | true => exact r.worded_interpolated hk hone
  | false =>
    refine .node (.token (r.worded_token hk hne hone fun hkeeps => htrim ?_))
    intro he
    rw [he] at hkeeps
    cases hkeeps

/-- A placeholder is cut into its two marks and the name between them. -/
theorem tokens_part_placeholder (name : Text) :
    (r.part leading trailing (.placeholder name)).tokens =
      [plain .lessThanToken ['<'] leading [], plain .identifierToken name [] [],
        plain .greaterThanToken ['>'] [] trailing] := by
  simp [part, Node.ofPlaceholder, Node.toElement]

theorem along_parts (leading : List Trivia) {inner : List Trivia} (hi : Inline inner)
    (lineBreak : Text) {ps : List Piece} (h : ps ≠ []) :
    Along lineBreak leading
      (tokensAll (r.parts leading (inner ++ piece .newline lineBreak) ps)) := by
  generalize htrailing : inner ++ piece .newline lineBreak = trailing
  fun_induction parts r leading trailing ps with
  | case1 => exact absurd rfl h
  | case2 leading p =>
    cases p with
    | literal t =>
      simp only [part, tokensAll_cons, tokens_token, tokensAll_nil, List.append_nil]
      exact .single rfl htrailing.symm hi
    | placeholder name =>
      rw [tokensAll_cons, tokens_part_placeholder]
      exact .cons rfl inline_nil inline_nil
        (.cons rfl inline_nil inline_nil (.single rfl htrailing.symm hi))
  | case3 leading p ps hps ih =>
    have ih := ih (by simpa using hps)
    cases p with
    | literal t =>
      simp only [part, tokensAll_cons, tokens_token, List.cons_append, List.nil_append]
      exact .cons rfl inline_nil inline_nil ih
    | placeholder name =>
      rw [tokensAll_cons, tokens_part_placeholder]
      exact .cons rfl inline_nil inline_nil
        (.cons rfl inline_nil inline_nil (.cons rfl inline_nil inline_nil ih))

/-- The tokens of a text at the end of a line. -/
theorem along_text (outline : Bool) (hne : raw ≠ []) (leading : List Trivia) {inner : List Trivia}
    (hi : Inline inner) (lineBreak : Text) :
    Along lineBreak leading
      (r.text outline raw leading (inner ++ piece .newline lineBreak)).toElement.tokens := by
  cases outline with
  | true =>
    simpa [text, interpolated, Node.ofParts, Node.toElement] using
      r.along_parts leading hi lineBreak (split_ne_nil hne)
  | false =>
    simp only [text, Bool.false_eq_true, if_false, Node.ofLiterals, Node.toElement, tokens_node,
      List.map_cons, List.map_nil, tokensAll_cons, tokens_token, tokensAll_nil, List.append_nil]
    exact .single rfl rfl hi

end Reading

end GherkinTree
