import GherkinTree.Proofs.Decoding
import GherkinTree.Proofs.Edge
import GherkinTree.Proofs.Survey

/-!
How the texts of a document are read. A raw text becomes one token or, cut at its placeholders,
several. Main statements: the tokens stand for the decoded text but for the names of placeholders,
the text of the node is the raw text, and every cell, every doc string and the text of every step
has been read from some raw text.
-/

namespace GherkinTree

open Element Grammar

namespace Piece

variable (r : Reading)

theorem flatMap_value_part (leading trailing : List Trivia) (p : Piece) :
    (r.part leading trailing p).tokens.flatMap Token.value = p.value r.decode := by
  cases p <;> simp [Reading.part, Reading.token, Node.ofPlaceholder, Node.toElement, value, text]

theorem names_part (hk : r.kind ≠ .identifierToken) (leading trailing : List Trivia) (p : Piece) :
    ((r.part leading trailing p).tokens.filter (·.kind == .identifierToken)).map (·.text) =
      [p].filterMap placeholder? := by
  cases p <;> simp [Reading.part, Reading.token, Node.ofPlaceholder, Node.toElement, placeholder?,
    Token.literal, Token.plain, hk]

end Piece

namespace Reading

variable (r : Reading)

theorem flatMap_value_parts (leading trailing : List Trivia) (ps : List Piece) :
    (tokensAll (r.parts leading trailing ps)).flatMap Token.value =
      ps.flatMap (Piece.value r.decode) := by
  fun_induction parts r leading trailing ps with
  | case1 => simp
  | case2 leading p => simp [Piece.flatMap_value_part]
  | case3 leading p ps hps ih => simp [Piece.flatMap_value_part, ih]

theorem names_parts (hk : r.kind ≠ .identifierToken) (leading trailing : List Trivia)
    (ps : List Piece) :
    ((tokensAll (r.parts leading trailing ps)).filter (·.kind == .identifierToken)).map (·.text) =
      ps.filterMap Piece.placeholder? := by
  fun_induction parts r leading trailing ps with
  | case1 => simp
  | case2 leading p => simpa using Piece.names_part r hk leading trailing p
  | case3 leading p ps hps ih =>
    rw [tokensAll_cons, List.filter_append, List.map_append, Piece.names_part r hk, ih,
      ← List.filterMap_append, List.singleton_append]

theorem ends_part (leading trailing : List Trivia) (p : Piece) :
    (∃ t ts, (r.part leading trailing p).tokens = t :: ts ∧ t.leading = leading) ∧
      ∃ ts t, (r.part leading trailing p).tokens = ts ++ [t] ∧ t.trailing = trailing := by
  cases p with
  | literal t => exact ⟨⟨_, [], tokens_token _, rfl⟩, ⟨[], _, tokens_token _, rfl⟩⟩
  | placeholder name =>
    simp only [part, Node.ofPlaceholder, Node.toElement, tokens_node, tokensAll_cons, tokens_token,
      tokensAll_nil]
    exact ⟨⟨_, _, rfl, rfl⟩, ⟨[_, _], _, rfl, rfl⟩⟩

/-- The first token of a text takes the trivia in front of it, and the last the trivia behind it. -/
theorem ends_parts (leading trailing : List Trivia) {ps : List Piece} (h : ps ≠ []) :
    (∃ t ts, tokensAll (r.parts leading trailing ps) = t :: ts ∧ t.leading = leading) ∧
      ∃ ts t, tokensAll (r.parts leading trailing ps) = ts ++ [t] ∧ t.trailing = trailing := by
  fun_induction parts r leading trailing ps with
  | case1 => exact absurd rfl h
  | case2 leading p => simpa using r.ends_part leading trailing p
  | case3 leading p ps hps ih =>
    obtain ⟨⟨t, ts, hfirst, ht⟩, -⟩ := r.ends_part leading [] p
    obtain ⟨-, ⟨us, u, hlast, hu⟩⟩ := ih (by simpa using hps)
    rw [tokensAll_cons]
    refine ⟨⟨t, _, by rw [hfirst, List.cons_append], ht⟩, ?_⟩
    exact ⟨(r.part leading [] p).tokens ++ us, u, by rw [hlast, List.append_assoc], hu⟩

end Reading

/-- Elements that a text was read into. -/
inductive Reading.Reads (r : Reading) (raw : Text) : List Element → Prop where
  | whole (leading trailing : List Trivia) : Reads r raw [.token (r.token raw leading trailing)]
  | cut (leading trailing : List Trivia) : Reads r raw (r.parts leading trailing (Piece.split raw))

namespace Reading.Reads

variable {r : Reading} {raw : Text} {es : List Element}

theorem of_text (r : Reading) (outline : Bool) (raw : Text) (leading trailing : List Trivia) :
    r.Reads raw (r.text outline raw leading trailing).children := by
  cases outline with
  | true => exact .cut leading trailing
  | false => exact .whole leading trailing

/-- The elements stand for the decoded text, but for the names of placeholders. -/
theorem decodes (h : r.Reads raw es) (hd : Text.Decoder r.decode) (hk : r.kind ≠ .identifierToken) :
    Decodes r.decode raw (((tokensAll es).filter (·.kind == .identifierToken)).map (·.text))
      ((tokensAll es).flatMap Token.value) := by
  cases h with
  | whole leading trailing =>
    have hkind : ((r.token raw leading trailing).kind == .identifierToken) = false :=
      beq_false_of_ne hk
    have hvalue : (r.token raw leading trailing).value = r.decode raw := Token.value_literal ..
    simpa [hkind, hvalue] using Decodes.whole r.decode raw
  | cut leading trailing =>
    rw [flatMap_value_parts, names_parts r hk]
    exact .of_pieces hd (.inr rfl)

/-- The text of a node whose tokens a text was read into is that text. -/
theorem text_eq {n : PlacedNode} (h : r.Reads raw es) (hf : n.Filled)
    (hn : tokensAll n.node.children = tokensAll es) : n.text = raw := by
  cases h with
  | whole leading trailing =>
    rw [tokensAll_cons, tokens_token, tokensAll_nil, List.append_nil] at hn
    exact PlacedNode.text_eq_of_token hf hn
  | cut leading trailing =>
    have hsplit : Piece.split raw ≠ [] := by
      intro he
      refine hf.tokens_ne_nil ?_
      rw [hn, he, parts, tokensAll_nil]
    obtain ⟨⟨t, ts, hfirst, rfl⟩, ⟨us, u, hlast, rfl⟩⟩ := r.ends_parts leading trailing hsplit
    have hrender := (r.spells_parts t.leading u.trailing (Piece.solid_split raw) hsplit).render
    rw [Piece.text_split] at hrender
    exact PlacedNode.text_eq_of_render hf (by rw [hn, hfirst, List.head?_cons])
      (by rw [hn, hlast, List.getLast?_concat]) (hn ▸ hrender)

end Reading.Reads

namespace Node

/-- How the nodes with text were read. -/
structure Written (above : Option Kind) (n : Node) : Prop where
  cell : n.kind = .tableCell → ∃ outline c, n = Cell.node outline c
  docString : n.kind = .docString → ∃ f outline a, n = (Fence.docString f outline a).1
  stepText : above = some .step → ViewType.text.accepts n.kind = true →
    n = .ofLiterals [.absent .literalToken [] []] ∨
      ∃ outline raw trailing, n = Reading.stepText.text outline raw [] trailing

/-- A node that is neither a cell nor a doc string nor the text of a step. -/
theorem written_of_ne {above : Option Kind} {n : Node} {k : Kind} (hn : n.kind = k)
    (hc : k ≠ .tableCell) (hd : k ≠ .docString)
    (ht : above = some .step → ViewType.text.accepts k = false) : n.Written above where
  cell h := absurd (hn.symm.trans h) hc
  docString h := absurd (hn.symm.trans h) hd
  stepText ha hk := by rw [hn, ht ha] at hk; cases hk

end Node

/-- Whether nodes of a kind are pieces of lines, cells left aside. -/
def Kind.isPiece : Kind → Bool
  | .tableRow | .literalText | .interpolatedText | .interpolation | .docStringContentType => true
  | _ => false

/-- A condition on the nodes that lines are read into, doc strings and the texts of steps left
aside. -/
structure InLines (P : Option Kind → Nat → Node → Prop) : Prop where
  cell : ∀ outline o (c : Cell), P (some .tableRow) o (c.node outline)
  piece : ∀ above o n, above ≠ some .step → n.kind.isPiece = true → P above o n

namespace InLines

variable {P : Option Kind → Nat → Node → Prop} (h : InLines P) {above : Option Kind} {o : Nat}

include h

/-- The nodes of a text that meets the condition. -/
theorem textNode (r : Reading) (outline : Bool) (raw : Text) (leading trailing : List Trivia)
    (hp : P above o (r.text outline raw leading trailing)) :
    (r.text outline raw leading trailing).toElement.Everywhere P above o := by
  rw [Node.toElement, everywhere_node]
  refine ⟨hp, ?_⟩
  cases outline with
  | false => simp [Reading.text, Node.ofLiterals]
  | true =>
    refine everywhereAll_of_forall fun e he o => ?_
    cases r.isPart_of_mem_parts e he with
    | run ht => exact (everywhere_token _).2 trivial
    | placeholder hn =>
      rw [Node.toElement, everywhere_node]
      have hne : some (Reading.text r true raw leading trailing).kind ≠ some .step := by
        intro he
        cases he
      refine ⟨h.piece _ o _ hne (by rw [hn.kind_eq]; rfl), ?_⟩
      cases hn with
      | mk => simp [Node.ofPlaceholder]

/-- The nodes of a text below anything but a step. -/
theorem text (r : Reading) (hne : above ≠ some .step) (outline : Bool) (raw : Text)
    (leading trailing : List Trivia) :
    (r.text outline raw leading trailing).toElement.Everywhere P above o :=
  h.textNode r outline raw leading trailing (h.piece above o _ hne (by cases outline <;> rfl))

theorem cellNode (outline : Bool) (c : Cell) :
    (c.node outline).toElement.Everywhere P (some .tableRow) o := by
  rw [Node.toElement, everywhere_node]
  refine ⟨h.cell outline o c, ?_⟩
  simp only [Cell.node, Node.ofCell, everywhereAll_cons, everywhereAll_nil, and_true]
  split
  · exact (everywhere_token _).2 trivial
  · split
    · exact h.text Reading.cell (by decide) true c.raw _ _
    · exact (everywhere_token _).2 trivial

omit h in
theorem mem_cellsWithBars {outline : Bool} {last : Token} {cs : List Cell} :
    ∀ c ∈ Row.cellsWithBars outline last cs, ∃ x : Cell, c.1 = x.node outline := by
  fun_induction Row.cellsWithBars outline last cs with
  | case1 => exact List.forall_mem_nil _
  | case2 c => exact List.forall_mem_singleton.2 ⟨c, rfl⟩
  | case3 c cs hcs ih => exact List.forall_mem_cons.2 ⟨⟨c, rfl⟩, ih⟩

theorem row (outline : Bool) (leading lineEnd : List Trivia) (r : Row) :
    (r.node outline leading lineEnd).toElement.Everywhere P (some .table) o := by
  have hrow (bar : Token) (cells : List (Node × Token))
      (hcells : ∀ c ∈ cells, ∃ x : Cell, c.1 = x.node outline) :
      (Node.ofRow bar cells).toElement.Everywhere P (some .table) o := by
    rw [Node.toElement, everywhere_node]
    refine ⟨h.piece _ o _ (by decide) rfl, ?_⟩
    refine everywhereAll_of_forall fun e he o => ?_
    simp only [Node.ofRow, List.mem_cons, List.mem_flatMap, List.not_mem_nil, or_false] at he
    rcases he with rfl | ⟨c, hc, rfl | rfl⟩
    · exact (everywhere_token _).2 trivial
    · obtain ⟨x, hx⟩ := hcells c hc
      rw [hx]
      exact h.cellNode outline x
    · exact (everywhere_token _).2 trivial
  unfold Row.node
  split
  · exact hrow _ [] (List.forall_mem_nil _)
  · exact hrow _ _ mem_cellsWithBars

/-- The nodes of a doc string that meets the condition. -/
theorem docStringNode {f : Fence} {outline : Bool} {a : Ahead}
    (hd : P above o (f.docString outline a).1) :
    (f.docString outline a).1.toElement.Everywhere P above o := by
  have hkind : (f.docString outline a).1.kind = .docString := f.kind_docString outline a
  rw [Node.toElement, everywhere_node]
  refine ⟨hd, everywhereAll_of_forall fun e he o => ?_⟩
  simp only [f.docString_eq, Node.ofDocString, Node.optional, List.mem_append, List.mem_cons,
    List.mem_map, List.not_mem_nil, or_false, Option.mem_toList] at he
  rcases he with ((rfl | ⟨n, hn, rfl⟩) | ⟨n, hn, rfl⟩) | rfl
  · exact (everywhere_token _).2 trivial
  · simp only [Fence.contentType?, Option.ite_none_left_eq_some, Option.some.injEq] at hn
    obtain ⟨-, rfl⟩ := hn
    rw [Node.toElement, everywhere_node]
    exact ⟨h.piece _ o _ (by simp [hkind]) rfl, by simp [Node.ofContentType]⟩
  · simp only [Fence.content?, Option.ite_none_left_eq_some, Option.some.injEq] at hn
    obtain ⟨-, rfl⟩ := hn
    exact h.text _ (by simp [hkind]) outline _ _ _
  · exact (everywhere_token _).2 trivial

/-- The nodes of a title. -/
theorem title {d : Dialect} {a : Ahead} {m : KeywordMatch} (hne : above ≠ some .step)
    (hk : d.classify a.line.content = .keyword m) (hm : m.role.isStructural = true) :
    EverywhereAll P above o (titleLine m a).1.elements := by
  obtain ⟨-, -, hname⟩ := titleLine_present hk hm
  refine everywhereAll_of_forall fun e he o => ?_
  simp only [Title.elements, Node.optional, List.mem_append, List.mem_cons, List.mem_map,
    List.not_mem_nil, or_false, Option.mem_toList] at he
  rcases he with (rfl | rfl) | ⟨n, hn, rfl⟩
  · exact (everywhere_token _).2 trivial
  · exact (everywhere_token _).2 trivial
  · cases hname n hn with
    | plain ht =>
      rw [Node.toElement, everywhere_node]
      exact ⟨h.piece above o _ hne rfl, by simp [Node.ofLiterals]⟩

/-- The nodes of the line of a step whose text meets the condition. -/
theorem step {outline : Bool} {m : KeywordMatch} {a : Ahead}
    (htext : ∀ o, P (some .step) o (stepLine outline m a).2.1) :
    EverywhereAll P (some .step) o
      [.token (stepLine outline m a).1, (stepLine outline m a).2.1.toElement] := by
  rw [everywhereAll_cons, everywhereAll_cons, everywhereAll_nil, and_true]
  refine ⟨(everywhere_token _).2 trivial, ?_⟩
  simp only [stepLine] at htext ⊢
  split at htext
  · rename_i hempty
    rw [if_pos hempty]
    rw [Node.toElement, everywhere_node]
    exact ⟨htext _, by simp [Node.ofLiterals]⟩
  · rename_i hempty
    rw [if_neg hempty]
    exact h.textNode Reading.stepText outline _ _ _ (htext _)

end InLines

/-- Cells are written as they are read. -/
theorem Node.inLines_written : InLines fun above _ n => n.Written above where
  cell outline o c := ⟨fun _ => ⟨outline, c, rfl⟩, nofun, nofun⟩
  piece above o n hne hk := by
    refine written_of_ne rfl ?_ ?_ fun h => absurd h hne
    · intro he
      rw [he] at hk
      cases hk
    · intro he
      rw [he] at hk
      cases hk

/-- A doc string is written as it is read. -/
theorem Node.written_docString (f : Fence) (outline : Bool) (above : Option Kind) (a : Ahead) :
    (f.docString outline a).1.Written above := by
  have hkind := f.kind_docString outline a
  refine ⟨fun h => ?_, fun _ => ⟨f, outline, a, rfl⟩, fun _ h => ?_⟩
  · cases hkind.symm.trans h
  · rw [hkind] at h
    cases h

/-- The text of a step is lacking or read from what its line holds. -/
theorem Node.written_stepLine (outline : Bool) (m : KeywordMatch) (a : Ahead) :
    (stepLine outline m a).2.1.Written (some .step) := by
  simp only [stepLine]
  split
  · refine ⟨fun h => ?_, fun h => ?_, fun _ _ => .inl rfl⟩
    · cases h
    · cases h
  · refine ⟨fun h => ?_, fun h => ?_, fun _ _ => .inr ⟨_, _, _, rfl⟩⟩
    · cases outline <;> cases h
    · cases outline <;> cases h

namespace Survey

/-- Every cell, doc string and step text has been read from some raw text. -/
def writing : Survey where
  At := fun _ _ => True
  token := fun _ _ _ => True
  node := fun above _ n => n.Written above

variable {above : Option Kind} {o : Nat} {c : Cursor} {es : List Element}

theorem yields_writing (h : EverywhereAll (fun above _ n => n.Written above) above o es) :
    writing.Yields above o es c := ⟨fun _ _ => trivial, h, trivial⟩

theorem yields_tokens (ts : List Token) : writing.Yields above o (ts.map .token) c :=
  yields_writing (everywhereAll_of_forall (by simp))

theorem sound_writing (d : Dialect) : writing.Sound d where
  backward := backward_true
  advance _ := trivial
  skip _ := trivial
  tagLine _ _ := yields_tokens _
  textLine _ _ := yields_tokens [_]
  row {outline o a} h hk := by
    refine yields_writing ?_
    rw [everywhereAll_cons, everywhereAll_nil, and_true]
    exact Node.inLines_written.row outline _ _ _
  title {above o a m} hne h hk hm :=
    yields_writing (Node.inLines_written.title hne
      ((Dialect.fits_of_peek? h.ahead).kind.symm.trans hk) hm)
  stepLine {outline o a m} h hk hm :=
    yields_writing (Node.inLines_written.step fun _ => Node.written_stepLine outline m a)
  docString {outline o a f} h hk := by
    refine yields_writing ?_
    rw [everywhereAll_cons, everywhereAll_nil, and_true]
    exact Node.inLines_written.docStringNode (Node.written_docString f outline _ a)
  imply _ := yields_tokens [_, _]
  frame {above o k es} hk := by
    refine Node.written_of_ne rfl ?_ ?_ ?_
    · rintro rfl
      cases hk
    · rintro rfl
      cases hk
    · rintro rfl
      cases k <;> first | rfl | cases hk
  stepNode {outline above o a m} h hk hm := by
    rw [step_eq_stepLine]
    exact Node.written_of_ne (k := .step) rfl (by decide) (by decide) fun _ => rfl
  examplesNode {above o c} h hr := by
    rw [examples_eq_table?]
    exact Node.written_of_ne (k := .examples) rfl (by decide) (by decide) fun _ => rfl
  scenarioNode _ _ _ _ := Node.written_of_ne (k := .scenario) rfl (by decide) (by decide) fun _ => rfl

theorem closes_writing : writing.Closes := fun _ => yields_tokens [_]

end Survey

namespace FeatureFile

variable {o : Options} {text : Text} {n m : PlacedNode}

theorem written_of_mem_descendants (hm : m ∈ (parse o text).root.descendants) :
    m.node.Written m.kindAbove := by
  have hall : Survey.writing.Yields none 0 [(parse o text).tree.toElement] _ :=
    (Survey.sound_writing (parse o text).dialect).document Survey.closes_writing trivial
      trivial
  exact (PlacedNode.forall_descendants_iff (parse o text).root).2
    ((everywhereAll_cons _ _).1 hall.nodes).1 m hm

end FeatureFile

end GherkinTree
