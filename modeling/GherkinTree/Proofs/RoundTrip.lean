import GherkinTree.Proofs.Preamble

/-!
No text is lost. Every move of the reader hands each character on exactly once: from the lines to
the pending trivia, and from there and from the lines to the tokens. Main statement: the tokens of a
document with their trivia, written one behind the other, are the document.
-/

namespace GherkinTree

variable {d : Dialect} {s s' : Scope} {c c' : Cursor} {ls : List Leaf} {fs : List Fate}

theorem Line.join_append (ls ms : List Line) : join (ls ++ ms) = join ls ++ join ms :=
  List.flatMap_append

/-- The text that a cursor has not handed to tokens yet. -/
def Cursor.text (c : Cursor) : Text := Trivia.render c.pending ++ Line.join c.lines

theorem Cursor.text_advance (c : Cursor) : c.advance.text = c.text := by
  rw [text, pending_advance, Trivia.render_append, lines_advance, List.append_assoc,
    render_cutTrivia, text]

/-- The line ahead and what is pending in front of it. -/
theorem Dialect.text_of_peek? {a : Ahead} (h : d.peek? c = some a) :
    c.text = Trivia.render a.cursor.pending ++ (a.line.full ++ Line.join a.cursor.lines.tail) := by
  have hf := fits_of_peek? h
  rw [← c.text_advance, ← hf.cursor, Cursor.text, hf.lines]
  rfl

/-- A move hands text on and keeps all of it. -/
theorem Move.render (h : Move d s c ls fs s' c') :
    Token.renderAll (Leaf.tokensAll ls) ++ c'.text = c.text := by
  cases h with
  | advance => exact c.text_advance
  | skip ahead =>
    rw [Dialect.text_of_peek? ahead]
    simp [Cursor.text, Ahead.skip, Line.render_pieces]
  | keep ahead _ kept =>
    rw [Dialect.text_of_peek? ahead, Leaf.tokensAll_map_token, kept.render]
    simp [Cursor.text]
  | imply => simp [Cursor.text, Leaf.tokens, Token.absent, Token.render]
  | content _ pending lines leaf =>
    rcases leaf with ⟨rfl, hj⟩ | ⟨e, rfl, he⟩
    · simp [Cursor.text, lines, hj, Line.join_append]
    · simp [Cursor.text, lines, pending, Leaf.tokens, Element.renderAll_tokens, he.render,
        Line.join_append]
  | unclosed => simp [Cursor.text, Leaf.tokens, Token.absent, Token.render]

theorem Run.render (h : Run d s c ls fs s' c') :
    Token.renderAll (Leaf.tokensAll ls) ++ c'.text = c.text := by
  induction h with
  | done => rfl
  | move first _ ih =>
    rw [Leaf.tokensAll_append, Token.renderAll_append, List.append_assoc, ih, first.render]

/-- The tree of a document writes the document. -/
theorem render_root_parse (d : Dialect) (source : Text) :
    Token.renderAll (Leaf.tokensAll (parse d source).root.leaves) = source := by
  obtain ⟨ls, fs, s, c, hrun, hlines, -, hleaves⟩ := exists_run d source
  have hrender := hrun.render
  rw [Cursor.text, hlines, Line.join_nil, List.append_nil, Cursor.text, Preamble.cursor,
    Preamble.render_read, Line.join_split] at hrender
  rw [hleaves, Leaf.tokensAll_append, Token.renderAll_append, ← hrender]
  simp [Leaf.tokens, Token.plain, Token.render]

/-- Reading loses nothing: the tokens of a document in the order of its tree, each with the trivia
on both sides of it, are the document, and so the tree is as wide as the document. -/
theorem FeatureFile.render_parse (o : Options) (text : Text) :
    ((parse o text).root.descendantTokens.flatMap fun t =>
        Trivia.render t.token.leading ++ t.token.text ++ Trivia.render t.token.trailing) = text ∧
      (parse o text).tree.render = text ∧
      (parse o text).tree.fullWidth = Text.width text := by
  have htokens : Token.renderAll (Element.tokensAll (parse o text).tree.children) = text := by
    have h := render_root_parse o.dialect text
    rwa [Node.leaves, Element.tokensAll_leaves, Node.toElement, Element.tokens_node] at h
  have hrender : (parse o text).tree.render = text := by
    rw [Node.render, ← Element.renderAll_tokensAll, htokens]
  refine ⟨?_, hrender, by rw [← Node.width_render, hrender]⟩
  have hsites := congrArg (List.flatMap fun x : Nat × Token => x.2.render)
    (parse o text).root.sites_descendantTokens
  rw [List.flatMap_map] at hsites
  exact hsites.trans ((Token.renderAll_sites _ _).trans htokens)

end GherkinTree
