import GherkinTree.Proofs.Accessor
import GherkinTree.Proofs.Anatomy
import GherkinTree.Proofs.Tiling

/-!
The tokens at the two ends of a node. Going down to the first child reaches the first token of a
walk if no node below is empty, and likewise for the last. Main statement: the text of a node is
what its tokens write between the trivia in front of the first and the trivia behind the last.
-/

namespace GherkinTree

namespace PlacedNode

/-- The node and all nodes under it have children. -/
def Filled (n : PlacedNode) : Prop := n.MeetsBelow fun _ _ m => m.children ≠ []

variable {n m : PlacedNode}

theorem Filled.children_ne_nil (h : n.Filled) : n.children ≠ [] := by
  have hne := ((meetsBelow_iff n).1 h).1
  cases hc : n.node.children with
  | nil => exact absurd hc hne
  | cons e es => simp [children, childrenFrom, hc]

theorem Filled.child (h : n.Filled) (hm : .node m ∈ n.children) : m.Filled :=
  ((meetsBelow_iff n).1 h).2 m (List.mem_filterMap.2 ⟨_, hm, rfl⟩)

theorem walkTokens_append (as bs : List PlacedElement) :
    walkTokens (as ++ bs) = walkTokens as ++ walkTokens bs := by
  fun_induction walkTokens as with
  | case1 => rfl
  | case2 t stack ih => rw [List.cons_append, walkTokens, ih, List.cons_append]
  | case3 n stack ih => rw [List.cons_append, walkTokens, ← List.append_assoc, ih]

theorem descendantTokens_eq (n : PlacedNode) : n.descendantTokens = walkTokens n.children := by
  rw [descendantTokens, walkTokens, List.append_nil]

/-- The first token of a node is the first that a walk finds. -/
theorem head?_descendantTokens (h : n.Filled) :
    ∃ t, n.firstToken? = some t ∧ n.descendantTokens.head? = some t := by
  fun_induction firstToken? n with
  | case1 n hc => exact absurd (List.head?_eq_none_iff.1 hc) h.children_ne_nil
  | case2 n t hc =>
    obtain ⟨es, hes⟩ := List.head?_eq_some_iff.1 hc
    refine ⟨t, rfl, ?_⟩
    rw [descendantTokens_eq, hes, walkTokens, List.head?_cons]
  | case3 n m hc ih =>
    obtain ⟨es, hes⟩ := List.head?_eq_some_iff.1 hc
    obtain ⟨t, ht, hhead⟩ := ih (h.child (List.mem_of_mem_head? hc))
    refine ⟨t, ht, ?_⟩
    rw [descendantTokens_eq, hes, walkTokens, walkTokens_append, ← descendantTokens_eq,
      List.head?_append, hhead, Option.some_or]

/-- The last token of a node is the last that a walk finds. -/
theorem getLast?_descendantTokens (h : n.Filled) :
    ∃ t, n.lastToken? = some t ∧ n.descendantTokens.getLast? = some t := by
  fun_induction lastToken? n with
  | case1 n hc => exact absurd (List.getLast?_eq_none_iff.1 hc) h.children_ne_nil
  | case2 n t hc =>
    obtain ⟨es, hes⟩ := List.getLast?_eq_some_iff.1 hc
    refine ⟨t, rfl, ?_⟩
    rw [descendantTokens_eq, hes, walkTokens_append, walkTokens, walkTokens, List.getLast?_concat]
  | case3 n m hc ih =>
    obtain ⟨es, hes⟩ := List.getLast?_eq_some_iff.1 hc
    obtain ⟨t, ht, hlast⟩ := ih (h.child (List.mem_of_getLast? hc))
    refine ⟨t, ht, ?_⟩
    rw [descendantTokens_eq, hes, walkTokens_append, ← descendantTokens, List.getLast?_append,
      hlast, Option.some_or]

theorem Filled.tokens_ne_nil (h : n.Filled) : Element.tokensAll n.node.children ≠ [] := by
  obtain ⟨t, -, ht⟩ := head?_descendantTokens h
  rw [← map_token_descendantTokens]
  intro hnil
  rw [List.map_eq_nil_iff.1 hnil] at ht
  cases ht

end PlacedNode

namespace Token

theorem offset_of_head?_sites {o : Nat} {ts : List Token} {x : Nat × Token}
    (h : (sites o ts).head? = some x) : x.1 = o := by
  cases ts with
  | nil => cases h
  | cons t ts =>
    cases h
    rfl

theorem stop_of_getLast?_sites {o : Nat} {ts : List Token} {x : Nat × Token}
    (h : (sites o ts).getLast? = some x) : x.1 + x.2.fullWidth = o + widthAll ts := by
  rcases List.eq_nil_or_concat ts with rfl | ⟨us, t, rfl⟩
  · cases h
  · rw [List.concat_eq_append, sites_append, sites_cons, sites_nil, List.getLast?_concat] at h
    cases h
    rw [List.concat_eq_append, widthAll_append, widthAll_cons, widthAll_nil]
    exact Nat.add_assoc _ _ _

end Token

namespace PlacedNode

variable {n : PlacedNode} {first last : Token} {raw : Text}

/-- The text of a node is what its tokens write between the trivia at the two ends. -/
theorem text_eq_of_render (h : n.Filled)
    (hfirst : (Element.tokensAll n.node.children).head? = some first)
    (hlast : (Element.tokensAll n.node.children).getLast? = some last)
    (hrender : Token.renderAll (Element.tokensAll n.node.children) =
      Trivia.render first.leading ++ raw ++ Trivia.render last.trailing) : n.text = raw := by
  obtain ⟨t, ht, hhead⟩ := head?_descendantTokens h
  obtain ⟨u, hu, hgetLast⟩ := getLast?_descendantTokens h
  have hsites := n.sites_descendantTokens
  have htokens := n.map_token_descendantTokens
  have htok : t.token = first := by
    rw [← htokens, List.head?_map, hhead] at hfirst
    exact Option.some.inj hfirst
  have hutok : u.token = last := by
    rw [← htokens, List.getLast?_map, hgetLast] at hlast
    exact Option.some.inj hlast
  have hoffset : t.offset = n.offset := by
    have hsite : (Token.sites n.offset (Element.tokensAll n.node.children)).head? =
        some t.site := by
      rw [← hsites, List.head?_map, hhead, Option.map_some]
    exact Token.offset_of_head?_sites hsite
  have hstop : u.offset + u.token.fullWidth =
      n.offset + Token.widthAll (Element.tokensAll n.node.children) := by
    refine Token.stop_of_getLast?_sites (x := u.site) ?_
    rw [← hsites, List.getLast?_map, hgetLast, Option.map_some]
  have hwidth : Token.widthAll (Element.tokensAll n.node.children) =
      Trivia.widthOf first.leading + Text.width raw + Trivia.widthOf last.trailing := by
    simp [Token.widthAll, hrender, Nat.add_assoc]
  have hfull : n.fullText =
      Trivia.render first.leading ++ (raw ++ Trivia.render last.trailing) := by
    rw [fullText, Node.render, ← Element.renderAll_tokensAll, hrender, List.append_assoc]
  have hstart : n.span.start = n.offset + Trivia.widthOf first.leading := by
    simp [span, ht, PlacedToken.span, hoffset, Token.leadingWidth, htok]
  have hspan : n.span.width = Text.width raw := by
    have hend : u.offset + u.token.leadingWidth + u.token.width =
        n.offset + Trivia.widthOf first.leading + Text.width raw := by
      rw [hwidth, Token.fullWidth, Token.trailingWidth, hutok] at hstop
      rw [hutok]
      omega
    have : n.span.stop = max (u.offset + u.token.leadingWidth + u.token.width) n.span.start := by
      simp [span, ht, hu, PlacedToken.span]
    rw [Span.width, this, hstart, hend]
    omega
  have hdrop : n.fullText.dropBytes? (n.span.start - n.offset) =
      some (raw ++ Trivia.render last.trailing) :=
    Text.dropBytes?_eq_some_iff.2 ⟨_, hfull, by rw [hstart, Trivia.width_render]; omega⟩
  have htake : (raw ++ Trivia.render last.trailing).takeBytes? n.span.width = some raw :=
    Text.takeBytes?_eq_some_iff.2 ⟨⟨_, rfl⟩, hspan.symm⟩
  simp only [text, hdrop, Option.bind_eq_bind, Option.bind_some, htake, Option.getD_some]

/-- The text of a node that holds a single token is the text of the token. -/
theorem text_eq_of_token {t : Token} (h : n.Filled)
    (ht : Element.tokensAll n.node.children = [t]) : n.text = t.text := by
  refine text_eq_of_render h (by rw [ht, List.head?_cons]) (by rw [ht, List.getLast?_singleton]) ?_
  rw [ht, Token.renderAll_cons, Token.renderAll_nil, List.append_nil, Token.render]

end PlacedNode

theorem Node.IsText.children_ne_nil {n : Node} {k : Kind} {outline : Bool}
    (h : n.IsText k outline) : n.children ≠ [] := by
  cases h with
  | plain => simp [ofLiterals]
  | pieces hne => exact hne

/-- A node of any form has children. -/
theorem Node.Form.children_ne_nil {n : Node} {above : Option Kind}
    (h : n.Form above) : n.children ≠ [] := by
  cases h with
  | text h => exact h.children_ne_nil
  | stepText h =>
    cases h with
    | lacking => simp [ofLiterals]
    | found h => exact h.children_ne_nil
  | table h =>
    cases h with
    | mk hne => simpa [ofTable] using hne
  | tags h =>
    cases h with
    | mk hne => simpa [ofTags] using hne
  | description h =>
    cases h with
    | mk hne => simpa [ofDescription] using hne
  -- all others have a token or a node of their own
  | placeholder h | contentType h | row h | docString h | step h | document h | background h
  | examples h | scenario h | rule h | feature h =>
    cases h
    simp [ofPlaceholder, ofContentType, ofRow, ofDocString, ofStep, ofDocument, ofBackground,
      ofExamples, ofScenario, ofRule, ofFeature, Header.elements]
  | cell h => cases h <;> simp [ofCell]

/-- No node of a document is empty. -/
theorem FeatureFile.filled_root (o : Options) (text : Text) : (parse o text).root.Filled := by
  refine (PlacedNode.forall_descendants_iff (parse o text).root).1 fun m hm => ?_
  exact (formed_of_mem_descendants hm).children_ne_nil

end GherkinTree
