import GherkinTree.Proofs.Carriage
import GherkinTree.Proofs.KeywordTable
import GherkinTree.Proofs.Value
import GherkinTree.Proofs.Words

/-!
What the views of a document read, whichever way its lines end. The only tokens that hold line
breaks are the contents of doc strings. Main statement: a document and the same document with a
carriage return in front of every line feed have the same tree but for line breaks and the content
of doc strings; their placeholders, tables, names and steps are the same, and so are their
diagnostics at the places that their own are moved to.
-/

namespace GherkinTree

open Element

namespace Element

variable (f : Token → Token)

mutual

theorem tokens_mapTokens : (e : Element) → (e.mapTokens f).tokens = e.tokens.map f
  | token t => by simp
  | node k es => by simp [tokensAll_mapTokensAll es]

theorem tokensAll_mapTokensAll : (es : List Element) →
    tokensAll (mapTokensAll f es) = (tokensAll es).map f
  | [] => by simp [mapTokensAll]
  | e :: es => by simp [mapTokensAll, tokens_mapTokens e, tokensAll_mapTokensAll es]

end

theorem nodesOf_mapTokensAll (es : List Element) :
    nodesOf (mapTokensAll f es) = (nodesOf es).map (Node.mapTokens f) := by
  induction es with
  | nil => rfl
  | cons e es ih =>
    cases e with
    | token t => simpa [mapTokensAll] using ih
    | node k cs =>
      rw [mapTokensAll, mapTokens_node]
      exact congrArg (⟨k, mapTokensAll f cs⟩ :: ·) ih

theorem tokensOf_mapTokensAll (es : List Element) :
    tokensOf (mapTokensAll f es) = (tokensOf es).map f := by
  induction es with
  | nil => rfl
  | cons e es ih =>
    cases e with
    | token t => simpa [mapTokensAll] using ih
    | node k cs =>
      rw [mapTokensAll, mapTokens_node]
      exact ih

end Element

section Mapped

variable {f : Token → Token} {n n' : PlacedNode} {ns ns' : List PlacedNode} {v : ViewType}

theorem PlacedNode.map_node_childNodes_of_eq (h : n'.node = n.node.mapTokens f) :
    n'.childNodes.map (·.node) = n.childNodes.map (·.node.mapTokens f) := by
  have hmap := congrArg (List.map (Node.mapTokens f)) n.map_node_childNodes
  rw [List.map_map] at hmap
  rw [map_node_childNodes, h, Node.mapTokens, nodesOf_mapTokensAll, ← hmap]
  rfl

/-- The nodes of a tree with all its tokens replaced. -/
theorem PlacedNode.map_node_walkNodes (h : ns'.map (·.node) = ns.map (·.node.mapTokens f)) :
    (walkNodes ns').map (·.node) = (walkNodes ns).map (·.node.mapTokens f) := by
  fun_induction walkNodes ns generalizing ns' with
  | case1 =>
    rw [List.map_eq_nil_iff.1 h, walkNodes]
    rfl
  | case2 n stack ih =>
    obtain ⟨n', stack', rfl, hn, hstack⟩ := List.map_eq_cons_iff.1 h
    have hnext : (n'.childNodes ++ stack').map (·.node) =
        (n.childNodes ++ stack).map (·.node.mapTokens f) := by
      rw [List.map_append, List.map_append, map_node_childNodes_of_eq hn, hstack]
    rw [walkNodes, List.map_cons, List.map_cons, ih hnext, hn]

/-- What is read off the views of nodes is the same if it is so for each of them. -/
theorem View.map_filterMap_cast? {α : Type} {q : View v → α}
    (h : ns'.map (·.node) = ns.map (·.node.mapTokens f))
    (hq : ∀ w w' : View v, w.node ∈ ns → w'.node ∈ ns' →
      w'.node.node = w.node.node.mapTokens f → q w' = q w) :
    (ns'.filterMap (cast? v)).map q = (ns.filterMap (cast? v)).map q := by
  induction ns generalizing ns' with
  | nil => rw [List.map_eq_nil_iff.1 h]
  | cons n ns ih =>
    obtain ⟨n', ns', rfl, hn, hns⟩ := List.map_eq_cons_iff.1 h
    have ih := ih hns fun w w' hw hw' =>
      hq w w' (List.mem_cons_of_mem n hw) (List.mem_cons_of_mem n' hw')
    have hkind : n'.kind = n.kind := (congrArg Node.kind hn).trans rfl
    by_cases hv : v.accepts n.kind = true
    · have hv' : v.accepts n'.kind = true := hkind ▸ hv
      have hhead := hq ⟨n, hv⟩ ⟨n', hv'⟩ List.mem_cons_self List.mem_cons_self hn
      simp only [List.filterMap_cons, cast?, hv, hv', dif_pos, List.map_cons, hhead]
      exact congrArg (q ⟨n, hv⟩ :: ·) ih
    · have hv' : ¬v.accepts n'.kind = true := hkind ▸ hv
      simp only [List.filterMap_cons, cast?, hv, hv'] at ih ⊢
      exact ih

theorem View.map_childrenOf {α : Type} {q : View v → α} (h : n'.node = n.node.mapTokens f)
    (hq : ∀ w w' : View v, w.node ∈ n.childNodes → w'.node ∈ n'.childNodes →
      w'.node.node = w.node.node.mapTokens f → q w' = q w) :
    (childrenOf v n').map q = (childrenOf v n).map q :=
  map_filterMap_cast? (PlacedNode.map_node_childNodes_of_eq h) hq

theorem View.map_childOf? {α : Type} {q : View v → α} (h : n'.node = n.node.mapTokens f)
    (hq : ∀ w w' : View v, w.node ∈ n.childNodes → w'.node ∈ n'.childNodes →
      w'.node.node = w.node.node.mapTokens f → q w' = q w) :
    (childOf? v n').map q = (childOf? v n).map q := by
  rw [childOf?, childOf?, ← List.head?_map, ← List.head?_map, map_childrenOf h hq]

end Mapped

section Views

/-- The types of views whose nodes hold words. -/
def ViewType.words : List ViewType := [text, tags, description]

theorem ViewType.isWords_of_accepts {v : ViewType} (hv : v ∈ words) {k : Kind}
    (hk : v.accepts k = true) : k.isWords = true := by
  simp only [words, List.mem_cons, List.not_mem_nil, or_false] at hv
  rcases hv with rfl | rfl | rfl <;> cases k <;> revert hk <;> decide

/-- The values of tokens that are no content of a doc string. -/
theorem Element.flatMap_value_crlf {es : List Element}
    (h : ∀ t ∈ tokensAll es, t.kind ≠ .docStringContentToken) :
    (tokensAll (mapTokensAll Token.crlf es)).flatMap Token.value =
      (tokensAll es).flatMap Token.value := by
  rw [tokensAll_mapTokensAll, List.flatMap_map, List.flatMap_def, List.flatMap_def]
  exact congrArg List.flatten (List.map_congr_left fun t ht => t.value_crlf_of_ne (h t ht))

theorem PlacedNode.tokens_of_contentless {n : PlacedNode} (h : n.node.toElement.Contentless) :
    ∀ t ∈ tokensAll n.node.children, t.kind ≠ .docStringContentToken := by
  intro t ht
  refine h t ?_
  rwa [Node.toElement, tokens_node]

/-- The tokens below a node that hold no content. -/
theorem PlacedNode.map_childTokens_crlf {α : Type} {n n' : PlacedNode} {q : Token → α}
    (h : n'.node = n.node.mapTokens Token.crlf) (hn : n.node.toElement.Contentless)
    (hq : ∀ t : Token, t.kind ≠ .docStringContentToken → q t.crlf = q t) :
    n'.childTokens.map (fun t => q t.token) = n.childTokens.map fun t => q t.token := by
  have hmap (n : PlacedNode) :
      n.childTokens.map (fun t => q t.token) = (tokensOf n.node.children).map q := by
    rw [← map_token_childTokens, List.map_map]
    rfl
  rw [hmap, hmap, h, Node.mapTokens, tokensOf_mapTokensAll, List.map_map]
  exact List.map_congr_left fun t ht =>
    hq t (n.tokens_of_contentless hn t (mem_tokensAll_of_mem_tokensOf ht))

theorem TextView.value_crlf {t t' : TextView}
    (h : t'.node.node = t.node.node.mapTokens Token.crlf)
    (ht : t.node.node.toElement.Contentless) : t'.value = t.value := by
  rw [value_eq, value_eq, h]
  exact flatMap_value_crlf (t.node.tokens_of_contentless ht)

/-- The value of a cell is what its tokens stand for. -/
theorem CellView.value_eq {c : CellView} (hf : c.node.Filled) {outline : Bool} {n : Node}
    (hn : c.node.node = n) (h : n.IsCell outline) :
    c.value = (tokensAll n.children).flatMap Token.value := by
  cases h with
  | empty =>
    rw [(of_token hf hn).2.2]
    simp [Node.ofCell]
  | plain =>
    rw [(of_token hf hn).2.2]
    simp [Node.ofCell]
  | pieces hm =>
    cases hm with
    | pieces =>
      obtain ⟨t, ht, hnode⟩ := View.exists_childOf? (v := .text) (n := c.node) (by rw [hn]; rfl)
      have htext : c.text? = some t := ht
      rw [value, htext]
      simp [TextView.value_eq, hnode, Node.ofCell, Node.toElement]

end Views

namespace FeatureFile

/-- The views of a type in a document. -/
def views (f : FeatureFile) (v : ViewType) : List (View v) :=
  f.root.descendants.filterMap (View.cast? v)

/-- What a reader of the views finds alike in two documents. -/
structure ReadsAs (f g : FeatureFile) : Prop where
  placeholders :
    g.root.descendants.map View.placeholdersUnder = f.root.descendants.map View.placeholdersUnder
  tables : (g.views .table).map TableView.values = (f.views .table).map TableView.values
  names : ∀ v ≠ .docString, (g.views v).map View.name? = (f.views v).map View.name?
  tagNames : ∀ v ≠ .docString, (g.views v).map View.tagNames = (f.views v).map View.tagNames
  descriptions : ∀ v ≠ .docString,
    (g.views v).map View.descriptionLines = (f.views v).map View.descriptionLines
  steps : (g.views .step).map StepView.text = (f.views .step).map StepView.text

variable {o : Options} {s : Text} {v : ViewType} {n n' : PlacedNode}

/-- A node with words that is a child of any node but a doc string. -/
theorem contentless_of_child (hn : n ∈ (parse o s).root.descendants) (hd : n.kind ≠ .docString)
    {m : PlacedNode} (hm : m ∈ n.childNodes) (hw : m.kind.isWords = true) :
    m.node.toElement.Contentless := by
  have hmem : m.node ∈ nodesOf n.node.children := by
    rw [← n.map_node_childNodes]
    exact List.mem_map_of_mem hm
  exact (formed_of_mem_descendants hn).wordsApart hd m.node hmem hw

/-- What is read off a child with words. -/
theorem map_childOf?_crlf {α : Type} {q : View v → α} (hn : n ∈ (parse o s).root.descendants)
    (hd : n.kind ≠ .docString) (h : n'.node = n.node.mapTokens Token.crlf)
    (hv : v ∈ ViewType.words)
    (hq : ∀ w w' : View v, w'.node.node = w.node.node.mapTokens Token.crlf →
      w.node.node.toElement.Contentless → q w' = q w) :
    (View.childOf? v n').map q = (View.childOf? v n).map q :=
  View.map_childOf? h fun w w' hw _ he =>
    hq w w' he (contentless_of_child hn hd hw (ViewType.isWords_of_accepts hv w.fits))

theorem kind_ne_docString (hv : v ≠ .docString) (w : View v) : w.node.kind ≠ .docString := by
  intro hk
  have hfits := w.fits
  rw [hk] at hfits
  have hdoc : v = .docString := by cases v <;> revert hfits <;> decide
  exact hv hdoc

theorem cellValue_crlf {s' : Text} {c c' : CellView} (hc : c.node ∈ (parse o s).root.descendants)
    (hc' : c'.node ∈ (parse o s').root.descendants)
    (h : c'.node.node = c.node.node.mapTokens Token.crlf) : c'.value = c.value := by
  have hcell {s : Text} {c : CellView} (hc : c.node ∈ (parse o s).root.descendants) :
      c.value = (tokensAll c.node.node.children).flatMap Token.value ∧
        c.node.node.toElement.Contentless := by
    obtain ⟨outline, x, hx⟩ := (written_of_mem_descendants hc).cell
      (ViewType.eq_of_accepts c.fits rfl nofun)
    have hform : c.node.node.IsCell outline := hx ▸ x.isCell_node outline
    exact ⟨CellView.value_eq ((filled_root o s).of_mem hc) rfl hform, hform.contentless⟩
  rw [(hcell hc').1, (hcell hc).1, h]
  exact flatMap_value_crlf (c.node.tokens_of_contentless (hcell hc).2)

section Same

variable {s' : Text} (htree : (parse o s').tree = (parse o s).tree.mapTokens Token.crlf)

include htree

theorem map_node_descendants :
    (parse o s').root.descendants.map (·.node) =
      (parse o s).root.descendants.map (·.node.mapTokens Token.crlf) := by
  refine PlacedNode.map_node_walkNodes ?_
  exact congrArg (· :: []) htree

theorem placeholders_crlf : (parse o s').root.descendants.map View.placeholdersUnder =
    (parse o s).root.descendants.map View.placeholdersUnder := by
  have hnames (n : Node) :
      ((tokensAll (n.mapTokens Token.crlf).children).filter (·.kind == .identifierToken)).map
          (·.text) =
        ((tokensAll n.children).filter (·.kind == .identifierToken)).map (·.text) := by
    rw [Node.mapTokens, tokensAll_mapTokensAll, List.filter_map, List.map_map]
    refine List.map_congr_left fun t ht => t.text_crlf_of_ne ?_
    have hkind : t.kind = .identifierToken := by simpa [Token.crlf] using (List.mem_filter.1 ht).2
    rw [hkind]
    decide
  have hmap := congrArg (List.map fun n : Node =>
    ((tokensAll n.children).filter (·.kind == .identifierToken)).map (·.text))
      (map_node_descendants htree)
  simp only [List.map_map, Function.comp_def, hnames, ← View.placeholdersUnder_eq] at hmap
  exact hmap

theorem tables_crlf :
    ((parse o s').views .table).map TableView.values =
      ((parse o s).views .table).map TableView.values := by
  refine View.map_filterMap_cast? (map_node_descendants htree) fun t t' ht ht' h => ?_
  refine View.map_childrenOf h fun r r' hr hr' h => ?_
  have hrow := PlacedNode.mem_descendants_of_mem_childNodes ht hr
  have hrow' := PlacedNode.mem_descendants_of_mem_childNodes ht' hr'
  refine View.map_childrenOf h fun c c' hc hc' h => ?_
  exact cellValue_crlf (PlacedNode.mem_descendants_of_mem_childNodes hrow hc)
    (PlacedNode.mem_descendants_of_mem_childNodes hrow' hc') h

/-- What is read off the first child of a type that holds words. -/
theorem views_crlf {w : ViewType} {α β : Type} {q : View w → α} (hv : v ≠ .docString)
    (hw : w ∈ ViewType.words)
    (hq : ∀ x x' : View w, x'.node.node = x.node.node.mapTokens Token.crlf →
      x.node.node.toElement.Contentless → q x' = q x) (r : Option α → β) :
    ((parse o s').views v).map (fun x => r ((View.childOf? w x.node).map q)) =
      ((parse o s).views v).map fun x => r ((View.childOf? w x.node).map q) := by
  refine View.map_filterMap_cast? (map_node_descendants htree) fun x x' hx _ h => ?_
  exact congrArg r (map_childOf?_crlf hx (kind_ne_docString hv x) h hw hq)

theorem readsAs_crlf : (parse o s).ReadsAs (parse o s') where
  placeholders := placeholders_crlf htree
  tables := tables_crlf htree
  names v hv :=
    views_crlf htree hv (by decide) (fun t t' h ht => TextView.value_crlf h ht) id
  tagNames v hv := by
    refine views_crlf htree hv (by decide) (fun t t' h ht => ?_) (·.getD [])
    refine PlacedNode.map_childTokens_crlf
      (q := fun u => (Text.after? ['@'] u.text).getD u.text) h ht fun u hu => ?_
    rw [u.text_crlf_of_ne hu]
  descriptions v hv := by
    refine views_crlf htree hv (by decide) (fun t t' h ht => ?_) (·.getD [])
    exact PlacedNode.map_childTokens_crlf h ht fun u hu => u.value_crlf_of_ne hu
  steps :=
    views_crlf (v := .step) htree (by decide) (by decide)
      (fun t t' h ht => TextView.value_crlf h ht) (·.getD [])

end Same

/-- It does not matter how lines end. A document without carriage returns and the same document with
one in front of every line feed have the same tree but for the line breaks and the content of doc
strings. What is read off their views is the same, and so is their dialect; what is wrong with them
is the same at the places that its places are moved to. -/
theorem rebroken_parse (o : Options) {s : Text} (h : '\r' ∉ s) :
    let f := parse o s
    let g := parse o (Text.crlf s)
    g.tree = f.tree.mapTokens Token.crlf ∧ f.ReadsAs g ∧ g.dialect = f.dialect ∧
      g.diagnostics = f.diagnostics.map (Diagnostic.moved s) := by
  obtain ⟨htree, hdialect, hevents⟩ := parse_crlf o.dialect h
  refine ⟨htree, readsAs_crlf htree, hdialect, ?_⟩
  change Event.diagnostics _ = (Event.diagnostics _).map _
  rw [hevents, Event.diagnostics_moved]

/-- An outline with a row and a doc string that are not closed and a step without text. -/
theorem rebroken_parse_outline :
    let s := "Scenario Outline: s\n* <a>\n|b|c\n*\n\x22\x22\x22\nd\n<e>\n".toList
    let f := parse .default s
    let g := parse .default (Text.crlf s)
    '\r' ∉ s ∧ g.tree = f.tree.mapTokens Token.crlf ∧
      (g.views .table).map TableView.values = [[[['b'], ['c']]]] ∧
      (g.views .step).map StepView.text = ["<a>".toList, []] ∧
      (g.views .docString).map DocStringView.content = ["d\r\n<e>\r\n".toList] ∧
      g.diagnostics.map (fun d => (d.span.start, d.problem)) =
        [(0, .missingToken .featureKeyword), (32, .missingToken .verticalBarToken),
          (37, .missingToken .literalToken), (50, .missingToken .docStringDelimiterToken)] := by
  intro s f g
  have hs : '\r' ∉ s := by decide
  obtain ⟨htree, hreads, -, hdiagnostics⟩ := rebroken_parse .default hs
  have hf : ((f.views .table).map TableView.values, (f.views .step).map StepView.text,
      f.diagnostics.map fun d => (d.span.start, d.problem)) =
      ([[[['b'], ['c']]]], ["<a>".toList, []],
        [(0, .missingToken .featureKeyword), (30, .missingToken .verticalBarToken),
          (33, .missingToken .literalToken), (43, .missingToken .docStringDelimiterToken)]) := by
    dsimp only [f, s]
    rw [Options.default_eq]
    cbv
  have hcontent : (g.views .docString).map DocStringView.content =
      ["d\r\n<e>\r\n".toList] := by
    dsimp only [g, s]
    rw [Options.default_eq]
    cbv
  have hplaces : [0, 30, 33, 43].map (Text.moved s) = [0, 32, 37, 50] := by decide
  simp only [Prod.mk.injEq] at hf
  refine ⟨hs, htree, hreads.tables.trans hf.1, hreads.steps.trans hf.2.1, hcontent, ?_⟩
  have hmap := congrArg (List.map (Prod.map (Text.moved s) id)) hf.2.2
  simp only [List.map_cons, List.map_nil, List.cons.injEq, and_true] at hplaces
  simp only [List.map_map, List.map_cons, List.map_nil, Prod.map_apply, id_eq, hplaces] at hmap
  rw [hdiagnostics, List.map_map]
  exact hmap

end FeatureFile

end GherkinTree
