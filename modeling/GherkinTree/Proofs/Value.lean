import GherkinTree.Proofs.KeywordTable
import GherkinTree.Proofs.Wording
import Mathlib

/-!
The values of cells, doc strings and steps. Main statement: the value is the decoded raw text but
for the names of placeholders, which stay as they are written; so the same table or doc string reads
the same in an outline and outside of one, unless the name of a placeholder holds an escape.
-/

namespace GherkinTree

open Element

section Views

variable {r : Reading} {raw : Text}

theorem TextView.value_eq (t : TextView) :
    t.value = (tokensAll t.node.node.children).flatMap Token.value := by
  rw [← PlacedNode.map_token_descendantTokens, List.flatMap_map]
  rfl

theorem View.placeholdersUnder_eq (n : PlacedNode) : placeholdersUnder n =
    ((tokensAll n.node.children).filter (·.kind == .identifierToken)).map (·.text) := by
  rw [← PlacedNode.map_token_descendantTokens, List.filter_map, List.map_map]
  rfl

/-- What a text stands for. -/
theorem TextView.decodes {t : TextView} (h : r.Reads raw t.node.node.children)
    (hd : Text.Decoder r.decode) (hk : r.kind ≠ .identifierToken) :
    Decodes r.decode raw t.placeholders t.value := by
  rw [value_eq, placeholders, View.placeholdersUnder_eq]
  exact h.decodes hd hk

theorem View.filled_of_childOf? {v : ViewType} {n : PlacedNode} {w : View v} (hf : n.Filled)
    (h : childOf? v n = some w) : w.node.Filled :=
  hf.child (PlacedNode.mem_children_of_mem_childNodes
    (mem_of_mem_filterMap_cast? (List.mem_of_mem_head? h)))

theorem CellView.of_token {c : CellView} {t : Token} (hf : c.node.Filled)
    (hc : c.node.node = .ofCell (.token t)) :
    c.node.text = t.text ∧ c.placeholders = [] ∧ c.value = t.value := by
  have hchildren : c.node.node.children = [.token t] := by rw [hc, Node.ofCell]
  have hnone : c.text? = none := by
    refine Option.map_eq_none_iff.1 ((View.map_node_childOf? .text c.node).trans ?_)
    rw [hchildren]
    rfl
  refine ⟨PlacedNode.text_eq_of_token hf (by simp [hchildren]), ?_, ?_⟩
  · rw [placeholders, hnone]
    rfl
  · rw [value, hnone, PlacedNode.firstToken?_of_token hchildren]
    rfl

/-- The value of a cell is the decoded text of the cell, but for the names of placeholders. -/
theorem CellView.decodes {c : CellView} (hf : c.node.Filled) {outline : Bool} {x : Cell}
    (hc : c.node.node = x.node outline) :
    Decodes Cell.unescape c.node.text c.placeholders c.value := by
  unfold Cell.node at hc
  dsimp only at hc
  split at hc
  · obtain ⟨htext, hnames, hvalue⟩ := of_token hf hc
    rw [htext, hnames, hvalue]
    exact .whole Cell.unescape []
  · split at hc
    · obtain ⟨t, ht, hnode⟩ := View.exists_childOf? (v := .text) (n := c.node) (by rw [hc]; rfl)
      have hreads : Reading.cell.Reads x.raw t.node.node.children := by
        rw [hnode]
        exact .cut _ _
      have htext : c.text? = some t := ht
      have htokens : tokensAll c.node.node.children = tokensAll t.node.node.children := by
        rw [hc, hnode]
        simp [Node.ofCell, Node.toElement]
      rw [placeholders, value, htext, hreads.text_eq hf htokens]
      exact TextView.decodes hreads Cell.decoder_unescape (by decide)
    · obtain ⟨htext, hnames, hvalue⟩ := of_token hf hc
      rw [htext, hnames, hvalue, Reading.token, Token.value_literal]
      exact .whole Cell.unescape x.raw

/-- The text between the fences, as it is written. -/
def DocStringView.rawContent (d : DocStringView) : Text :=
  ((View.childOf? .text d.node).map (·.node.text)).getD []

/-- The placeholders in the content. -/
def DocStringView.placeholders (d : DocStringView) : List Text :=
  ((View.childOf? .text d.node).map TextView.placeholders).getD []

section DocString

variable {d : DocStringView} {f : Fence} {outline : Bool} {a : Ahead}

theorem DocStringView.fence?_eq (hd : d.node.node = (f.docString outline a).1) :
    d.fence? = some f := by
  obtain ⟨es, hchildren⟩ : ∃ es, d.node.node.children =
      .token (f.first a.cursor.pending a.line) :: es :=
    ⟨_, by rw [hd, f.docString_eq, Node.ofDocString, List.cons_append, List.cons_append]⟩
  rw [fence?, PlacedNode.firstToken?_of_token hchildren]
  cases f <;> rfl

theorem Fence.not_accepts_contentType? (f : Fence) (l : Line) :
    ∀ n ∈ (f.contentType? l).toList, ViewType.text.accepts n.kind = false := by
  intro n hn
  rw [f.kind_contentType? l n (Option.mem_toList.1 hn)]
  rfl

theorem Fence.accepts_content? (f : Fence) (outline : Bool) (body : List Line) :
    ∀ n ∈ (f.content? outline body).toList, ViewType.text.accepts n.kind = true := by
  intro n hn
  rcases f.kind_content? outline body n (Option.mem_toList.1 hn) with hk | hk
  · rw [hk]
    rfl
  · rw [hk]
    rfl

/-- Between the fences are the type of the content and the content. -/
theorem DocStringView.nodesOf_children (hd : d.node.node = (f.docString outline a).1) :
    nodesOf d.node.node.children = (f.contentType? a.line).toList ++
      (f.content? outline (f.body a.consume.lines)).toList := by
  rw [hd, f.docString_eq, Node.ofDocString]
  simp

theorem DocStringView.map_node_content (hd : d.node.node = (f.docString outline a).1) :
    (View.childOf? .text d.node).map (·.node.node) =
      f.content? outline (f.body a.consume.lines) := by
  have htype : (f.contentType? a.line).toList.filter
      (fun m => ViewType.text.accepts m.kind) = [] := by
    apply List.filter_eq_nil_iff.2
    intro n hn
    rw [f.not_accepts_contentType? a.line n hn]
    exact Bool.false_ne_true
  have hcontent : (f.content? outline (f.body a.consume.lines)).toList.filter
      (fun m => ViewType.text.accepts m.kind) =
        (f.content? outline (f.body a.consume.lines)).toList :=
    List.filter_eq_self.2 (f.accepts_content? outline _)
  rw [View.map_node_childOf?, nodesOf_children hd, List.filter_append, htype, hcontent,
    List.nil_append, Option.head?_toList]

/-- The content is read from the text of the body. -/
theorem DocStringView.content_reads {t : TextView} (hd : d.node.node = (f.docString outline a).1)
    (ht : View.childOf? .text d.node = some t) :
    (Reading.docString f).Reads (Line.join (f.body a.consume.lines)) t.node.node.children := by
  have hnode := map_node_content hd
  rw [ht, Option.map_some, Fence.content?] at hnode
  split at hnode
  · cases hnode
  · rw [Option.some.inj hnode]
    exact .of_text _ _ _ _ _

/-- The content of a doc string is the decoded text between its fences, but for the names of
placeholders. -/
theorem DocStringView.decodes (hf : d.node.Filled) (hd : d.node.node = (f.docString outline a).1) :
    Decodes f.unescape d.rawContent d.placeholders d.content := by
  rw [rawContent, placeholders, content]
  cases ht : View.childOf? .text d.node with
  | none =>
    have hnil : f.unescape [] = [] := f.decoder_unescape.nil
    simpa [hnil] using Decodes.whole f.unescape []
  | some t =>
    have hreads := content_reads hd ht
    have htext := hreads.text_eq (View.filled_of_childOf? hf ht) rfl
    simp only [Option.map_some, Option.getD_some, htext]
    exact TextView.decodes hreads f.decoder_unescape fun h => by cases h

end DocString

/-- The text of a step as it is written. -/
def StepView.rawText (s : StepView) : Text := (s.textNode?.map (·.node.text)).getD []

theorem StepView.text_eq_rawText {s : StepView} (hf : s.node.Filled)
    (hw : ∀ m ∈ s.node.childNodes, m.node.Written (some .step)) : s.text = s.rawText := by
  rw [text, rawText]
  cases ht : s.textNode? with
  | none => rfl
  | some t =>
    have hfilled := View.filled_of_childOf? hf ht
    have hwritten := hw t.node (View.mem_of_mem_filterMap_cast? (List.mem_of_mem_head? ht))
    rcases hwritten.stepText rfl t.fits with hl | ⟨outline, raw, trailing, hn⟩
    · have htokens : tokensAll t.node.node.children = [.absent .literalToken [] []] := by
        rw [hl]
        simp [Node.ofLiterals]
      have hvalue : t.value = [] := by
        rw [TextView.value_eq, htokens]
        rfl
      simp only [Option.map_some, Option.getD_some, hvalue,
        PlacedNode.text_eq_of_token hfilled htokens]
      rfl
    · have hreads := Reading.Reads.of_text .stepText outline raw [] trailing
      rw [← hn] at hreads
      have hd := TextView.decodes hreads Text.decoder_id (by decide)
      simp only [Option.map_some, Option.getD_some, hreads.text_eq hfilled rfl]
      exact hd.exact.2 fun name _ => rfl

end Views

/-- The texts of the cells of a table. -/
def TableView.texts (t : TableView) : List (List Text) :=
  t.rows.map fun r => r.cells.map (·.node.text)

/-- The placeholders in the cells of a table. -/
def TableView.placeholders (t : TableView) : List Text :=
  t.rows.flatMap fun r => r.cells.flatMap CellView.placeholders

/-- No name of a placeholder in the table holds an escape. -/
def TableView.Unescaped (t : TableView) : Prop :=
  ∀ name ∈ t.placeholders, Cell.unescape name = name

/-- No name of a placeholder in the doc string holds an escape. -/
def DocStringView.Unescaped (d : DocStringView) : Prop :=
  ∀ f ∈ d.fence?, ∀ name ∈ d.placeholders, f.unescape name = name

/-- Decoding leaves the names of placeholders as they are written, and changes nothing else. -/
structure FeatureFile.Decoded (f : FeatureFile) : Prop where
  cells : ∀ c : CellView, c.node ∈ f.root.descendants →
    Decodes Cell.unescape c.node.text c.placeholders c.value
  docStrings : ∀ d : DocStringView, d.node ∈ f.root.descendants →
    ∃ fence, d.fence? = some fence ∧
      Decodes fence.unescape d.rawContent d.placeholders d.content
  steps : ∀ s : StepView, s.node ∈ f.root.descendants → s.text = s.rawText

namespace FeatureFile

theorem decoded (o : Options) (text : Text) : (parse o text).Decoded where
  cells c hc := by
    have hkind : c.node.node.kind = .tableCell := ViewType.eq_of_accepts c.fits rfl (by decide)
    obtain ⟨outline, x, hx⟩ := (written_of_mem_descendants hc).cell hkind
    exact CellView.decodes ((filled_root o text).of_mem hc) hx
  docStrings d hd := by
    have hkind : d.node.node.kind = .docString := ViewType.eq_of_accepts d.fits rfl (by decide)
    obtain ⟨f, outline, a, ha⟩ := (written_of_mem_descendants hd).docString hkind
    exact ⟨f, DocStringView.fence?_eq ha, DocStringView.decodes ((filled_root o text).of_mem hd) ha⟩
  steps s hs := by
    refine StepView.text_eq_rawText ((filled_root o text).of_mem hs) fun m hm => ?_
    have hwritten := written_of_mem_descendants (PlacedNode.mem_descendants_of_mem_childNodes hs hm)
    have hkind : s.node.kind = .step := ViewType.eq_of_accepts s.fits rfl (by decide)
    rw [PlacedNode.kindAbove_of_mem_childrenFrom (PlacedNode.mem_children_of_mem_childNodes hm),
      hkind] at hwritten
    exact hwritten

namespace Decoded

variable {f : FeatureFile}

/-- The values of a table are the decoded texts of its cells. -/
theorem values_eq (h : f.Decoded) {t : TableView} (ht : t.node ∈ f.root.descendants)
    (hu : t.Unescaped) : t.values = t.texts.map (List.map Cell.unescape) := by
  rw [TableView.values, TableView.texts, List.map_map]
  refine List.map_congr_left fun r hr => ?_
  rw [Function.comp_apply, RowView.values, List.map_map]
  refine List.map_congr_left fun c hc => ?_
  have hrow := PlacedNode.mem_descendants_of_mem_childNodes ht (View.mem_of_mem_filterMap_cast? hr)
  have hcell :=
    PlacedNode.mem_descendants_of_mem_childNodes hrow (View.mem_of_mem_filterMap_cast? hc)
  exact (h.cells c hcell).exact.2 fun name hn =>
    hu name (List.mem_flatMap.2 ⟨r, hr, List.mem_flatMap.2 ⟨c, hc, hn⟩⟩)

/-- The content of a doc string is the decoded text between its fences. -/
theorem content_eq (h : f.Decoded) {d : DocStringView} (hd : d.node ∈ f.root.descendants)
    (hu : d.Unescaped) {fence : Fence} (hf : d.fence? = some fence) :
    d.content = fence.unescape d.rawContent := by
  obtain ⟨fence', hf', hdec⟩ := h.docStrings d hd
  rw [hf] at hf'
  cases hf'
  exact hdec.exact.2 (hu fence hf)

end Decoded

/-- Cutting a text at its placeholders leaves their names as they are written, and changes nothing
else: a cell and a doc string have the decoded raw text as their value exactly if decoding changes
no name, and the text of a step is always the raw text. So the same table and the same doc string
read the same in any two documents, in an outline or not, unless a name holds an escape. -/
theorem decoded_parse (o : Options) (text : Text) :
    (parse o text).Decoded ∧ ∀ (o' : Options) (text' : Text),
      (∀ t t' : TableView, t.node ∈ (parse o text).root.descendants →
        t'.node ∈ (parse o' text').root.descendants → t.Unescaped → t'.Unescaped →
        t'.texts = t.texts → t'.values = t.values) ∧
      ∀ d d' : DocStringView, d.node ∈ (parse o text).root.descendants →
        d'.node ∈ (parse o' text').root.descendants → d.Unescaped → d'.Unescaped →
        d'.fence? = d.fence? → d'.rawContent = d.rawContent → d'.content = d.content := by
  refine ⟨decoded o text, fun o' text' => ⟨?_, ?_⟩⟩
  · intro t t' ht ht' hu hu' htexts
    rw [(decoded o text).values_eq ht hu, (decoded o' text').values_eq ht' hu', htexts]
  · intro d d' hd hd' hu hu' hfence hraw
    obtain ⟨f, hf, -⟩ := (decoded o text).docStrings d hd
    rw [(decoded o text).content_eq hd hu hf,
      (decoded o' text').content_eq hd' hu' (hfence.trans hf), hraw]

/-- The name of a placeholder keeps its escape, which is decoded in the same cell outside of an
outline. -/
theorem placeholder_keeps_escape :
    let f := parse .default "Scenario Outline: s\nGiven a\n|<a\\|b>|\n".toList
    let g := parse .default "Scenario: s\nGiven a\n|<a\\|b>|\n".toList
    ∃ c : CellView, c.node ∈ f.root.descendants ∧ c.value = "<a\\|b>".toList ∧
      c.value ≠ Cell.unescape c.node.text ∧
      ∃ c' : CellView, c'.node ∈ g.root.descendants ∧ c'.node.text = c.node.text ∧
        c'.value = "<a|b>".toList := by
  intro f g
  have hf : (f.root.descendants.filterMap (View.cast? .tableCell)).map
      (fun c : CellView => (c.node.text, c.value)) =
        [("<a\\|b>".toList, "<a\\|b>".toList)] := by
    dsimp only [f]
    rw [Options.default_eq]
    cbv
  have hg : (g.root.descendants.filterMap (View.cast? .tableCell)).map
      (fun c : CellView => (c.node.text, c.value)) =
        [("<a\\|b>".toList, "<a|b>".toList)] := by
    dsimp only [g]
    rw [Options.default_eq]
    cbv
  obtain ⟨c, hc, hcell⟩ := List.mem_map.1 (hf ▸ List.mem_singleton_self _)
  obtain ⟨c', hc', hcell'⟩ := List.mem_map.1 (hg ▸ List.mem_singleton_self _)
  obtain ⟨htext, hvalue⟩ := Prod.mk.inj hcell
  obtain ⟨htext', hvalue'⟩ := Prod.mk.inj hcell'
  refine ⟨c, View.mem_of_mem_filterMap_cast? hc, hvalue, ?_,
    c', View.mem_of_mem_filterMap_cast? hc', htext'.trans htext.symm, hvalue'⟩
  rw [htext, hvalue]
  decide

/-- Escapes next to a placeholder are decoded as they are where there are no placeholders. -/
theorem decoded_parse_outline :
    let f := parse .default
      "Scenario Outline: s\nGiven <b>\n|a\\|<b>\\\\|\nGiven c\n\x22\x22\x22\n<b>\\\x22\\\x22\\\x22\n\x22\x22\x22\n".toList
    let g := parse .default
      "Scenario: s\nGiven <b>\n|a\\|<b>\\\\|\nGiven c\n\x22\x22\x22\n<b>\\\x22\\\x22\\\x22\n\x22\x22\x22\n".toList
    (∃ t t' : TableView, t.node ∈ f.root.descendants ∧ t'.node ∈ g.root.descendants ∧
      t.Unescaped ∧ t'.Unescaped ∧ t'.texts = t.texts ∧ t'.values = t.values ∧
        t.values = [["a|<b>\\".toList]]) ∧
      ∃ d d' : DocStringView, d.node ∈ f.root.descendants ∧ d'.node ∈ g.root.descendants ∧
        d.Unescaped ∧ d'.Unescaped ∧ d'.fence? = d.fence? ∧ d'.rawContent = d.rawContent ∧
          d'.content = d.content ∧ d.content = "<b>\x22\x22\x22\n".toList := by
  intro f g
  have hf : ((f.root.descendants.filterMap (View.cast? .table)).map fun t : TableView =>
        (t.texts, t.placeholders, t.values),
      (f.root.descendants.filterMap (View.cast? .docString)).map fun d : DocStringView =>
        (d.fence?, d.rawContent, d.placeholders, d.content)) =
      ([([["a\\|<b>\\\\".toList]], [['b']], [["a|<b>\\".toList]])],
        [(some .quotes, "<b>\\\x22\\\x22\\\x22\n".toList, [['b']], "<b>\x22\x22\x22\n".toList)]) := by
    dsimp only [f]
    rw [Options.default_eq]
    cbv
  have hg : ((g.root.descendants.filterMap (View.cast? .table)).map fun t : TableView =>
        (t.texts, t.placeholders),
      (g.root.descendants.filterMap (View.cast? .docString)).map fun d : DocStringView =>
        (d.fence?, d.rawContent, d.placeholders)) =
      ([([["a\\|<b>\\\\".toList]], [])], [(some .quotes, "<b>\\\x22\\\x22\\\x22\n".toList, [])]) := by
    dsimp only [g]
    rw [Options.default_eq]
    cbv
  obtain ⟨htable, hdoc⟩ := Prod.mk.inj hf
  obtain ⟨htable', hdoc'⟩ := Prod.mk.inj hg
  obtain ⟨t, ht, htf⟩ := List.mem_map.1 (htable ▸ List.mem_singleton_self _)
  obtain ⟨t', ht', htg⟩ := List.mem_map.1 (htable' ▸ List.mem_singleton_self _)
  obtain ⟨d, hd, hdf⟩ := List.mem_map.1 (hdoc ▸ List.mem_singleton_self _)
  obtain ⟨d', hd', hdg⟩ := List.mem_map.1 (hdoc' ▸ List.mem_singleton_self _)
  simp only [Prod.mk.injEq] at htf htg hdf hdg
  have hu : t.Unescaped := by
    rw [TableView.Unescaped, htf.2.1]
    decide
  have hu' : t'.Unescaped := by
    rw [TableView.Unescaped, htg.2]
    decide
  have hv : d.Unescaped := by
    rw [DocStringView.Unescaped, hdf.2.2.1]
    intro f _
    cases f <;> decide +kernel
  have hv' : d'.Unescaped := by
    rw [DocStringView.Unescaped, hdg.2.2]
    exact fun _ _ => List.forall_mem_nil _
  have hmem := View.mem_of_mem_filterMap_cast? ht
  have hmem' := View.mem_of_mem_filterMap_cast? ht'
  have hdmem := View.mem_of_mem_filterMap_cast? hd
  have hdmem' := View.mem_of_mem_filterMap_cast? hd'
  have htexts := htg.1.trans htf.1.symm
  have hfence := hdg.1.trans hdf.1.symm
  have hraw := hdg.2.1.trans hdf.2.1.symm
  obtain ⟨htables, hdocs⟩ := (decoded_parse .default _).2 .default _
  exact ⟨⟨t, t', hmem, hmem', hu, hu', htexts, htables t t' hmem hmem' hu hu' htexts, htf.2.2⟩,
    d, d', hdmem, hdmem', hv, hv', hfence, hraw, hdocs d d' hdmem hdmem' hv hv' hfence hraw,
    hdf.2.2.2⟩

end FeatureFile

end GherkinTree
