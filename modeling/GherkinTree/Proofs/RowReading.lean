import GherkinTree.Proofs.Escape
import GherkinTree.Proofs.Outline
import GherkinTree.Proofs.Unbroken

/-!
How written rows are read. The loop over the rows of a table takes one written row after the other,
whatever blank lines and comments come first. Main statements: the table that is read has a row for
each that is written, nothing is wrong with any of its tokens, and its values are those that have
been written.
-/

namespace GherkinTree

open Element Grammar

section Lines

variable {d : Dialect} {c : Cursor} {gap ls : List Line} {l : Line}

/-- Blank lines and comments are cut off. -/
theorem Cursor.cutTrivia_append (hg : ∀ m ∈ gap, Line.isTrivial (Text.trimStart m.content) = true)
    (ls : List Line) : (cutTrivia (gap ++ ls)).2 = (cutTrivia ls).2 := by
  induction gap with
  | nil => rfl
  | cons l gap ih =>
    rw [List.forall_mem_cons] at hg
    simp only [List.cons_append, cutTrivia, hg.1, if_true, ih hg.2]

/-- The line ahead is the first that is neither blank nor a comment. -/
theorem Dialect.exists_peek?_of_lines (d : Dialect) (hc : c.lines = gap ++ l :: ls)
    (hg : ∀ m ∈ gap, Line.isTrivial (Text.trimStart m.content) = true)
    (hl : Line.isTrivial (Text.trimStart l.content) = false) :
    ∃ a, d.peek? c = some a ∧ a.line = ⟨Text.trimStart l.content, l.ending⟩ ∧
      a.kind = d.classify (Text.trimStart l.content) ∧ a.cursor.lines.tail = ls := by
  have hlines : c.advance.lines = ⟨Text.trimStart l.content, l.ending⟩ :: ls := by
    rw [Cursor.lines_advance, hc, Cursor.cutTrivia_append hg]
    simp [Cursor.cutTrivia, hl]
  refine ⟨⟨c.advance, ⟨Text.trimStart l.content, l.ending⟩, d.classify (Text.trimStart l.content)⟩,
    ?_, rfl, rfl, ?_⟩
  · rw [peek?]
    simp only [hlines]
  · simp only [hlines, List.tail_cons]

/-- Lines are all blank or comments, or there is a first one that is neither. -/
theorem Line.all_trivial_or_split (ls : List Line) :
    (∀ l ∈ ls, isTrivial (Text.trimStart l.content) = true) ∨
      ∃ ts l ms, ls = ts ++ l :: ms ∧ (∀ t ∈ ts, isTrivial (Text.trimStart t.content) = true) ∧
        isTrivial (Text.trimStart l.content) = false := by
  induction ls with
  | nil => exact .inl (List.forall_mem_nil _)
  | cons l ls ih =>
    by_cases hl : isTrivial (Text.trimStart l.content) = true
    · rcases ih with h | ⟨ts, m, ms, rfl, hts, hm⟩
      · exact .inl (List.forall_mem_cons.2 ⟨hl, h⟩)
      · exact .inr ⟨l :: ts, m, ms, rfl, List.forall_mem_cons.2 ⟨hl, hts⟩, hm⟩
    · exact .inr ⟨[], l, ls, rfl, List.forall_mem_nil _, by simpa using hl⟩

/-- Lines of text below a header are taken up to the blank lines and comments in front of a line of
another kind. -/
theorem Grammar.lines_description (d : Dialect) {gap : List Line} (hc : c.lines = gap ++ l :: ls)
    (hg : ∀ m ∈ gap, Line.isTrivial (Text.trimStart m.content) = true ∨
      d.classify (Text.trimStart m.content) = .text)
    (hl : Line.isTrivial (Text.trimStart l.content) = false)
    (hk : d.classify (Text.trimStart l.content) ≠ .text) (hp : c.pending = []) :
    ∃ gap', (description d c).2.lines = gap' ++ l :: ls ∧
      (∀ m ∈ gap', Line.isTrivial (Text.trimStart m.content) = true) ∧
      (description d c).2.pending = [] := by
  change ∃ gap', (c.collect (textLine? d)).2.lines = _ ∧ _ ∧
    (c.collect (textLine? d)).2.pending = []
  -- each round leaves fewer lines in front of the last
  induction hn : gap.length using Nat.strongRecOn generalizing gap c with
  | ind n ih =>
    rcases Line.all_trivial_or_split gap with htrivial | ⟨ts, m, ms, rfl, hts, hm⟩
    · obtain ⟨a, ha, -, hkind, -⟩ := d.exists_peek?_of_lines hc htrivial hl
      have hnone : textLine? d c = none := textLine?_eq_none fun b hb hb' => by
        rw [ha] at hb
        cases hb
        exact hk (hkind.symm.trans hb')
      rw [Cursor.collect_of_none hnone]
      exact ⟨gap, hc, htrivial, hp⟩
    · have htext : d.classify (Text.trimStart m.content) = .text := by
        have hor := hg m (List.mem_append_right ts List.mem_cons_self)
        rw [hm] at hor
        exact hor.resolve_left nofun
      have hlines : c.lines = ts ++ m :: (ms ++ l :: ls) := by simpa using hc
      obtain ⟨a, ha, -, hkind, htail⟩ := d.exists_peek?_of_lines hlines hts hm
      have hsome := textLine?_of_text ha (hkind.trans htext)
      rw [Cursor.collect_of_some hsome (headway_of_take ha []).1]
      refine ih ms.length ?_ htail (fun x hx => ?_) rfl rfl
      · rw [← hn, List.length_append, List.length_cons]
        omega
      · exact hg x (List.mem_append_right ts (List.mem_cons_of_mem m hx))

end Lines

namespace CellView

/-- The value of a cell that is not cut at its placeholders. -/
theorem value_of_whole {c : CellView} (hf : c.node.Filled) {outline : Bool} {x : Cell}
    (hc : c.node.node = x.node outline) (h : c.node.node.IsCell false) :
    c.value = Cell.unescape x.raw := by
  unfold Cell.node at hc
  dsimp only at hc
  split at hc
  · rename_i hr
    rw [(of_token hf hc).2.2, List.isEmpty_iff.1 hr]
    rfl
  · split at hc
    · rw [hc] at h
      generalize hn : Node.ofCell _ = n at h
      cases h <;> simp [Node.ofCell, Node.toElement] at hn
    · rw [(of_token hf hc).2.2, Reading.token, Token.value_literal]
      rfl

end CellView

namespace WrittenRow

/-- The node of a row that is written, with trivia that nothing is wrong with at both ends. -/
def IsReadAs (r : WrittenRow) (outline : Bool) (n : Node) : Prop :=
  ∃ leading trailing, Trivia.Quiet leading ∧ Trivia.Quiet trailing ∧
    n = r.row.node outline leading trailing

variable {r : WrittenRow} {outline : Bool} {n : Node} {d : Dialect} {c : Cursor}
  {gap ls : List Line}

theorem not_trivial_line (r : WrittenRow) :
    Line.isTrivial (Text.trimStart r.line.content) = false := by
  rw [r.trimStart_content]
  rfl

theorem closed_row (r : WrittenRow) : r.row.closed = true := rfl

/-- The tokens of a written row: nothing is wrong with any of them, and the last is a bar. -/
theorem IsReadAs.tokens (h : r.IsReadAs outline n) :
    (∀ t ∈ tokensAll n.children, t.Quiet) ∧ ∃ t, (tokensAll n.children).getLast? = some t ∧
      t.kind = .verticalBarToken ∧ t.missing = false := by
  obtain ⟨leading, trailing, hl, ht, rfl⟩ := h
  have hbar {leading trailing : List Trivia} (hl : Trivia.Quiet leading)
      (ht : Trivia.Quiet trailing) : (Row.bar leading trailing).Quiet := ⟨hl, ht, rfl⟩
  by_cases hc : r.row.cells = []
  · simp only [Row.node, hc, List.isEmpty_nil, if_true, Node.ofRow]
    refine ⟨?_, Row.bar leading trailing, ?_, rfl, rfl⟩
    · simpa using hbar hl ht
    · simp
  · obtain ⟨us, hus, hq, -⟩ := Row.tokens_cells outline (Row.bar [] trailing) hc
    have htokens : tokensAll (r.row.node outline leading trailing).children =
        Row.bar leading [] :: (us ++ [Row.bar [] trailing]) := by
      rw [← hus]
      simp [Row.node, hc, r.closed_row, Node.ofRow, Row.elements]
    rw [htokens]
    refine ⟨?_, Row.bar [] trailing, ?_, rfl, rfl⟩
    · rw [List.forall_mem_cons, List.forall_mem_append, List.forall_mem_singleton]
      exact ⟨hbar hl Trivia.quiet_nil, fun u hu => (hq u hu).1, hbar Trivia.quiet_nil ht⟩
    · rw [← List.cons_append, List.getLast?_concat]

/-- Nothing is wrong with the tokens of written rows. -/
theorem quiet_of_isReadAs {rows : List WrittenRow} {nodes : List Node}
    (h : List.Forall₂ (fun r n => r.IsReadAs outline n) rows nodes) :
    ∀ t ∈ tokensAll (nodes.map Node.toElement), t.Quiet := by
  induction h with
  | nil => exact List.forall_mem_nil _
  | @cons r n rows nodes hr _ ih =>
    rw [List.map_cons, tokensAll_cons, List.forall_mem_append, Node.toElement, tokens_node]
    exact ⟨hr.tokens.1, ih⟩

/-- The next row is one that is written. -/
theorem exists_row? (r : WrittenRow) (d : Dialect) (outline : Bool)
    (hc : c.lines = gap ++ r.line :: ls)
    (hg : ∀ m ∈ gap, Line.isTrivial (Text.trimStart m.content) = true)
    (hp : Trivia.Quiet c.pending) :
    ∃ n next, row? d outline c = some ([n], next) ∧ r.IsReadAs outline n ∧ next.lines = ls ∧
      next.pending = [] := by
  obtain ⟨a, ha, hline, hkind, htail⟩ := d.exists_peek?_of_lines hc hg r.not_trivial_line
  rw [r.trimStart_content] at hline hkind
  have hrow := row?_of_row outline ha hkind
  have hsplit : Row.split a.line.content.tail = r.row := by
    rw [hline, List.tail_cons, r.split_behindBar]
  have hevents (stop : Nat) : r.row.events stop = [] := if_pos r.closed_row
  simp only [hsplit, hevents] at hrow
  refine ⟨_, _, hrow, ⟨_, _, ?_, Trivia.quiet_lineEnd _ _, rfl⟩, htail, rfl⟩
  rw [(Dialect.fits_of_peek? ha).cursor, Cursor.pending_advance]
  exact hp.append (Cursor.quiet_cutTrivia c.lines)

/-- The loop over the rows of a table takes the rows that are written. -/
theorem collect_rows {rows : List WrittenRow} (hne : rows ≠ []) (d : Dialect) (outline : Bool)
    (hend : ∀ c : Cursor, c.lines = ls → row? d outline c = none)
    (hc : c.lines = gap ++ (rows.map line ++ ls))
    (hg : ∀ m ∈ gap, Line.isTrivial (Text.trimStart m.content) = true)
    (hp : Trivia.Quiet c.pending) :
    ∃ nodes last, c.collect (row? d outline) = (nodes, last) ∧
      List.Forall₂ (fun r n => r.IsReadAs outline n) rows nodes ∧ last.lines = ls ∧
      last.pending = [] := by
  induction rows generalizing c gap with
  | nil => exact absurd rfl hne
  | cons r rows ih =>
    obtain ⟨n, next, hrow, hread, hlines, hpending⟩ := r.exists_row? d outline hc hg hp
    have hcollect := Cursor.collect_of_some hrow (headway_row? d outline _ _ _ hrow).1
    by_cases hrows : rows = []
    · subst hrows
      rw [Cursor.collect_of_none (hend next hlines)] at hcollect
      exact ⟨[n], next, hcollect, .cons hread .nil, hlines, hpending⟩
    · have hnext : next.lines = [] ++ (rows.map line ++ ls) := hlines
      obtain ⟨nodes, last, hrest, hreads, hlast⟩ :=
        ih hrows hnext (List.forall_mem_nil _) (hpending ▸ Trivia.quiet_nil)
      rw [hrest] at hcollect
      exact ⟨n :: nodes, last, hcollect, .cons hread hreads, hlast⟩

end WrittenRow

section Views

variable {outline : Bool}

theorem Row.map_fst_cellsWithBars (outline : Bool) (last : Token) (cs : List Cell) :
    (cellsWithBars outline last cs).map Prod.fst = cs.map (Cell.node outline) := by
  fun_induction cellsWithBars outline last cs with
  | case1 => rfl
  | case2 c => rfl
  | case3 c cs hcs ih => rw [List.map_cons, ih, List.map_cons]

/-- The nodes in a row are its cells. -/
theorem Row.nodesOf_node (outline : Bool) (leading lineEnd : List Trivia) (r : Row) :
    nodesOf (r.node outline leading lineEnd).children = r.cells.map (Cell.node outline) := by
  have hcells (last : Token) : nodesOf (Node.ofRow (bar leading [])
      (cellsWithBars outline last r.cells)).children = r.cells.map (Cell.node outline) := by
    rw [← map_fst_cellsWithBars outline last]
    exact nodesOf_rowElements _
  unfold node
  split
  · rename_i hc
    rw [List.isEmpty_iff.1 hc]
    rfl
  · exact hcells _

/-- The values of a row outside of outlines are those that have been written. -/
theorem RowView.read {v : RowView} (hf : v.node.Filled) (hv : v.node.node.IsRow false)
    {r : WrittenRow} (h : r.IsReadAs outline v.node.node) :
    v.values = r.values ∧ v.isClosed = true := by
  constructor
  · have hnodes : v.cells.map (·.node.node) = r.row.cells.map (Cell.node outline) := by
      obtain ⟨leading, trailing, -, -, hn⟩ := h
      rw [cells, View.map_node_childrenOf, hn, Row.nodesOf_node]
      exact List.filter_eq_self.2 fun n hn => by
        obtain ⟨c, -, rfl⟩ := List.mem_map.1 hn
        rfl
    have hcells : List.Forall₂ (fun (c : CellView) x => c.node.node = Cell.node outline x)
        v.cells r.row.cells := by
      rwa [← List.forall₂_eq_eq_eq, List.forall₂_map_left_iff, List.forall₂_map_right_iff]
        at hnodes
    have hmem : ∀ c ∈ v.cells, c.node.Filled ∧ c.node.node.IsCell false := fun c hc =>
      ⟨hf.child (PlacedNode.mem_children_of_mem_childNodes (View.mem_of_mem_filterMap_cast? hc)),
        isCell_of_mem_cells hv c hc⟩
    have hvalues : v.values = r.row.cells.map fun x => Cell.unescape x.raw := by
      rw [values, ← List.forall₂_eq_eq_eq, List.forall₂_map_left_iff, List.forall₂_map_right_iff]
      exact ((List.forall₂_and_left _ _).2 ⟨hmem, hcells⟩).imp fun c x h =>
        CellView.value_of_whole h.1.1 h.2 h.1.2
    rw [hvalues, WrittenRow.row, List.map_map]
    exact List.map_congr_left fun c _ => by
      rw [Function.comp_apply, c.raw_cell, Cell.unescape_escape]
  · obtain ⟨t, ht, hlast⟩ := PlacedNode.getLast?_descendantTokens hf
    obtain ⟨-, u, hu, hkind, hmissing⟩ := h.tokens
    rw [← PlacedNode.map_token_descendantTokens, List.getLast?_map, hlast, Option.map_some] at hu
    cases hu
    rw [isClosed, ht, Option.any_some, PlacedToken.kind, hkind, hmissing]
    rfl

/-- The values of a table outside of outlines are those that have been written, row for row. -/
theorem TableView.read {t : TableView} (hf : t.node.Filled) (ht : t.node.node.IsTable false)
    {written : List WrittenRow} {nodes : List Node} (hn : t.node.node = .ofTable nodes)
    (h : List.Forall₂ (fun r n => r.IsReadAs outline n) written nodes) :
    t.values = written.map WrittenRow.values ∧ ∀ v ∈ t.rows, v.isClosed = true := by
  have hnodes : t.rows.map (·.node.node) = nodes := by
    have hall : ∀ n ∈ nodes, ViewType.tableRow.accepts n.kind = true := by
      intro n hmem
      rw [hn] at ht
      generalize hm : Node.ofTable nodes = m at ht
      cases ht with
      | @mk rows hne hrows =>
        have hsame : nodes = rows := by
          simpa [Node.ofTable] using congrArg (fun m => nodesOf m.children) hm
        rw [(hrows n (hsame ▸ hmem)).kind_eq]
        rfl
    rw [rows, View.map_node_childrenOf, hn, Node.ofTable, nodesOf_map_toElement,
      List.filter_eq_self.2 hall]
  have hrows : List.Forall₂ (fun (v : RowView) (r : WrittenRow) => r.IsReadAs outline v.node.node)
      t.rows written := by
    rw [← hnodes, List.forall₂_map_right_iff] at h
    exact h.flip
  have hmem : ∀ v ∈ t.rows, v.node.Filled ∧ v.node.node.IsRow false := fun v hv =>
    ⟨hf.child (PlacedNode.mem_children_of_mem_childNodes (View.mem_of_mem_filterMap_cast? hv)),
      isRow_of_mem_rows ht v hv⟩
  have hread : List.Forall₂ (fun (v : RowView) (r : WrittenRow) => (v.values, v.isClosed) =
      (r.values, true)) t.rows written :=
    ((List.forall₂_and_left _ _).2 ⟨hmem, hrows⟩).imp fun v r h => by
      rw [(RowView.read h.1.1 h.1.2 h.2).1, (RowView.read h.1.1 h.1.2 h.2).2]
  have hmap : t.rows.map (fun v => (v.values, v.isClosed)) =
      written.map fun r => (r.values, true) := by
    rwa [← List.forall₂_eq_eq_eq, List.forall₂_map_left_iff, List.forall₂_map_right_iff]
  constructor
  · have hfirst := congrArg (List.map Prod.fst) hmap
    rwa [List.map_map, List.map_map] at hfirst
  · intro v hv
    have hpair : (v.values, v.isClosed) ∈ written.map fun r => (r.values, true) :=
      hmap ▸ List.mem_map_of_mem hv
    obtain ⟨r, -, hr⟩ := List.mem_map.1 hpair
    exact (congrArg Prod.snd hr).symm

end Views

end GherkinTree
