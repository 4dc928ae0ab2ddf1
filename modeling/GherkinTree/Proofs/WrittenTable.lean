import GherkinTree.Proofs.RowReading
import GherkinTree.Proofs.Stray

/-!
Tables written from values between other lines of a source. The rows stand under the line with the
keyword of a step or of examples, and the reader comes to them with nothing pending but blank lines
and comments. Main statement: they are read back as a table with the values, in which every row is
closed and with which nothing is wrong. A fence that has strayed below makes the reader cut the cells
of a scenario that is no outline, and then a value may be another.
-/

namespace GherkinTree

open Element Grammar

/-- The row ends with a line break. -/
def WrittenRow.Breaks (r : WrittenRow) : Prop := r.ending = ['\n'] ∨ r.ending = ['\r', '\n']

/-- Rows below one another, between other lines of a source. -/
structure WrittenTable where
  above : Text
  rows : List WrittenRow
  below : Text
  nonempty : rows ≠ []
  /-- The first row begins a line. -/
  opens : above = [] ∨ above.getLast? = some '\n'
  breaks : ∀ r ∈ rows.dropLast, r.Breaks
  /-- The last row may end with the source. -/
  last : ∀ r ∈ rows.getLast?, r.Breaks ∨ (r.ending = [] ∧ below = [])
  /-- What follows is no row of the same table. -/
  ends : ∀ l ∈ (Cursor.cutTrivia (Line.split below)).2.head?, l.content.head? ≠ some '|'

namespace WrittenTable

variable (w : WrittenTable)

/-- The lines of the table. -/
def lines : List Line := w.rows.map WrittenRow.line

def source : Text := w.above ++ (Line.join w.lines ++ w.below)

/-- Where the first line of the table begins. -/
def start : Nat := Text.width w.above

/-- Where the last line of the table ends. -/
def stop : Nat := w.start + Text.width (Line.join w.lines)

/-- Every row is a line of the source. -/
theorem split_source :
    Line.split w.source = Line.split w.above ++ (w.lines ++ Line.split w.below) := by
  have hrows (rows : List WrittenRow) (hbreaks : ∀ r ∈ rows.dropLast, r.Breaks)
      (hlast : ∀ r ∈ rows.getLast?, r.Breaks ∨ (r.ending = [] ∧ w.below = [])) :
      Line.split (Line.join (rows.map WrittenRow.line) ++ w.below) =
        rows.map WrittenRow.line ++ Line.split w.below := by
    induction rows with
    | nil => rfl
    | cons r rows ih =>
      have hcut (u : Text) (h : r.Breaks ∨ (r.ending = [] ∧ u = [])) :
          Line.split (r.line.content ++ (r.line.ending ++ u)) = r.line :: Line.split u :=
        Line.split_content r.newline_not_mem_content (by rw [r.getLast?_content]; decide)
          (or_assoc.1 (h.imp_right fun h => ⟨h.1, h.2, r.content_ne_nil⟩))
      rw [List.map_cons, Line.join_cons, Line.full, List.append_assoc, List.append_assoc]
      by_cases hnil : rows = []
      · subst hnil
        exact hcut w.below (hlast r rfl)
      · rw [List.dropLast_cons_of_ne_nil hnil, List.forall_mem_cons] at hbreaks
        rw [List.getLast?_cons_of_ne_nil hnil] at hlast
        rw [hcut _ (.inl hbreaks.1), ih hbreaks.2 hlast]
        rfl
  rw [source, Line.split_append w.opens, lines, hrows w.rows w.breaks w.last]

theorem ofText_source : SourceLine.ofText w.source =
    SourceLine.ofText w.above ++ SourceLine.listFrom w.start (w.lines ++ Line.split w.below) := by
  rw [SourceLine.ofText, split_source, SourceLine.listFrom_append, Line.join_split, Nat.zero_add]
  rfl

theorem width_source : Text.width w.source = w.stop + Text.width w.below := by
  rw [source, stop, start, Text.width_append, Text.width_append, Nat.add_assoc]

/-- The first row. -/
theorem exists_first (w : WrittenTable) :
    ∃ (r : WrittenRow) (ls : List Line), w.lines ++ Line.split w.below = r.line :: ls := by
  obtain ⟨r, rs, hrows⟩ := List.exists_cons_of_ne_nil w.nonempty
  exact ⟨r, rs.map WrittenRow.line ++ Line.split w.below, by rw [lines, hrows]; rfl⟩

/-- No row follows. -/
theorem row?_eq_none (d : Dialect) (outline : Bool) {c : Cursor}
    (hc : c.lines = Line.split w.below) : row? d outline c = none := by
  refine Grammar.row?_eq_none outline fun a ha hk => ?_
  have hf := Dialect.fits_of_peek? ha
  obtain ⟨u, hu⟩ := Dialect.classify_eq_tableRow (hf.kind ▸ hk)
  have hlines := hf.lines
  rw [hf.cursor, Cursor.lines_advance, hc] at hlines
  refine w.ends a.line ?_ ?_
  · rw [hlines]
    rfl
  · rw [hu]
    rfl

/-- The rows stand under the line with a token, with nothing but certain lines in between. -/
def StandsUnder (t : PlacedToken) (between : SourceLine → Prop) : Prop :=
  ∃ passed l ls, SourceLine.ofText w.above = passed ++ l :: ls ∧ l.offset ≤ t.span.start ∧
    t.span.start < l.stop ∧ ∀ m ∈ ls, between m

/-- Behind the line with the token come the lines in between and the rows. -/
theorem lines_behind {w : WrittenTable} {t : PlacedToken} {between : SourceLine → Prop}
    {d : Dialect} {a : Ahead} (h : w.StandsUnder t between) (hp : a.cursor.PlacedIn w.source)
    (ha : d.peek? a.cursor = some a) (ht : t.span.start = a.cursor.offset) :
    ∃ gap : List SourceLine,
      a.cursor.lines.tail = gap.map SourceLine.line ++ (w.lines ++ Line.split w.below) ∧
        ∀ m ∈ gap, between m := by
  obtain ⟨passed, l, ls, hl, hlo, hol, hbetween⟩ := h
  obtain ⟨passed', rs, hrs, hf⟩ := hp.faces
  obtain ⟨ts, m, rfl, -, hm, hstart, -⟩ := hf.ahead ha
  rw [ht] at hlo hol
  have habove : SourceLine.ofText w.source =
      passed ++ l :: (ls ++ SourceLine.listFrom w.start (w.lines ++ Line.split w.below)) := by
    rw [ofText_source, hl, List.append_assoc, List.cons_append]
  have hbehind : SourceLine.ofText w.source =
      (passed' ++ ts) ++ m :: SourceLine.listFrom m.stop a.cursor.lines.tail := by
    rw [hrs, List.append_assoc]
  obtain ⟨rfl, hlines⟩ := SourceLine.unique_of_split habove hbehind hlo hol
    (hstart ▸ m.offset_le_start) (hstart ▸ SourceLine.start_lt_stop hm)
  refine ⟨ls, ?_, hbetween⟩
  have hmap := congrArg (List.map SourceLine.line) hlines
  rwa [SourceLine.map_line_listFrom, List.map_append, SourceLine.map_line_listFrom, eq_comm] at hmap

/-- What reading a table gives that stands in front of the reader. -/
structure Reads (w : WrittenTable) (outline : Bool) (o : Nat) (p : Node × Cursor) : Prop where
  rows : ∃ nodes, p.1 = .ofTable nodes ∧
    List.Forall₂ (fun r n => r.IsReadAs outline n) w.rows nodes
  start : o ≤ w.start
  stop : o + p.1.fullWidth = w.stop

variable {w : WrittenTable} {d : Dialect} {c : Cursor} {o : Nat} {gap : List Line}

/-- With nothing pending but blank lines and comments, the reader takes the rows as a table. -/
theorem exists_reads (w : WrittenTable) (d : Dialect) (outline : Bool)
    (hc : c.OpensAt w.source o) (hp : c.pending = [])
    (hl : c.lines = gap ++ (w.lines ++ Line.split w.below))
    (hg : ∀ m ∈ gap, Line.isTrivial (Text.trimStart m.content) = true) :
    ∃ a, d.peek? c = some a ∧ a.kind = .tableRow ∧
      w.Reads outline o (table d outline a.cursor) := by
  obtain ⟨nodes, last, hcollect, hreads, hlines, hpending⟩ :=
    WrittenRow.collect_rows w.nonempty d outline (fun c => w.row?_eq_none d outline) hl hg
      (hp ▸ Trivia.quiet_nil)
  obtain ⟨r, ls, hfirst⟩ := w.exists_first
  obtain ⟨a, ha, -, hkind, -⟩ := d.exists_peek?_of_lines (hfirst ▸ hl) hg r.not_trivial_line
  rw [r.trimStart_content] at hkind
  have hadvance : a.cursor.OpensAt w.source o := by
    rw [(Dialect.fits_of_peek? ha).cursor]
    exact Survey.advance_origin hc
  have htable : table d outline a.cursor = (.ofTable nodes, last) := by
    have hrow := row?_of_row outline ha hkind
    have hrow' := row?_of_row outline (Dialect.peek?_cursor ha) hkind
    rw [Cursor.collect_of_some hrow (headway_row? d outline _ _ _ hrow).1] at hcollect
    rw [table, Cursor.collect_of_some hrow' (headway_row? d outline _ _ _ hrow').1, hcollect]
  refine ⟨a, ha, hkind, ⟨nodes, by rw [htable], hreads⟩, ?_, ?_⟩
  · have htotal := hc.placed.total
    have hstarts : c.offset = o + Trivia.widthOf c.pending := hc.starts
    rw [hl, Line.join_append, Line.join_append, Line.join_split, Text.width_append,
      Text.width_append, w.width_source, stop] at htotal
    omega
  · have hyields : (Survey.origin w.source d []).Yields none o _ (table d outline a.cursor).2 :=
      (Survey.sound_origin w.source d []).table outline hadvance
    have hplace := hyields.place
    rw [htable] at hplace ⊢
    have htotal := hplace.placed.total
    have hstarts : last.offset = o + fullWidthAll [(Node.ofTable nodes).toElement] +
      Trivia.widthOf last.pending := hplace.starts
    have hwidth : fullWidthAll [(Node.ofTable nodes).toElement] =
        (Node.ofTable nodes).fullWidth := by
      simp [Node.toElement, Node.fullWidth]
    dsimp only at htotal ⊢
    rw [hlines, Line.join_split, w.width_source] at htotal
    rw [hpending, Trivia.widthOf_nil, hwidth] at hstarts
    omega

/-- The rows have been read back as a table. -/
structure ReadBack (w : WrittenTable) (f : FeatureFile) (t : TableView) : Prop where
  values : t.values = w.rows.map WrittenRow.values
  closed : ∀ v ∈ t.rows, v.isClosed = true
  /-- The lines of the rows are in the table. -/
  covers : t.node.fullSpan.start ≤ w.start ∧ t.node.fullSpan.stop = w.stop
  /-- No diagnostic is one of the table. -/
  quiet : ∀ u ∈ t.node.descendantTokens, u.diagnostics f.dialect = []
  /-- No diagnostic reaches into the lines of the rows. -/
  apart : ∀ x ∈ f.diagnostics, x.span.stop ≤ w.start ∨ w.stop ≤ x.span.start

/-- A table that is read behind other children of a node is that of the rows. -/
theorem Reads.readBack {o : Options} (ho : o.dialect ∈ Dialect.bundled) {outline : Bool}
    {n : PlacedNode} {es : List Element} {p : Node × Cursor}
    (h : w.Reads outline (n.offset + fullWidthAll es) p)
    (hn : n ∈ (FeatureFile.parse o w.source).root.descendants)
    (hc : n.node.children = es ++ [p.1.toElement]) (hes : ∀ x ∈ nodesOf es, x.kind ≠ .table)
    (hform : p.1.IsTable false) :
    ∃ t : TableView, View.childOf? .table n = some t ∧
      w.ReadBack (FeatureFile.parse o w.source) t := by
  obtain ⟨nodes, hnodes, hreads⟩ := h.rows
  have hkind : ViewType.table.accepts p.1.kind = true := by
    rw [hform.kind_eq]
    rfl
  have hother : ∀ x ∈ nodesOf es, ViewType.table.accepts x.kind = false := by
    intro x hx
    have hne := hes x hx
    cases hk : x.kind <;> first | rfl | exact absurd hk hne
  obtain ⟨t, ht, hnode, hoffset, hmem⟩ := View.childOf?_behind hc hkind hother
  have htmem := PlacedNode.mem_descendants_of_mem_childNodes hn hmem
  have hfilled := (FeatureFile.filled_root o w.source).of_mem htmem
  obtain ⟨hvalues, hclosed⟩ := TableView.read hfilled (hnode ▸ hform) (hnode.trans hnodes) hreads
  have hquiet : ∀ u ∈ tokensAll t.node.node.children, u.Quiet := by
    rw [hnode, hnodes]
    exact WrittenRow.quiet_of_isReadAs hreads
  have hcovers : t.node.fullSpan.start ≤ w.start ∧ t.node.fullSpan.stop = w.stop := by
    have hstart := h.start
    have hstop := h.stop
    rw [← hoffset] at hstart hstop
    rw [← hnode] at hstop
    exact ⟨hstart, hstop⟩
  refine ⟨t, ht, hvalues, hclosed, hcovers, fun u hu => ?_, fun x hx => ?_⟩
  · refine PlacedToken.diagnostics_eq_nil (hquiet _ ?_) _
    rw [← PlacedNode.map_token_descendantTokens]
    exact List.mem_map_of_mem hu
  · obtain ⟨u, hu, hxu⟩ := List.mem_flatMap.1 ((FeatureFile.mem_diagnostics_iff ho w.source x).1 hx)
    have hapart := PlacedNode.apart_of_quiet hfilled htmem hquiet hu hxu
    omega

end WrittenTable

namespace Grammar

variable {d : Dialect} {c : Cursor} {a : Ahead}

theorem keyword_stepLine (outline : Bool) (m : KeywordMatch) (a : Ahead) :
    (stepLine outline m a).1.kind = .ofRole m.role ∧
      (stepLine outline m a).1.leading = a.cursor.pending := by
  unfold stepLine
  dsimp only
  split <;> exact ⟨rfl, rfl⟩

theorem table?_of_row (ha : d.peek? c = some a) (hk : a.kind = .tableRow) :
    table? d c = (some (table d false a.cursor).1, (table d false a.cursor).2) := by
  obtain ⟨cur, l, k⟩ := a
  cases hk
  simp only [table?, ha]

end Grammar

/-- A table among the children of a step is of the form of the step. -/
theorem Node.IsStep.isTable_of_mem {n m : Node} {outline : Bool} (h : n.IsStep outline)
    (hm : m ∈ nodesOf n.children) (hk : m.kind = .table) : m.IsTable outline := by
  cases h with
  | mk hkind hkeyword htext hargument =>
    simp only [ofStep, nodesOf_token, nodesOf_toElement, nodesOf_optional, List.mem_cons,
      Option.mem_toList] at hm
    rcases hm with rfl | hm
    · rcases htext.kind_eq with he | he <;> rw [hk] at he <;> cases he
    · refine (hargument m hm).resolve_right fun hdoc => ?_
      rw [hdoc.kind_eq] at hk
      cases hk

namespace StepView

variable {o : Options} {w : WrittenTable} {x : StepView} {k : PlacedToken}

/-- Rows under the line of a step whose texts are not cut at placeholders. -/
theorem exists_readBack (ho : o.dialect ∈ Dialect.bundled)
    (hx : x.node ∈ (FeatureFile.parse o w.source).root.descendants)
    (hform : x.node.node.IsStep false) (hk : x.keyword? = some k)
    (hu : w.StandsUnder k fun l => l.isTrivial = true) :
    ∃ t, x.table? = some t ∧ w.ReadBack (FeatureFile.parse o w.source) t := by
  have hkind : x.node.node.kind = .step := hform.kind_eq
  obtain ⟨outline, a, m, hopen, ha, hm, hnode⟩ :=
    (FeatureFile.origin_of_mem_descendants hx).step hkind
  obtain ⟨hkeyword, hleading⟩ := keyword_stepLine outline m a
  obtain ⟨ts, es, -, -, hbehind⟩ := stepLine_eq outline ha hm
  rw [step_eq_stepLine] at hnode
  dsimp only at hnode
  -- the keyword is the first token, right where the line ahead begins
  have hfirst : x.node.firstToken? = some ⟨(stepLine outline m a).1, x.node.offset, 0, x.node⟩ :=
    PlacedNode.firstToken?_of_token (by rw [hnode]; rfl)
  obtain ⟨hfound, hrole⟩ := Option.filter_eq_some_iff.1 hk
  obtain rfl := Option.some.inj (hfirst.symm.trans hfound)
  have hstart : x.node.offset + (stepLine outline m a).1.leadingWidth = a.cursor.offset := by
    rw [Token.leadingWidth, hleading]
    exact hopen.starts.symm
  have hstep : m.role.isStep = true := by
    simpa [PlacedToken.kind, hkeyword, Kind.isStepKeyword] using hrole
  obtain ⟨gap, hlines, hgap⟩ := WrittenTable.lines_behind hu hopen.placed ha hstart
  have hline : (Survey.origin w.source _ []).Yields (some .step) x.node.offset
      [.token (stepLine outline m a).1, (stepLine outline m a).2.1.toElement]
      (stepLine outline m a).2.2 :=
    (Survey.sound_origin w.source _ []).stepLine ⟨ha, hopen⟩ hm hstep
  have hplace := hline.place
  rw [hbehind] at hplace
  obtain ⟨b, hb, hrow, hreads⟩ := w.exists_reads _ outline hplace rfl hlines
    (List.forall_mem_map.2 hgap)
  rw [hbehind, argument_of_row outline hb hrow] at hnode
  refine hreads.readBack ho hx (by rw [hnode]; rfl) ?_ ?_
  · intro y hy hk
    rw [nodesOf_token, nodesOf_toElement, nodesOf_nil, List.mem_singleton] at hy
    rcases kind_text_stepLine outline m a with he | he <;> rw [← hy, hk] at he <;> cases he
  · refine hform.isTable_of_mem ?_ rfl
    rw [hnode]
    simp [Node.ofStep]

end StepView

namespace ExamplesView

variable {o : Options} {w : WrittenTable} {e : ExamplesView} {k : PlacedToken}

/-- Rows under the line of examples. -/
theorem exists_readBack (ho : o.dialect ∈ Dialect.bundled)
    (he : e.node ∈ (FeatureFile.parse o w.source).root.descendants) (hk : e.keyword? = some k)
    (hu : w.StandsUnder k fun l => l.isTrivial = true ∨
      (FeatureFile.parse o w.source).dialect.classify l.body = .text) :
    ∃ t, e.table? = some t ∧ w.ReadBack (FeatureFile.parse o w.source) t := by
  generalize hd : (FeatureFile.parse o w.source).dialect = d at hu
  obtain ⟨c, hopen, hrole, hnode⟩ := (FeatureFile.origin_of_mem_descendants he).examples
    (ViewType.eq_of_accepts e.fits rfl (by decide))
  rw [hd] at hrole hnode
  have hopens : opens .examples .examples = true := rfl
  have hheader := isOf_header hrole hopens rfl
  have hyields : (Survey.origin w.source d []).Yields none e.node.offset
      (header d .examples c).1.elements (header d .examples c).2 :=
    (Survey.sound_origin w.source d []).header (by decide) hrole hopens rfl hopen
  obtain ⟨a, m, htitle⟩ := hopen.exists_title hrole hopens rfl
  have hbelow : (header d .examples c).2 = (description d (a.take [])).2 := by rw [htitle.header]
  rw [examples_eq_table?] at hnode
  dsimp only at hnode
  obtain ⟨k', hk', hstart⟩ := htitle.exists_keyword (s := e) (by rw [hnode]; rfl)
  obtain rfl := Option.some.inj (hk.symm.trans hk')
  obtain ⟨gap, hlines, hgap⟩ :=
    WrittenTable.lines_behind hu htitle.place.placed htitle.ahead hstart
  obtain ⟨r, ls, hfirst⟩ := w.exists_first
  rw [hfirst] at hlines
  obtain ⟨gap', hlines', hgap', hpending⟩ := lines_description (c := a.take []) d hlines
    (List.forall_mem_map.2 hgap) r.not_trivial_line
    (by rw [r.trimStart_content, d.classify_bar]; simp) rfl
  rw [← hbelow] at hlines' hpending
  rw [← hfirst] at hlines'
  obtain ⟨b, hb, hrow, hreads⟩ := w.exists_reads d false hyields.place hpending hlines' hgap'
  rw [table?_of_row hb hrow] at hnode
  refine hreads.readBack ho he (by rw [hnode]; rfl) (fun x hx hk => ?_)
    (isTable_table false (Dialect.peek?_cursor hb) hrow)
  rcases hheader.kind_of_mem hx with he | he | he <;> rw [hk] at he <;> cases he

end ExamplesView

namespace FeatureFile

variable {o : Options}

/-- Every value is what its escaped text stands for, and the escaped text holds no line feed and no
bar without an odd number of backslashes in front. Rows of such texts, one a line, under a step of a
scenario that is no outline or under examples and their description are read back as a table of the
values, in which every row is closed and with which nothing is wrong. For steps this takes that no
line with a fence is skipped between the title of the scenario and the next title. -/
theorem readBack_parse (ho : o.dialect ∈ Dialect.bundled) (w : WrittenTable) :
    (∀ v, Cell.unescape (Cell.escape v) = v ∧ '\n' ∉ Cell.escape v ∧
      ∀ p s, Cell.escape v = p ++ '|' :: s → Cell.backslashesAtEnd p % 2 = 1) ∧
      (∀ s : ScenarioView, s.node ∈ (parse o w.source).root.descendants → s.isOutline = false →
        (∀ t, s.keyword? = some t → (parse o w.source).Unstrayed t) →
        ∀ x ∈ s.steps, ∀ k, x.keyword? = some k → w.StandsUnder k (fun l => l.isTrivial = true) →
        ∃ t, x.table? = some t ∧ w.ReadBack (parse o w.source) t) ∧
      ∀ e : ExamplesView, e.node ∈ (parse o w.source).root.descendants →
        ∀ k, e.keyword? = some k → w.StandsUnder k (fun l => l.isTrivial = true ∨
          (parse o w.source).dialect.classify l.body = .text) →
        ∃ t, e.table? = some t ∧ w.ReadBack (parse o w.source) t := by
  refine ⟨fun v => ?_, fun s hs houtline hx x hmem k hk hu => ?_, fun e he k hk hu => ?_⟩
  · exact ⟨Cell.unescape_escape v, Cell.newline_not_mem_escape v,
      fun p s => Cell.odd_backslashes_of_escape⟩
  · obtain ⟨outline, hsteps, -, hagrees⟩ := exists_isStep ho hs
    have hform := hsteps x hmem
    rw [hagrees hx, houtline] at hform
    have hnode := PlacedNode.mem_descendants_of_mem_childNodes hs
      (View.mem_of_mem_filterMap_cast? hmem)
    exact StepView.exists_readBack ho hnode hform hk hu
  · exact ExamplesView.exists_readBack ho he hk hu

/-- A line feed, a bar and a backslash in a value, an empty value and a row without cells, under a
step with a comment in between and under the description of examples. -/
theorem readBack_parse_scenario :
    let cell : WrittenCell := ⟨[' '], ['\n', '|', '\\'], ['\t'], by simp [Text.isBlank], by
      rintro c (h | h) <;> obtain rfl := Option.some.inj h <;> decide⟩
    let rows : List WrittenRow :=
      [⟨[' '], [cell, ⟨[], [], [], by simp, by simp⟩], ['\n'], by simp [Text.isBlank]⟩,
        ⟨[], [], [], by simp⟩]
    let w (above : Text) (h : above.getLast? = some '\n') : WrittenTable :=
      ⟨above, rows, [], by simp [rows], .inr h, by simp [rows, WrittenRow.Breaks], by simp [rows],
        by simp [Cursor.cutTrivia, Line.split]⟩
    let v := w "Scenario: s\nGiven a\n# c\n".toList (by decide)
    let u := w "Scenario: s\nExamples:\nd\n".toList (by decide)
    Options.default.dialect ∈ Dialect.bundled ∧
      v.source = "Scenario: s\nGiven a\n# c\n | \\n\\|\\\\\t||\n|".toList ∧
      (∃ s : ScenarioView, s.node ∈ (parse .default v.source).root.descendants ∧
        s.isOutline = false ∧ ∃ x ∈ s.steps, ∃ t, x.table? = some t ∧
          t.values = [[['\n', '|', '\\'], []], []] ∧ v.ReadBack (parse .default v.source) t) ∧
      ∃ e : ExamplesView, e.node ∈ (parse .default u.source).root.descendants ∧
        ∃ t, e.table? = some t ∧ u.ReadBack (parse .default u.source) t := by
  intro cell rows w v u
  have ho := Dialect.english_mem_bundled
  have hv : v.source = "Scenario: s\nGiven a\n# c\n | \\n\\|\\\\\t||\n|".toList := by decide
  have hu : u.source = "Scenario: s\nExamples:\nd\n | \\n\\|\\\\\t||\n|".toList := by decide
  refine ⟨ho, hv, ?_, ?_⟩
  · have hfacts : ((parse .default v.source).diagnostics.all
          (fun x => x.problem != .unexpectedContent "doc string") &&
        ((parse .default v.source).root.descendants.filterMap (View.cast? .scenario)).any
          fun s : ScenarioView => !s.isOutline && s.steps.any fun x =>
            x.keyword?.any fun k => k.span.start == 12) = true := by
      rw [hv, Options.default_eq]
      cbv
    simp only [Bool.and_eq_true, List.all_eq_true, bne_iff_ne, List.any_eq_true, Bool.not_eq_true',
      Option.any_eq_true, beq_iff_eq] at hfacts
    obtain ⟨hx, s, hs, houtline, x, hmem, k, hk, hstart⟩ := hfacts
    have hs := View.mem_of_mem_filterMap_cast? hs
    have hstands : v.StandsUnder k fun l => l.isTrivial = true :=
      ⟨[⟨0, ⟨"Scenario: s".toList, ['\n']⟩⟩], ⟨12, ⟨"Given a".toList, ['\n']⟩⟩,
        [⟨20, ⟨"# c".toList, ['\n']⟩⟩], by decide, by rw [hstart], by rw [hstart]; decide,
        by decide⟩
    have hunstrayed (t : PlacedToken) (_ : s.keyword? = some t) :
        (parse .default v.source).Unstrayed t :=
      unstrayed_of_diagnostics fun x hm hp => absurd hp (hx x hm)
    obtain ⟨t, ht, hread⟩ := (readBack_parse ho v).2.1 s hs houtline hunstrayed x hmem k hk hstands
    exact ⟨s, hs, houtline, x, hmem, t, ht, hread.values, hread⟩
  · have hfacts : ((parse .default u.source).root.descendants.filterMap (View.cast? .examples)).any
        (fun e : ExamplesView => e.keyword?.any fun k => k.span.start == 12) = true := by
      rw [hu, Options.default_eq]
      cbv
    simp only [List.any_eq_true, Option.any_eq_true, beq_iff_eq] at hfacts
    obtain ⟨e, he, k, hk, hstart⟩ := hfacts
    have he := View.mem_of_mem_filterMap_cast? he
    have hclassify : (parse .default u.source).dialect.classify "d".toList = .text := by
      rw [hu, Options.default_eq]
      cbv
    have hstands : u.StandsUnder k fun l => l.isTrivial = true ∨
        (parse .default u.source).dialect.classify l.body = .text := by
      refine ⟨[⟨0, ⟨"Scenario: s".toList, ['\n']⟩⟩], ⟨12, ⟨"Examples:".toList, ['\n']⟩⟩,
        [⟨22, ⟨"d".toList, ['\n']⟩⟩], by decide, by rw [hstart], by rw [hstart]; decide, ?_⟩
      rw [List.forall_mem_singleton]
      exact .inr hclassify
    obtain ⟨t, ht, hread⟩ := (readBack_parse ho u).2.2 e he k hk hstands
    exact ⟨e, he, t, ht, hread⟩

/-- A fence below the rows opens no doc string, yet hides the next scenario from the look ahead: the
cells are cut at a placeholder, though the scenario is no outline, and its name keeps its escape. -/
theorem stray_fence_keeps_escape :
    let w : WrittenTable :=
      ⟨"Scenario: s\nGiven a\n".toList,
        [⟨[], [⟨[], "<a|b>".toList, [], by simp, by
          rintro c (h | h) <;> obtain rfl := Option.some.inj h <;> decide⟩], ['\n'], by simp⟩],
        "\x22\x22\x22\nScenario: t\n\x22\x22\x22\nExamples:\n".toList, by simp, .inr (by decide),
        by simp, by simp [WrittenRow.Breaks], by decide⟩
    let f := parse .default w.source
    ∃ s : ScenarioView, s.node ∈ f.root.descendants ∧ s.isOutline = false ∧
      ∃ x ∈ s.steps, ∃ k, x.keyword? = some k ∧ w.StandsUnder k (fun l => l.isTrivial = true) ∧
        ∃ t, x.table? = some t ∧ t.values = [["<a\\|b>".toList]] ∧ ¬w.ReadBack f t := by
  intro w f
  have hw : w.source = ("Scenario: s\nGiven a\n|<a\\|b>|\n" ++
      "\x22\x22\x22\nScenario: t\n\x22\x22\x22\nExamples:\n").toList := by decide
  have hfacts : (f.root.descendants.filterMap (View.cast? .scenario)).any
      (fun s : ScenarioView => !s.isOutline && s.steps.any fun x =>
        x.keyword?.any fun k => k.span.start == 12 &&
          x.table?.any fun t => t.values == [["<a\\|b>".toList]]) = true := by
    dsimp only [f]
    rw [hw, Options.default_eq]
    cbv
  simp only [Bool.and_eq_true, List.any_eq_true, Bool.not_eq_true', Option.any_eq_true,
    beq_iff_eq] at hfacts
  obtain ⟨s, hs, houtline, x, hmem, k, hk, hstart, t, ht, hvalues⟩ := hfacts
  refine ⟨s, View.mem_of_mem_filterMap_cast? hs, houtline, x, hmem, k, hk, ?_, t, ht, hvalues,
    fun h => ?_⟩
  · exact ⟨[⟨0, ⟨"Scenario: s".toList, ['\n']⟩⟩], ⟨12, ⟨"Given a".toList, ['\n']⟩⟩, [], by decide,
      by rw [hstart], by rw [hstart]; decide, List.forall_mem_nil _⟩
  · have hwritten := h.values
    rw [hvalues] at hwritten
    exact absurd hwritten (by decide)

end FeatureFile

end GherkinTree
