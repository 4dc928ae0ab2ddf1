import GherkinTree.Proofs.CutLine
import GherkinTree.Proofs.Directive
import GherkinTree.Proofs.Escape

/-!
The bars of a table row. One scan of the whole line, in which a backslash escapes exactly the next
character, finds the bars that count; the reader looks for one after the other and begins anew
behind the blanks at the start of each cell. Main statement: both cut the line into the same cells.
-/

namespace GherkinTree

namespace Cell

/-- The cell on a stretch of a line. -/
def ofStretch (t : Text) : Cell :=
  ⟨Text.leadingBlanks t, Text.trim t, Text.trailingBlanks (Text.trimStart t)⟩

/-- A stretch whose blanks at the start have been cut off. -/
theorem ofStretch_append {b u : Text} (hb : ∀ c ∈ b, Text.isBlank c = true)
    (hu : Text.trimStart u = u) :
    ofStretch (b ++ u) = ⟨b, Text.trimEnd u, Text.trailingBlanks u⟩ := by
  have hstart : Text.trimStart (b ++ u) = u := by rw [Text.trimStart_append_of_blank hb, hu]
  have hlead : Text.leadingBlanks (b ++ u) = b := by
    have happ := Text.leadingBlanks_append_trimStart (b ++ u)
    rw [hstart] at happ
    exact List.append_cancel_right happ
  rw [ofStretch, Text.trim, hstart, hlead]

end Cell

namespace Row

variable {t u r : Text} {i : Nat}

/-- The indices of the bars of a text that begins at an index: a backslash escapes exactly the next
character, and `escaped` tells whether one stands in front of the text. -/
def barsFrom (index : Nat) (escaped : Bool) : Text → List Nat
  | [] => []
  | c :: t =>
    if escaped then barsFrom (index + 1) false t
    else if c = '|' then index :: barsFrom (index + 1) false t
    else barsFrom (index + 1) (c == '\\') t

/-- The indices of the bars of a line. -/
def bars (line : Text) : List Nat := barsFrom 0 false line

/-- The characters between two indices of a line. -/
def between (line : Text) (p : Nat × Nat) : Text := (line.take p.2).drop (p.1 + 1)

/-- The text behind the last bar of a line. -/
def behindBars (line : Text) : Text := line.drop ((bars line).getLastD 0 + 1)

/-- The row on a line that begins with a bar: a cell between each bar and the next, and a last one
without a bar if there is more than blanks behind the last bar. -/
def ofLine (line : Text) : Row :=
  let cells := ((bars line).zip (bars line).tail).map fun p => Cell.ofStretch (between line p)
  if (behindBars line).all Text.isBlank then ⟨cells, true, behindBars line⟩
  else ⟨cells ++ [Cell.ofStretch (behindBars line)], false, []⟩

theorem barsFrom_eq_map (i : Nat) (e : Bool) (t : Text) :
    barsFrom i e t = (barsFrom 0 e t).map (i + ·) := by
  induction t generalizing i e with
  | nil => rfl
  | cons c t ih =>
    simp only [barsFrom]
    rw [ih (i + 1), ih (i + 1), ih (0 + 1), ih (0 + 1)]
    split
    · simp [Nat.add_assoc]
    · split
      · simp [Nat.add_assoc]
      · simp [Nat.add_assoc]

/-- No bar is found up to where the search for the end of a cell stops. -/
theorem barsFrom_cutBar (i : Nat) (t : Text) :
    barsFrom i false t = barsFrom (i + (Cell.cutBar t).1.length) false (Cell.cutBar t).2 := by
  fun_induction Cell.cutBar t generalizing i with
  | case1 => rfl
  | case2 => rfl
  | case3 c hc => simp [barsFrom, hc]
  | case4 d t => rfl
  | case5 d t a b hab _ ih =>
    have hskip : barsFrom i false ('\\' :: d :: t) = barsFrom (i + 2) false t := by
      simp [barsFrom]
    rw [hskip, ih, hab]
    simp [Nat.add_assoc, Nat.add_comm 2]
  | case6 c d t hb hs a b hab ih =>
    have hskip : barsFrom i false (c :: d :: t) = barsFrom (i + 1) false (d :: t) := by
      have hc : (c == '\\') = false := by simpa using hs
      rw [barsFrom, if_neg Bool.false_ne_true, if_neg hb, hc]
    rw [hskip, ih, hab]
    simp [Nat.add_assoc, Nat.add_comm 1]

/-- The bars of a line are the first one and those from the end of the first cell on. -/
theorem bars_of_cutBar (h : Cell.cutBar t = (u, '|' :: r)) :
    bars ('|' :: t) = 0 :: (bars ('|' :: r)).map (('|' :: u).length + ·) := by
  have hbars : bars ('|' :: t) = 0 :: barsFrom 1 false t := rfl
  rw [hbars, barsFrom_cutBar, h, barsFrom_eq_map, List.length_cons, Nat.add_comm 1]
  rfl

theorem bars_of_open (h : (Cell.cutBar t).2 = []) : bars ('|' :: t) = [0] := by
  have hbars : bars ('|' :: t) = 0 :: barsFrom 1 false t := rfl
  rw [hbars, barsFrom_cutBar, h]
  rfl

/-- Behind the first cell a line is cut like the one that begins with the bar behind the cell. -/
theorem ofLine_of_cutBar (h : Cell.cutBar t = (u, '|' :: r)) :
    ofLine ('|' :: t) = ⟨Cell.ofStretch u :: (ofLine ('|' :: r)).cells, (ofLine ('|' :: r)).closed,
      (ofLine ('|' :: r)).rest⟩ := by
  have hline : '|' :: t = ('|' :: u) ++ ('|' :: r) := by
    have happ := Cell.cutBar_append t
    rw [h] at happ
    rw [← happ, List.cons_append]
  obtain ⟨B, hB⟩ : ∃ B, bars ('|' :: r) = 0 :: B := ⟨_, rfl⟩
  have hbars := bars_of_cutBar h
  have hbetween (p : Nat × Nat) : between ('|' :: t)
      (('|' :: u).length + p.1, ('|' :: u).length + p.2) = between ('|' :: r) p := by
    rw [between, hline, List.take_length_add_append, Nat.add_assoc, List.drop_length_add_append]
    rfl
  have hfirst : between ('|' :: t) (0, ('|' :: u).length + 0) = u := by
    rw [between, hline, List.take_length_add_append]
    simp
  have hbehind : behindBars ('|' :: t) = behindBars ('|' :: r) := by
    have hlast : (bars ('|' :: t)).getLastD 0 =
        ('|' :: u).length + (bars ('|' :: r)).getLastD 0 := by
      rw [hbars, hB]
      cases hlast : B.getLast? <;> simp [List.getLastD_eq_getLast?, List.getLast?_cons, hlast]
    rw [behindBars, hlast, hline, Nat.add_assoc, List.drop_length_add_append]
    rfl
  have hcells : ((bars ('|' :: t)).zip (bars ('|' :: t)).tail).map
      (fun p => Cell.ofStretch (between ('|' :: t) p)) =
      Cell.ofStretch u :: ((bars ('|' :: r)).zip (bars ('|' :: r)).tail).map
        (fun p => Cell.ofStretch (between ('|' :: r) p)) := by
    rw [hbars, hB]
    simp only [List.map_cons, List.tail_cons, List.zip_cons_cons, hfirst]
    rw [← List.map_cons (f := (('|' :: u).length + ·)), List.zip_map, List.map_map]
    simp only [Function.comp_def, Prod.map, hbetween]
  simp only [ofLine, hcells, hbehind]
  split <;> rfl

/-- Behind its first bar a line without a bar that counts is one cell or blank. -/
theorem ofLine_of_open (h : (Cell.cutBar t).2 = []) :
    ofLine ('|' :: t) =
      if t.all Text.isBlank then ⟨[], true, t⟩ else ⟨[Cell.ofStretch t], false, []⟩ := by
  rw [ofLine, behindBars, bars_of_open h]
  rfl

/-- The first cell is cut off where the first bar that counts stands, or at the end. -/
theorem cutBar_eq (t : Text) :
    let raw := (Cell.cutBar (Text.trimStart t)).1
    Cell.cutBar t = (Text.leadingBlanks t ++ raw, (Cell.cutBar (Text.trimStart t)).2) ∧
      Cell.ofStretch (Text.leadingBlanks t ++ raw) =
        ⟨Text.leadingBlanks t, Text.trimEnd raw, Text.trailingBlanks raw⟩ := by
  have hblank := Text.blank_leadingBlanks t
  refine ⟨?_, Cell.ofStretch_append hblank (Cell.trimStart_cutBar (Text.trimStart_trimStart t))⟩
  nth_rewrite 1 [← Text.leadingBlanks_append_trimStart t]
  exact Cell.cutBar_blanks hblank _

/-- The reader, which begins anew in each cell, cuts a row at the bars of the line. -/
theorem split_eq_ofLine (t : Text) : split t = ofLine ('|' :: t) := by
  fun_induction split t with
  | case1 t ht =>
    obtain ⟨hcut, -⟩ := cutBar_eq t
    have hblank : t.all Text.isBlank = true :=
      List.all_eq_true.2 (Text.trimStart_eq_nil_iff.1 (List.isEmpty_iff.1 ht))
    rw [List.isEmpty_iff.1 ht] at hcut
    rw [ofLine_of_open (by rw [hcut]; rfl), if_pos hblank]
  | case2 t ht raw cell hc =>
    obtain ⟨hcut, hcell⟩ := cutBar_eq t
    have hsolid : ¬ t.all Text.isBlank = true := fun h =>
      ht (List.isEmpty_iff.2 (Text.trimStart_eq_nil_iff.2 (List.all_eq_true.1 h)))
    have happ : Text.leadingBlanks t ++ (Cell.cutBar (Text.trimStart t)).1 = t := by
      simpa [hcut, hc] using Cell.cutBar_append t
    rw [happ] at hcell
    rw [ofLine_of_open (by rw [hcut, hc]), if_neg hsolid, hcell]
  | case3 t ht raw cell x r hc row ih =>
    obtain ⟨hcut, hcell⟩ := cutBar_eq t
    obtain rfl : x = '|' := by
      rcases Cell.cutBar_rest (Text.trimStart t) with h | ⟨u, h⟩
      · rw [hc] at h
        cases h
      · rw [hc] at h
        exact (List.cons.inj h).1
    rw [hc] at hcut
    rw [ofLine_of_cutBar hcut, hcell, ← ih]

end Row

namespace Grammar

/-- A line that begins with a bar is read as the row of its cells. A last bar that is lacking is
reported at the end of the content, and the reader goes on at the start of the next line. -/
theorem row?_of_bar (d : Dialect) (outline : Bool) (t ending : Text) (below : List Line)
    (offset : Nat) (pending : List Trivia) (events : List Event) :
    let line := '|' :: t
    let row := Row.ofLine line
    row? d outline ⟨⟨line, ending⟩ :: below, offset, pending, events⟩ =
      some ([row.node outline pending (Trivia.lineEnd row.rest ending)], {
        lines := below
        offset := offset + Text.width (line ++ ending)
        pending := []
        events := events ++ if row.closed then []
          else [.missing (offset + Text.width line) .verticalBarToken] }) := by
  intro line row
  have hbegins : Line.Begins ⟨line, ending⟩ := ⟨'|', t, rfl, by decide, by decide⟩
  have hpeek := Dialect.peek?_of_begins (d := d)
    (c := ⟨⟨line, ending⟩ :: below, offset, pending, events⟩) hbegins rfl
  have hrow : Row.split t = row := Row.split_eq_ofLine t
  rw [row?_of_row outline hpeek (d.classify_bar t)]
  simp only [line, List.tail_cons, hrow]
  rfl

end Grammar

end GherkinTree
