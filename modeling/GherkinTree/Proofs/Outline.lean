import GherkinTree.Proofs.Accessor
import GherkinTree.Proofs.Anatomy

/-!
When the texts of a scenario are cut at their placeholders. The decision falls below the header of
the scenario, by a look through the lines ahead that takes every line with a fence for the start of a
doc string; a fence that is no argument of a step opens none. Main statements: where no such fence is
skipped among the steps, the look ahead finds examples exactly if the scenario then has some; all
texts of the steps of a scenario are cut or none, and the views show it.
-/

namespace GherkinTree

namespace Dialect

variable {d : Dialect} {c : Cursor} {a : Ahead} {ls : List Line} {l : Line}

/-- What the search for examples does with a line that is neither blank nor a comment. -/
theorem Proper.hasExamples_of_begins (hd : d.Proper) (hl : l.Begins) (ls : List Line) :
    d.hasExamples none (l :: ls) =
      match d.classify l.content with
      | .docString f => d.hasExamples (some f) ls
      | .keyword m =>
        if m.role = .examples then true
        else if m.role.isStructural then false else d.hasExamples none ls
      | _ => d.hasExamples none ls := by
  have htrim : Text.trim l.content = Text.trimEnd l.content := by rw [Text.trim, hl.trimStart]
  have hb : Line.isTrivial (Text.trimEnd l.content) = false := by
    rw [← htrim, Line.isTrivial_trim, hl.trimStart, hl.not_trivial]
  rw [hasExamples]
  simp only [htrim, hb, hd.classify_trimEnd hl]
  cases d.classify l.content <;> rfl

/-- Blank lines and comments do not matter to the search. -/
theorem hasExamples_cutTrivia (d : Dialect) (ls : List Line) :
    d.hasExamples none (Cursor.cutTrivia ls).2 = d.hasExamples none ls := by
  fun_induction Cursor.cutTrivia ls with
  | case1 => rfl
  | case2 l ls h ts rest hc ih => simp_all [hasExamples, Line.isTrivial_trim]
  | case3 l ls h =>
    have hb := Line.begins_of_not_trivial (by simpa using h) l.ending
    have hs : Text.trim (Text.trimStart l.content) = Text.trim l.content := by
      simp only [Text.trim, hb.trimStart]
    simp only [hasExamples, hs]

theorem hasExamples_eq_false (h : d.peek? c = none) : d.hasExamples none c.lines = false := by
  have hl : (Cursor.cutTrivia c.lines).2 = [] := peek?_eq_none_iff.1 h
  rw [← hasExamples_cutTrivia, hl]
  rfl

/-- What the search does with the line ahead. -/
theorem Proper.hasExamples_of_peek? (hd : d.Proper) (h : d.peek? c = some a) :
    d.hasExamples none c.lines =
      match a.kind with
      | .docString f => d.hasExamples (some f) a.cursor.lines.tail
      | .keyword m =>
        if m.role = .examples then true
        else if m.role.isStructural then false else d.hasExamples none a.cursor.lines.tail
      | _ => d.hasExamples none a.cursor.lines.tail := by
  have hf := fits_of_peek? h
  rw [← hasExamples_cutTrivia, ← Cursor.lines_advance, ← hf.cursor, hf.lines,
    hd.hasExamples_of_begins hf.begins, hf.kind]
  rfl

/-- Inside a doc string the search goes on behind the line that closes it. -/
theorem hasExamples_fence (d : Dialect) (f : Fence) (ls : List Line) :
    d.hasExamples (some f) ls = d.hasExamples none (f.behindBody ls).tail := by
  induction ls with
  | nil => rfl
  | cons l ls ih =>
    by_cases hc : f.closes l.content = true
    · simp [hasExamples, Fence.behindBody_cons, hc]
    · simp [hasExamples, Fence.behindBody_cons, hc, ih]

/-- In front of a structural keyword, tags left aside, the search tells whether it is examples. -/
theorem Proper.hasExamples_of_heads (hd : d.Proper) {r : Role} (hs : r.isStructural = true)
    (h : (d.kindAfterTags? ls).bind LineKind.role? = some r) :
    d.hasExamples none ls = (r == .examples) := by
  induction ls with
  | nil => cases h
  | cons l ls ih =>
    by_cases ht : Line.isTrivial (Text.trimStart l.content) = true
    · have hc : (Cursor.cutTrivia (l :: ls)).2 = (Cursor.cutTrivia ls).2 := by
        simp [Cursor.cutTrivia, ht]
      rw [kindAfterTags?, if_pos ht] at h
      rw [← hasExamples_cutTrivia, hc, hasExamples_cutTrivia]
      exact ih h
    · have hb := Line.begins_of_not_trivial (by simpa using ht) l.ending
      have hc : (Cursor.cutTrivia (l :: ls)).2 = ⟨Text.trimStart l.content, l.ending⟩ :: ls := by
        simp [Cursor.cutTrivia, ht]
      rw [← hasExamples_cutTrivia, hc, hd.hasExamples_of_begins hb]
      rw [kindAfterTags?, if_neg ht] at h
      cases hk : d.classify (Text.trimStart l.content) with
      | tags =>
        rw [hk] at h
        exact ih h
      | keyword m =>
        rw [hk] at h
        cases h
        by_cases he : m.role = .examples <;> simp [he, hs]
      | _ =>
        rw [hk] at h
        cases h

end Dialect

/-- No line with a fence is skipped from a place to a later one. -/
def Cursor.Unstrayed (c c' : Cursor) : Prop :=
  ∀ es, c'.events = c.events ++ es → ∀ span, .skippedLine span "doc string" ∉ es

/-- The way to a later place is part of the way by it. -/
theorem Cursor.Unstrayed.split {c c₁ c₂ : Cursor} (h : c.Unstrayed c₂) (h₁ : c.Onward c₁)
    (h₂ : c₁.Onward c₂) : c.Unstrayed c₁ ∧ c₁.Unstrayed c₂ := by
  obtain ⟨es, hes⟩ := h₁.events
  obtain ⟨fs, hfs⟩ := h₂.events
  have hall := h (es ++ fs) (by rw [← hfs, ← hes, List.append_assoc])
  refine ⟨fun es' he span hm => ?_, fun fs' hf span hm => ?_⟩
  · obtain rfl := List.append_cancel_left (hes.trans he)
    exact hall span (List.mem_append_left _ hm)
  · obtain rfl := List.append_cancel_left (hfs.trans hf)
    exact hall span (List.mem_append_right _ hm)

namespace Grammar

variable {d : Dialect} {c : Cursor} {a : Ahead} {outline : Bool}

/-- Rows of a table hide no examples. -/
theorem hasExamples_table (hd : d.Proper) (outline : Bool) (c : Cursor) :
    d.hasExamples none (table d outline c).2.lines = d.hasExamples none c.lines := by
  refine (headway_row? d outline).collect_induction
    (P := fun c p => d.hasExamples none p.2.lines = d.hasExamples none c.lines)
    (fun _ _ => rfl) (fun c xs next hs ih => ih.trans ?_) c
  by_cases hk : ∃ a, d.peek? c = some a ∧ a.kind = .tableRow
  · obtain ⟨a, ha, hk⟩ := hk
    obtain ⟨n, ts, es, -, -, heq⟩ := row?_eq outline ha hk
    rw [heq] at hs
    cases hs
    rw [hd.hasExamples_of_peek? ha, hk]
    rfl
  · rw [row?_eq_none outline fun a ha hk' => hk ⟨a, ha, hk'⟩] at hs
    cases hs

/-- The argument of a step hides no examples: the search passes the doc string that is read. -/
theorem hasExamples_argument (hd : d.Proper) (outline : Bool) (c : Cursor) :
    d.hasExamples none (argument d outline c).2.lines = d.hasExamples none c.lines := by
  cases ha : d.peek? c with
  | none => simp [argument, ha]
  | some a =>
    by_cases hrow : a.kind = .tableRow
    · rw [argument_of_row outline ha hrow, hasExamples_table hd, (Dialect.fits_of_peek? ha).cursor,
        Cursor.lines_advance, Dialect.hasExamples_cutTrivia]
    · by_cases hdoc : ∃ f, a.kind = .docString f
      · obtain ⟨f, hf⟩ := hdoc
        rw [argument_of_docString outline ha hf, (f.cursor_docString outline a).1,
          Ahead.lines_consume, ← Dialect.hasExamples_fence, hd.hasExamples_of_peek? ha, hf]
      · rw [argument_of_other outline ha hrow fun f hf => hdoc ⟨f, hf⟩]

theorem hasExamples_step (hd : d.Proper) (outline : Bool) {m : KeywordMatch}
    (ha : d.peek? c = some a) (hk : a.kind = .keyword m) (hm : m.role.isStep = true) :
    d.hasExamples none (step d outline m a).2.lines = d.hasExamples none c.lines := by
  obtain ⟨ts, es, -, -, hc⟩ := step_eq outline ha hk
  have hne : m.role ≠ .examples := by
    rintro he
    rw [he] at hm
    cases hm
  rw [hc, hasExamples_argument hd, hd.hasExamples_of_peek? ha, hk]
  simp [hne, Role.isStructural, hm]

/-- A line that is skipped among steps hides no examples, unless it is a fence. -/
theorem hasExamples_skip (hd : d.Proper) (ha : d.peek? c = some a)
    (hk : ∀ m, a.kind = .keyword m → m.role.isStep = false)
    (hn : (d.nextRole? c).any Role.isStructural = false) (hu : c.Unstrayed a.skip) :
    d.hasExamples none a.skip.lines = d.hasExamples none c.lines := by
  rw [hd.hasExamples_of_peek? ha]
  cases hkind : a.kind with
  | docString f =>
    have hdesc : a.kind.describe = "doc string" := by
      rw [hkind]
      rfl
    have hevents : a.skip.events = c.events ++ [.skippedLine
        (Span.ofWidth a.cursor.offset (Text.width (Text.trimEnd a.line.content))) "doc string"] := by
      rw [← hdesc, ← Cursor.events_advance c, ← (Dialect.fits_of_peek? ha).cursor]
      rfl
    exact absurd (List.mem_singleton_self _) (hu _ hevents _)
  | keyword m =>
    rw [Dialect.nextRole?_of_not_tags ha (by simp [hkind]), hkind] at hn
    simp [LineKind.role?, Role.isStructural, hk m hkind] at hn
  | _ => rfl

/-- Steps hide no examples, unless a fence is skipped among them. -/
theorem hasExamples_steps (hd : d.Proper) (outline : Bool) (c : Cursor)
    (hu : c.Unstrayed (steps d outline c).2) :
    d.hasExamples none (steps d outline c).2.lines = d.hasExamples none c.lines := by
  have hloop := headway_stepOrSkip? d outline
  refine hloop.collect_induction
    (P := fun c p => c.Unstrayed p.2 → d.hasExamples none p.2.lines = d.hasExamples none c.lines)
    (fun _ _ _ => rfl) (fun c xs next hs ih hu => ?_) c hu
  obtain ⟨hnext, hrest⟩ := hu.split (hloop c xs next hs).2 (hloop.onward_collect next)
  refine (ih hrest).trans ?_
  cases ha : d.peek? c with
  | none => simp [stepOrSkip?, ha] at hs
  | some a =>
    by_cases hk : ∃ m, a.kind = .keyword m ∧ m.role.isStep = true
    · obtain ⟨m, hk, hm⟩ := hk
      rw [stepOrSkip?_of_step outline ha hk hm] at hs
      cases hs
      exact hasExamples_step hd outline ha hk hm
    · have hk' (m : KeywordMatch) (hm : a.kind = .keyword m) : m.role.isStep = false := by
        simpa using fun hs => hk ⟨m, hm, hs⟩
      rw [stepOrSkip?_of_not_step outline ha hk'] at hs
      split at hs
      · cases hs
      · rename_i hn
        cases hs
        exact hasExamples_skip hd ha hk' (by simpa using hn) hnext

/-- In front of a structural keyword a scenario collects examples if examples are next. -/
theorem isEmpty_collect_examples (h : d.Heads c fun r => r.isStructural = true) :
    (c.collect (examplesOrSkip? d)).1.isEmpty = !(d.nextRole? c == some .examples) := by
  cases ha : d.peek? c with
  | none =>
    rw [Dialect.nextRole?_eq_none ha, Cursor.collect_of_none (by simp [examplesOrSkip?, ha])]
    rfl
  | some a =>
    obtain ⟨r, hr, hs⟩ := h a ha
    have heq := examplesOrSkip?_eq ha
    by_cases he : r = .examples
    · rw [hr, if_pos (by rw [he])] at heq
      rw [Cursor.collect_of_some heq (headway_examplesOrSkip? d _ _ _ heq).1, hr, he]
      rfl
    · rw [hr, if_neg (by simpa using he), if_pos (by simpa using hs)] at heq
      rw [Cursor.collect_of_none heq, hr]
      simp [he]

/-- The look ahead below the header of a scenario finds examples exactly if the scenario then
collects some, unless a fence is skipped among its steps. -/
theorem hasExamples_eq_isEmpty (hd : d.Proper) (outline : Bool) (c : Cursor)
    (hu : c.Unstrayed (steps d outline c).2) :
    d.hasExamples none c.lines =
      !((steps d outline c).2.collect (examplesOrSkip? d)).1.isEmpty := by
  have hheads : d.Heads (steps d outline c).2 fun r => r.isStructural = true :=
    heads_of_stepOrSkip? ((headway_stepOrSkip? d outline).collect_eq_none c)
  rw [← hasExamples_steps hd outline c hu, isEmpty_collect_examples hheads, Bool.not_not]
  cases ha : d.peek? (steps d outline c).2 with
  | none =>
    rw [Dialect.hasExamples_eq_false ha, Dialect.nextRole?_eq_none ha]
    rfl
  | some a =>
    obtain ⟨r, hr, hs⟩ := hheads a ha
    rw [hd.hasExamples_of_heads hs hr, hr]
    rfl

end Grammar

/-- A scenario all of whose texts are cut at their placeholders, or none; an outline by keyword has
them cut, and unless a fence has strayed, so has exactly an outline. -/
inductive Node.IsScenarioOf (unstrayed : Prop) : Node → Prop where
  | mk {outline : Bool} {r : Role} {h : Header} {steps examples : List Node}
      (hr : r.isScenario = true) (hh : h.IsOf (.ofRole r))
      (houtline : r = .scenarioOutline → outline = true)
      (hagrees : unstrayed → outline = (r == .scenarioOutline || !examples.isEmpty))
      (hsteps : ∀ n ∈ steps, n.IsStep outline) (hexamples : ∀ n ∈ examples, n.IsExamples) :
      IsScenarioOf unstrayed (ofScenario h steps examples)

namespace Grammar

/-- Behind the header of the scenario ahead. -/
def behindHeader (d : Dialect) (c : Cursor) : Cursor := (header d .scenario c).2

/-- Whether the texts of the scenario ahead are cut at their placeholders. -/
def cutsTexts (d : Dialect) (c : Cursor) : Bool :=
  (header d .scenario c).1.keyword.kind == .scenarioOutlineKeyword ||
    d.hasExamples none (behindHeader d c).lines

/-- Behind the steps of the scenario ahead. -/
def behindSteps (d : Dialect) (c : Cursor) : Cursor :=
  (steps d (cutsTexts d c) (behindHeader d c)).2

theorem onward_behindSteps (d : Dialect) (c : Cursor) :
    (behindSteps d c).Onward (scenario d c).2 :=
  (headway_examplesOrSkip? d).onward_collect _

theorem isScenarioOf_scenario {d : Dialect} (hd : d.Proper) {c : Cursor} {r : Role}
    (hr : d.nextRole? c = some r) (hs : r.isScenario = true) :
    (scenario d c).1.IsScenarioOf ((behindHeader d c).Unstrayed (behindSteps d c)) := by
  have hh := isOf_header hr (opens_scenario hs) (isStructural_of_isScenario hs)
  simp only [scenario, behindSteps, cutsTexts, behindHeader]
  generalize header d .scenario c = p at *
  obtain ⟨h, c₁⟩ := p
  dsimp only at *
  have hkey : (h.keyword.kind == .scenarioOutlineKeyword) = (r == .scenarioOutline) := by
    rw [hh.keyword.kind]
    rcases Role.eq_of_isScenario hs with rfl | rfl <;> rfl
  refine .mk hs hh (fun he => ?_) (fun hu => ?_) (isStep_of_mem_steps _)
    ((headway_examplesOrSkip? d).forall_mem_collect
      (fun _ _ _ => isExamples_of_examplesOrSkip?) _)
  · rw [hkey, he]
    rfl
  · rw [← hasExamples_eq_isEmpty hd _ c₁ hu, hkey]

end Grammar

/-- All texts of a step that are there are cut at their placeholders, or none of them. -/
structure StepView.Interpolates (outline : Bool) (s : StepView) : Prop where
  text : ∀ t, s.textNode? = some t → t.isMissing = false → t.isInterpolated = outline
  cells : ∀ t, s.table? = some t → ∀ r ∈ t.rows, ∀ c ∈ r.cells, c.isEmpty = false →
    c.text?.any TextView.isInterpolated = outline
  content : ∀ t, s.docString? = some t → ∀ u : TextView, View.childOf? .text t.node = some u →
    u.isInterpolated = outline

section Views

variable {outline : Bool}

theorem TextView.isInterpolated_eq {t : TextView} {k : Kind} (h : t.node.node.IsText k outline) :
    t.isInterpolated = outline := by
  rw [isInterpolated, PlacedNode.kind, h.kind_eq]
  cases outline <;> rfl

/-- A text that is lacking altogether. -/
theorem TextView.isMissing_of_lacking {t : TextView} {u : Token} {k : Kind} (hu : u.Lacking k)
    (ht : t.node.node = .ofLiterals [u]) : t.isMissing = true := by
  have htokens := PlacedNode.map_token_descendantTokens t.node
  have hall : (t.node.descendantTokens.map (·.token)).all (·.missing) = true := by
    rw [htokens, ht]
    simp [Node.ofLiterals, hu.lost]
  rwa [List.all_map] at hall

theorem CellView.isInterpolated_eq {c : CellView} (h : c.node.node.IsCell outline)
    (he : c.isEmpty = false) : c.text?.any TextView.isInterpolated = outline := by
  generalize hn : c.node.node = n at h
  have htext := View.map_node_childOf? .text c.node
  rw [hn] at htext
  cases h with
  | empty ht =>
    rw [isEmpty, PlacedNode.firstToken?_of_token (by rw [hn]; rfl), Option.any_some, ht.lost] at he
    cases he
  | plain ht =>
    have hnone : c.text? = none := Option.map_eq_none_iff.1 (htext.trans rfl)
    rw [hnone]
    rfl
  | @pieces m hm =>
    have hsome : (c.text?).map (·.node.node) = some m := by
      refine htext.trans ?_
      have haccepts : ViewType.text.accepts m.kind = true := by
        rw [hm.kind_eq]
        rfl
      simp [Node.ofCell, haccepts]
    obtain ⟨t, ht, rfl⟩ := Option.map_eq_some_iff.1 hsome
    rw [ht, Option.any_some]
    exact TextView.isInterpolated_eq hm

theorem nodesOf_rowElements (cells : List (Node × Token)) :
    Element.nodesOf (Row.elements cells) = cells.map Prod.fst := by
  induction cells with
  | nil => rfl
  | cons c cs ih => rw [Row.elements_cons, Element.nodesOf_toElement, Element.nodesOf_token, ih,
      List.map_cons]

theorem RowView.isCell_of_mem_cells {r : RowView} (h : r.node.node.IsRow outline) :
    ∀ c ∈ r.cells, c.node.node.IsCell outline := by
  intro c hc
  have hcell := View.mem_nodesOf_of_mem_childrenOf hc
  generalize r.node.node = n at h hcell
  cases h with
  | @mk bar cells hbar hcells =>
    have hnodes : Element.nodesOf (Node.ofRow bar cells).children = cells.map Prod.fst :=
      nodesOf_rowElements cells
    rw [hnodes] at hcell
    obtain ⟨x, hx, he⟩ := List.mem_map.1 hcell
    exact he ▸ hcells x hx

theorem TableView.isRow_of_mem_rows {t : TableView} (h : t.node.node.IsTable outline) :
    ∀ r ∈ t.rows, r.node.node.IsRow outline := by
  intro r hr
  have hrow := View.mem_nodesOf_of_mem_childrenOf hr
  generalize t.node.node = n at h hrow
  cases h with
  | mk hne hrows => exact hrows _ (by simpa [Node.ofTable] using hrow)

theorem DocStringView.isText_of_content {t : DocStringView} (h : t.node.node.IsDocString outline)
    {u : TextView} (hu : View.childOf? .text t.node = some u) :
    u.node.node.IsText .docStringContentToken outline := by
  have hcontent := View.mem_nodesOf_of_childOf? hu
  have hfits := u.fits
  rw [PlacedNode.kind] at hfits
  generalize t.node.node = n at h hcontent
  cases h with
  | mk hfirst htype hcontents hlast =>
    simp only [Node.ofDocString, List.cons_append, List.append_assoc, Element.nodesOf_token,
      Element.nodesOf_append, Element.nodesOf_optional, Element.nodesOf_nil, List.append_nil,
      List.mem_append, Option.mem_toList] at hcontent
    rcases hcontent with hc | hc
    · rw [(htype _ hc).kind_eq] at hfits
      cases hfits
    · exact hcontents _ hc

/-- The children of a step are its text and its argument. -/
theorem StepView.child_cases {s : StepView} (h : s.node.node.IsStep outline) {v : ViewType}
    {w : View v} (hw : View.childOf? v s.node = some w) :
    w.node.node.IsStepText outline ∨ w.node.node.IsTable outline ∨
      w.node.node.IsDocString outline := by
  have hmem := View.mem_nodesOf_of_childOf? hw
  generalize s.node.node = n at h hmem
  cases h with
  | mk hk hkeyword htext hargument =>
    simp only [Node.ofStep, Element.nodesOf_token, Element.nodesOf_toElement,
      Element.nodesOf_optional, List.mem_cons, Option.mem_toList] at hmem
    rcases hmem with he | he
    · exact .inl (he ▸ htext)
    · exact .inr (hargument _ he)

/-- A step of a form shows whether the texts of its scenario are cut. -/
theorem StepView.interpolates_of_isStep {s : StepView} (h : s.node.node.IsStep outline) :
    s.Interpolates outline := by
  constructor
  case text =>
    intro t ht hm
    have hfits := t.fits
    rw [PlacedNode.kind] at hfits
    rcases child_cases h ht with hc | hc | hc
    · generalize hu : t.node.node = u at hc
      cases hc with
      | lacking hl =>
        rw [TextView.isMissing_of_lacking hl hu] at hm
        cases hm
      | found hf => exact TextView.isInterpolated_eq (hu ▸ hf)
    · rw [hc.kind_eq] at hfits
      cases hfits
    · rw [hc.kind_eq] at hfits
      cases hfits
  case cells =>
    intro t ht r hr c hc hempty
    have hfits := t.fits
    rw [PlacedNode.kind] at hfits
    rcases child_cases h ht with hk | hk | hk
    · rcases hk.kind_eq with he | he <;> rw [he] at hfits <;> cases hfits
    · have hrow := TableView.isRow_of_mem_rows hk r hr
      exact CellView.isInterpolated_eq (RowView.isCell_of_mem_cells hrow c hc) hempty
    · rw [hk.kind_eq] at hfits
      cases hfits
  case content =>
    intro t ht u hu
    have hfits := t.fits
    rw [PlacedNode.kind] at hfits
    rcases child_cases h ht with hk | hk | hk
    · rcases hk.kind_eq with he | he <;> rw [he] at hfits <;> cases hfits
    · rw [hk.kind_eq] at hfits
      cases hfits
    · exact TextView.isInterpolated_eq (DocStringView.isText_of_content hk hu)

theorem Header.tokensOf_elements (h : Header) :
    Element.tokensOf h.elements = [h.keyword, h.colon] := by simp [Header.elements]

theorem Header.nodesOf_elements (h : Header) :
    Element.nodesOf h.elements =
      h.tags.toList ++ h.name.toList ++ h.description.toList := by simp [Header.elements]

/-- What a header holds is neither a step nor examples. -/
theorem Header.IsOf.kind_of_mem {h : Header} {k : Kind} (hh : h.IsOf k) {n : Node}
    (hn : n ∈ Element.nodesOf h.elements) :
    n.kind = .tags ∨ n.kind = .literalText ∨ n.kind = .description := by
  rw [nodesOf_elements, List.append_assoc, List.mem_append, List.mem_append, Option.mem_toList,
    Option.mem_toList, Option.mem_toList] at hn
  rcases hn with hn | hn | hn
  · exact .inl (hh.tags n hn).kind_eq
  · exact .inr (.inl (hh.name n hn).kind_eq)
  · exact .inr (.inr (hh.description n hn).kind_eq)

end Views

namespace ScenarioView

variable {s : ScenarioView} {h : Header} {k : Kind} {steps examples : List Node}

theorem isStep_of_mem_steps {outline : Bool} (hs : s.node.node = .ofScenario h steps examples)
    (hh : h.IsOf k) (hsteps : ∀ n ∈ steps, n.IsStep outline)
    (hexamples : ∀ n ∈ examples, n.IsExamples) : ∀ w ∈ s.steps, w.node.node.IsStep outline := by
  intro w hw
  have hmem := View.mem_nodesOf_of_mem_childrenOf hw
  have hfits := w.fits
  rw [PlacedNode.kind] at hfits
  rw [hs] at hmem
  simp only [Node.ofScenario, Element.nodesOf_append, Element.nodesOf_map_toElement,
    List.mem_append] at hmem
  rcases hmem with (hm | hm) | hm
  · rcases hh.kind_of_mem hm with he | he | he <;> rw [he] at hfits <;> cases hfits
  · exact hsteps _ hm
  · rw [(hexamples _ hm).kind_eq] at hfits
    cases hfits

theorem isEmpty_examples {outline : Bool} (hs : s.node.node = .ofScenario h steps examples)
    (hh : h.IsOf k) (hsteps : ∀ n ∈ steps, n.IsStep outline)
    (hexamples : ∀ n ∈ examples, n.IsExamples) : s.examples.isEmpty = examples.isEmpty := by
  have hmap := View.map_node_childrenOf .examples s.node
  have hnone : (Element.nodesOf h.elements ++ steps).filter
      (fun n => ViewType.examples.accepts n.kind) = [] := by
    refine List.filter_eq_nil_iff.2 fun n hn => ?_
    rcases List.mem_append.1 hn with hn | hn
    · rcases hh.kind_of_mem hn with he | he | he <;> rw [he] <;> decide
    · rw [(hsteps n hn).kind_eq]
      decide
  have hall : examples.filter (fun n => ViewType.examples.accepts n.kind) = examples :=
    List.filter_eq_self.2 fun n hn => by rw [(hexamples n hn).kind_eq]; rfl
  rw [hs] at hmap
  simp only [Node.ofScenario, Element.nodesOf_append, Element.nodesOf_map_toElement,
    List.filter_append (_ ++ _), hnone, hall, List.nil_append] at hmap
  rw [← hmap, List.isEmpty_map]
  rfl

theorem role?_eq {r : Role} (hs : s.node.node = .ofScenario h steps examples)
    (hh : h.IsOf (.ofRole r)) : s.role? = some r := by
  have htokens := PlacedNode.map_token_childTokens s.node
  rw [hs] at htokens
  simp only [Node.ofScenario, Element.tokensOf_append, Header.tokensOf_elements,
    Element.tokensOf_map_toElement, List.append_nil] at htokens
  have hkey : (s.node.childTokens.find? fun t => t.token.kind.isKeyword).map (·.token) =
      some h.keyword := by
    have hfind : (s.node.childTokens.map fun t => t.token).find? (fun t => t.kind.isKeyword) =
        (s.node.childTokens.find? fun t => t.token.kind.isKeyword).map (·.token) := List.find?_map
    rw [htokens] at hfind
    exact hfind.symm.trans (by simp [hh.keyword.kind, Kind.isKeyword])
  obtain ⟨t, ht, hkeyword⟩ := Option.map_eq_some_iff.1 hkey
  have hfound : s.keyword? = some t := ht
  rw [View.role?, hfound, Option.bind_some, PlacedToken.kind, hkeyword, hh.keyword.kind,
    Kind.role?_ofRole]

end ScenarioView

end GherkinTree
