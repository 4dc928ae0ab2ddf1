import GherkinTree.Proofs.Fidelity
import GherkinTree.Proofs.Origin
import GherkinTree.Proofs.Outline
import GherkinTree.Proofs.Position
import Mathlib

/-!
Fences that have strayed, and the scenarios of a document whose texts are cut at their placeholders.
From the title of a scenario to the end of its steps the reader passes no line that opens a section,
so a fence that it skips there stands below that title and in front of the next. Main statements:
where no fence is skipped below the title of a scenario, its texts are cut exactly if it is an
outline; a skipped fence hides the examples behind it.
-/

namespace GherkinTree

open Element Grammar

namespace Scope

/-- The nearest section is a background that was kept, and yet another may come. -/
def Roomy (s : Scope) : Prop := s.nearest = some (.background, true) ∧ s.room = true

/-- No line that opens a section leads to such a scope: a background that is kept takes the room. -/
theorem Roomy.of_next {s : Scope} {k : LineKind} {b : Bool} (h : (s.next k b).Roomy) :
    k.role?.any Role.isStructural = false ∧ s.Roomy := by
  have hk : k.role?.any Role.isStructural = false := by
    cases k with
    | keyword m =>
      by_contra hm
      have hstep : m.role.isStep = false := by simpa [LineKind.role?, Role.isStructural] using hm
      obtain ⟨hnear, hroom⟩ := h
      simp only [next, hstep, Bool.false_eq_true, if_false, Option.some.injEq, Prod.mk.injEq]
        at hnear hroom
      rw [hnear.1, hnear.2] at hroom
      simp at hroom
    | _ => rfl
  obtain ⟨hnear, hroom⟩ := s.sameSection_next hk b
  exact ⟨hk, hnear ▸ h.1, hroom ▸ h.2⟩

end Scope

section Moves

variable {d : Dialect} {s s' : Scope} {c c' : Cursor} {ls : List Leaf} {fs : List Fate}

theorem Move.roomy (h : Move d s c ls fs s' c') (hs : s'.Roomy) :
    (∀ x ∈ fs, (x.kind d).role?.any Role.isStructural = false) ∧ s.Roomy := by
  cases h with
  | skip ahead _ =>
    rw [List.forall_mem_singleton, Ahead.fate, Fate.kind, ← (Dialect.fits_of_peek? ahead).kind]
    exact hs.of_next
  | keep ahead _ _ =>
    rw [List.forall_mem_singleton, Ahead.fate, Fate.kind, ← (Dialect.fits_of_peek? ahead).kind]
    exact hs.of_next
  | _ => exact ⟨List.forall_mem_nil _, hs⟩

/-- A run that ends in such a scope has passed no line that opens a section. -/
theorem Run.roomy (h : Run d s c ls fs s' c') (hs : s'.Roomy) :
    (∀ x ∈ fs, (x.kind d).role?.any Role.isStructural = false) ∧ s.Roomy := by
  induction h with
  | done => exact ⟨List.forall_mem_nil _, hs⟩
  | move first _ ih =>
    obtain ⟨hrest, hs₁⟩ := ih hs
    obtain ⟨hfirst, hs₀⟩ := first.roomy hs₁
    exact ⟨List.forall_mem_append.2 ⟨hfirst, hrest⟩, hs₀⟩

/-- The description and the steps below a title pass no line that opens a section. -/
theorem Grammar.exists_run_below_title (d : Dialect) (outline : Bool) (c : Cursor) :
    let p := steps d outline (description d c).2
    ∃ (s s' : Scope) (fs : List Fate),
      Run d s c (Node.optionalLeaves (description d c).1 ++ p.1.flatMap Node.leaves) fs s' p.2 ∧
        ∀ x ∈ fs, (x.kind d).role?.any Role.isStructural = false := by
  intro p
  -- as if they were those of a background that leaves room for another
  let s : Scope := ⟨some (.background, true), true, .header⟩
  obtain ⟨htext, hdescription⟩ := reads_description (d := d) (c := c) (s := s) rfl
  have hsteps := (reads_steps outline (s := s) rfl
    (Scope.settled_header rfl (by decide) htext)).2
  obtain ⟨fs, s', hrun, hsame, -⟩ := hdescription.append fun s' hs' => by rw [hs']; exact hsteps
  have hroomy : s'.Roomy := ⟨hsame.1, hsame.2⟩
  exact ⟨s, s', fs, hrun, (hrun.roomy hroomy).1⟩

end Moves

namespace FeatureFile

/-- The line stands below the title that begins at an offset and in front of the next title. -/
def Below (f : FeatureFile) (start : Nat) (l : SourceLine) : Prop :=
  ∃ above title between below, f.lines = above ++ title :: (between ++ l :: below) ∧
    title.start = start ∧
    ∀ m ∈ between, m ∈ f.significantLines → (f.kindOf m).role?.any Role.isStructural = false

/-- No line with a fence is skipped below the title with a keyword, in front of the next title. -/
def Unstrayed (f : FeatureFile) (k : PlacedToken) : Prop :=
  ∀ x ∈ f.diagnostics, x.problem = .unexpectedContent "doc string" →
    ∀ l, f.Below k.span.start l → ¬(l.offset ≤ x.span.start ∧ x.span.start < l.stop)

/-- Fences that are skipped above a keyword are not skipped below it. -/
theorem unstrayed_of_diagnostics {f : FeatureFile} {k : PlacedToken}
    (h : ∀ x ∈ f.diagnostics, x.problem = .unexpectedContent "doc string" →
      x.span.start < k.span.start) : f.Unstrayed k := by
  rintro x hx hp l ⟨above, title, between, below, hlines, hstart, -⟩ ⟨hle, -⟩
  have hlt := h x hx hp
  have hpairs := f.pairwise_lines
  rw [hlines, List.pairwise_append] at hpairs
  have hbelow := List.rel_of_pairwise_cons hpairs.2.1
    (List.mem_append_right between List.mem_cons_self)
  have hstop := title.start_add_width
  omega

end FeatureFile

/-- Bodies among the children of a node are bodies of the document. -/
theorem FeatureFile.mem_bodies_of_children {f : FeatureFile} {n : PlacedNode}
    (hn : n ∈ f.root.descendants) {es fs gs : List Element}
    (hc : n.node.children = es ++ fs ++ gs) {sp : Span}
    (hsp : sp ∈ Leaf.bodies (n.offset + fullWidthAll es) (leavesAll false fs)) : sp ∈ f.bodies := by
  have hsp := (mem_bodies_leavesAll sp _ false fs).1 hsp
  have hown : sp ∈ n.node.toElement.bodies n.offset := by
    rw [Node.toElement, bodies_node, hc, bodiesAll_append, bodiesAll_append]
    simpa using .inr (.inr (.inl hsp))
  have hbelow := PlacedNode.bodies_walkNodes [n]
  rw [List.flatMap_singleton] at hbelow
  rw [← hbelow] at hown
  obtain ⟨m, hm, hsp⟩ := List.mem_flatMap.1 hown
  rw [f.bodies_eq_flatMap]
  exact List.mem_flatMap.2 ⟨m, PlacedNode.mem_walkNodes_trans hn hm, hsp⟩

namespace Ledger

variable {f : FeatureFile} {d : Dialect} {b : Nat} {ls : List Leaf} {fs : List Fate}
  {ds : List Diagnostic} {es : List Entry} {e : Entry}

/-- Unexpected content is reported on one of the lines. -/
theorem exists_line (h : Ledger d b ls fs ds es) {x : Diagnostic} (hx : x ∈ ds)
    (hu : x.IsUnexpected) : ∃ e ∈ es, e.line.offset ≤ x.span.start ∧ x.span.start < e.line.stop := by
  rcases h.unexpected x hx hu with ⟨e, he, hv, hspan⟩ | ⟨e, he, -, hlt, hstop⟩
  · have hn : e.line.isTrivial = false := by
      rw [Bool.eq_false_iff]
      intro ht
      have htrivia := (h.trivia e he (by simp [hv])).2 ht
      rw [hv] at htrivia
      cases htrivia
    rw [hspan, SourceLine.trimmedSpan, Span.start_ofWidth]
    exact ⟨e, he, e.line.offset_le_start, SourceLine.start_lt_stop hn⟩
  · have hle := e.line.offset_le_start
    exact ⟨e, he, by omega, hstop⟩

/-- Where no line that opens a section is passed, no significant line opens one. -/
theorem role?_of_significant (h : Ledger f.dialect b ls fs ds es)
    (hfs : ∀ x ∈ fs, (x.kind f.dialect).role?.any Role.isStructural = false)
    (hbodies : ∀ sp ∈ Leaf.bodies b ls, sp ∈ f.bodies) (he : e ∈ es)
    (hl : e.line ∈ f.significantLines) : (f.kindOf e.line).role?.any Role.isStructural = false := by
  obtain ⟨hmem, hsig⟩ := List.mem_filter.1 hl
  simp only [Bool.and_eq_true, Bool.not_eq_true'] at hsig
  have hfate (hv : e.verdict.isSignificant = true) :
      (f.kindOf e.line).role?.any Role.isStructural = false := by
    refine hfs e.fate ?_
    rw [h.fates]
    exact List.mem_map_of_mem (List.mem_filter.2 ⟨he, hv⟩)
  cases hv : e.verdict with
  | trivia =>
    rw [(h.trivia e he (by simp [hv])).1 hv] at hsig
    cases hsig.1
  | kept => exact hfate (by rw [hv]; rfl)
  | skipped => exact hfate (by rw [hv]; rfl)
  | content =>
    obtain ⟨sp, hsp, hstart, hstop⟩ := h.contents e he hv
    have hpos : 0 < e.line.line.width := SourceLine.width_pos_of_mem_ofText hmem
    have hin : f.inBody e.line = true := by
      refine List.any_eq_true.2 ⟨sp, hbodies sp hsp, ?_⟩
      simp only [Span.contains, Bool.and_eq_true, decide_eq_true_eq]
      simp only [SourceLine.stop] at hstop
      omega
    rw [hin] at hsig
    cases hsig.2

end Ledger

namespace Grammar

variable {d : Dialect} {c : Cursor} {a : Ahead} {source : Text}

theorem keyword_titleLine (m : KeywordMatch) (a : Ahead) :
    (titleLine m a).1.keyword.kind = .ofRole m.role ∧
      (titleLine m a).1.keyword.leading = a.cursor.pending := by
  unfold titleLine
  dsimp only
  split <;> exact ⟨rfl, rfl⟩

/-- A header is its tags, the line with its keyword and the description below. -/
theorem header_eq {role r : Role} (hr : d.nextRole? c = some r) (ho : opens role r = true) :
    ∃ a m, d.peek? (tags d c).2 = some a ∧ a.kind = .keyword m ∧ m.role = r ∧
      header d role c =
        (⟨(tags d c).1, (titleLine m a).1.keyword, (titleLine m a).1.colon, (titleLine m a).1.name,
          (description d (titleLine m a).2).1⟩, (description d (titleLine m a).2).2) := by
  obtain ⟨hnext, hnone⟩ := nextRole?_tags d c
  rw [hr] at hnext
  obtain ⟨a, ha⟩ := Dialect.exists_peek? hnext
  have hkind := Dialect.nextRole?_of_not_tags ha (not_tags_of_tagLine? hnone ha)
  rw [hnext] at hkind
  cases hk : a.kind with
  | keyword m =>
    rw [hk] at hkind
    obtain rfl := Option.some.inj hkind
    refine ⟨a, m, ha, hk, rfl, ?_⟩
    rw [← title_eq ha hk ho]
    rfl
  | _ =>
    rw [hk] at hkind
    cases hkind

end Grammar

/-- The line with the keyword of a section that begins at an offset with its tags. -/
structure Ahead.Titles (a : Ahead) (source : Text) (d : Dialect) (role : Role) (c : Cursor) (o : Nat)
    (m : KeywordMatch) : Prop where
  ahead : d.peek? a.cursor = some a
  kind : a.kind = .keyword m
  place : a.cursor.OpensAt source (o + fullWidthAll (Node.optional (tags d c).1))
  behind : (a.take []).OpensAt source (o + fullWidthAll (Node.optional (tags d c).1 ++
    (titleLine m a).1.elements))
  header : header d role c =
    (⟨(tags d c).1, (titleLine m a).1.keyword, (titleLine m a).1.colon, (titleLine m a).1.name,
      (description d (a.take [])).1⟩, (description d (a.take [])).2)

/-- A section that is read from a place of the source has a line with its keyword. -/
theorem Cursor.OpensAt.exists_title {source : Text} {d : Dialect} {o : Nat} {c : Cursor}
    {role r : Role} (h : c.OpensAt source o) (hr : d.nextRole? c = some r)
    (ho : opens role r = true) (hs : r.isStructural = true) :
    ∃ (a : Ahead) (m : KeywordMatch), a.Titles source d role c o m := by
  obtain ⟨a, m, ha, hk, rfl, hheader⟩ := header_eq hr ho
  obtain ⟨-, -, -, hnext⟩ := titleLine_eq ha hk hs
  rw [hnext] at hheader
  have hsound := Survey.sound_origin source d []
  have htags : (Survey.origin source d []).Yields none o _ (tags d c).2 := hsound.tags h
  have hf := hsound.peek htags.place ha
  have htitle : (Survey.origin source d []).Yields none _ _ (titleLine m a).2 :=
    hsound.title (by decide) hf hk hs
  rw [hnext] at htitle
  refine ⟨a, m, hf.ahead, hk, hf.place, ?_, hheader⟩
  rw [fullWidthAll_append, ← Nat.add_assoc]
  exact htitle.place

/-- The keyword of a section begins where the line with it does. -/
theorem Ahead.Titles.exists_keyword {v : ViewType} {s : View v} {source : Text} {d : Dialect}
    {a : Ahead} {role : Role} {c : Cursor} {m : KeywordMatch}
    (h : a.Titles source d role c s.node.offset m) {es : List Element}
    (hc : s.node.node.children = (Grammar.header d role c).1.elements ++ es) :
    ∃ k, s.keyword? = some k ∧ k.span.start = a.cursor.offset := by
  rw [h.header] at hc
  obtain ⟨hkind, hleading⟩ := keyword_titleLine m a
  obtain ⟨k, hk, htoken, hoffset⟩ := View.keyword?_of_header hc (by simp [hkind, Kind.isKeyword])
  refine ⟨k, hk, ?_⟩
  rw [PlacedToken.span, Span.start_ofWidth, hoffset, htoken, Token.leadingWidth, hleading]
  exact h.place.starts.symm

/-- The bodies below the title of a scenario up to the end of its steps. -/
theorem Ahead.Titles.mem_bodies_of_scenario {f : FeatureFile} {source : Text} {d : Dialect}
    {a : Ahead} {c : Cursor} {m : KeywordMatch} {n : PlacedNode}
    (h : a.Titles source d .scenario c n.offset m) (hn : n ∈ f.root.descendants)
    (hnode : n.node = (scenario d c).1) :
    let below := description d (a.take [])
    ∀ sp ∈ Leaf.bodies
      (n.offset + fullWidthAll (Node.optional (tags d c).1 ++ (titleLine m a).1.elements))
      (Node.optionalLeaves below.1 ++ (steps d (cutsTexts d c) below.2).1.flatMap Node.leaves),
      sp ∈ f.bodies := by
  intro below sp hsp
  have hbelow : behindHeader d c = below.2 := by rw [behindHeader, h.header]
  have hchildren : n.node.children = (Node.optional (tags d c).1 ++ (titleLine m a).1.elements) ++
      (Node.optional below.1 ++ (steps d (cutsTexts d c) below.2).1.map Node.toElement) ++
        ((behindSteps d c).collect (examplesOrSkip? d)).1.map Node.toElement := by
    have hscenario : n.node = .ofScenario (Grammar.header d .scenario c).1
        (steps d (cutsTexts d c) (behindHeader d c)).1
        ((behindSteps d c).collect (examplesOrSkip? d)).1 := hnode
    rw [hscenario, hbelow, h.header]
    simp [Node.ofScenario, Header.elements, Title.elements, below]
  refine FeatureFile.mem_bodies_of_children hn hchildren ?_
  rw [leavesAll_append, Node.leavesAll_optional, Node.leavesAll_map_toElement]
  exact hsp

namespace FeatureFile

variable {o : Options} {text : Text} {s : ScenarioView} {c : Cursor} {r : Role}

/-- The lines below the title of a section up to the end of its steps, and what becomes of them. -/
theorem exists_ledger_below_title {source : Text} {d : Dialect} (hd : d.Proper) {a : Ahead} {b : Nat}
    (ha : d.peek? a.cursor = some a) (hplace : a.cursor.PlacedIn source)
    (hb : (a.take []).OpensAt source b) (outline : Bool) :
    let below := description d (a.take [])
    let p := steps d outline below.2
    ∃ (above : List SourceLine) (title : SourceLine) (es : List Entry) (rest : List SourceLine)
      (fs : List Fate) (ds : List Diagnostic),
      SourceLine.ofText source = above ++ title :: (es.map Entry.line ++ rest) ∧
        title.start = a.cursor.offset ∧ p.2.reported = (a.take []).reported ++ ds ∧
        Ledger d b (Node.optionalLeaves below.1 ++ p.1.flatMap Node.leaves) fs ds es ∧
        ∀ x ∈ fs, (x.kind d).role?.any Role.isStructural = false := by
  intro below p
  obtain ⟨sc, sc', fs, hrun, hplain⟩ := exists_run_below_title d outline (a.take [])
  obtain ⟨passed, rs, hlines, hfaces⟩ := hplace.faces
  obtain ⟨ts, title, rfl, -, -, hstart, hcut⟩ := hfaces.ahead ha
  have hstop : (a.take []).offset = title.stop := by
    rw [← title.start_add_width, ← hstart, ← hcut]
    rfl
  have hpos : ∀ l ∈ SourceLine.listFrom title.stop (a.take []).lines, 0 < l.line.width :=
    fun l hl => SourceLine.width_pos_of_mem_ofText (t := source) (by
      rw [hlines, ← List.append_assoc]
      exact List.mem_append_right _ (List.mem_cons_of_mem _ hl))
  obtain ⟨es, rest, ds, hes, -, hds, hledger⟩ :=
    hrun.ledger hd hb.starts (.of_offset _ hstop) hpos
  refine ⟨passed ++ ts, title, es, rest, fs, ds, ?_, hstart.symm, hds, hledger, hplain⟩
  rw [hlines, ← hes, List.append_assoc]
  rfl

/-- What is unexpected among the steps of a scenario is reported below its title. -/
theorem exists_below {f : FeatureFile} (hd : f.dialect.Proper) {a : Ahead} {m : KeywordMatch}
    {n : PlacedNode} (htitle : a.Titles f.source.text f.dialect .scenario c n.offset m)
    (hn : n ∈ f.root.descendants) (hnode : n.node = (scenario f.dialect c).1) {evs : List Event}
    (hevs : (behindSteps f.dialect c).events = (behindHeader f.dialect c).events ++ evs)
    {x : Diagnostic} (hx : x ∈ evs.filterMap Event.diagnostic?) (hu : x.IsUnexpected) :
    ∃ l, f.Below a.cursor.offset l ∧ l.offset ≤ x.span.start ∧ x.span.start < l.stop := by
  have hheader : behindHeader f.dialect c = (description f.dialect (a.take [])).2 := by
    rw [behindHeader, htitle.header]
  obtain ⟨above, title, es, rest, fs, ds, hlines, hstart, hds, hledger, hplain⟩ :=
    exists_ledger_below_title hd htitle.ahead htitle.place.placed htitle.behind
      (cutsTexts f.dialect c)
  rw [← hheader, ← behindSteps] at hds
  have hx : x ∈ ds := by
    obtain ⟨before, hbefore⟩ := ((headway_textLine? f.dialect).onward_collect (a.take [])).events
    have hbefore : (behindHeader f.dialect c).events = (a.take []).events ++ before := by
      rw [hheader]
      exact hbefore.symm
    rw [Cursor.reported, Cursor.reported, hevs, hbefore, List.append_assoc, List.filterMap_append,
      List.append_cancel_left_eq, List.filterMap_append] at hds
    rw [← hds]
    exact List.mem_append_right _ hx
  have hbodies := htitle.mem_bodies_of_scenario hn hnode
  obtain ⟨e, he, hin⟩ := hledger.exists_line hx hu
  obtain ⟨es₁, es₂, rfl⟩ := List.append_of_mem he
  refine ⟨e.line, ⟨above, title, es₁.map Entry.line, es₂.map Entry.line ++ rest, ?_, hstart,
    fun l hl hsig => ?_⟩, hin⟩
  · rw [lines, hlines]
    simp
  · obtain ⟨y, hy, rfl⟩ := List.mem_map.1 hl
    exact hledger.role?_of_significant hplain hbodies (List.mem_append_left _ hy) hsig

/-- Where no fence is skipped below the title of a scenario, none is skipped among its steps. -/
theorem unstrayed_behindSteps (hd : (parse o text).dialect.Proper)
    (hs : s.node ∈ (parse o text).root.descendants) (hopen : c.OpensAt text s.node.offset)
    (hr : (parse o text).dialect.nextRole? c = some r) (hrole : r.isScenario = true)
    (hevents : (scenario (parse o text).dialect c).2.events <+:
      (GherkinTree.parse o.dialect text).events)
    (hnode : s.node.node = (scenario (parse o text).dialect c).1)
    (hu : ∀ k, s.keyword? = some k → (parse o text).Unstrayed k) :
    (behindHeader (parse o text).dialect c).Unstrayed (behindSteps (parse o text).dialect c) := by
  obtain ⟨a, m, htitle⟩ := hopen.exists_title hr (opens_scenario hrole)
    (isStructural_of_isScenario hrole)
  obtain ⟨k, hk, hkeyword⟩ :=
    htitle.exists_keyword (s := s) (by rw [hnode]; exact List.append_assoc _ _ _)
  intro evs hevs span hm
  have hreported : Diagnostic.unexpectedContent span "doc string" ∈
      evs.filterMap Event.diagnostic? := List.mem_filterMap.2 ⟨_, hm, rfl⟩
  have hmem : Diagnostic.unexpectedContent span "doc string" ∈ (parse o text).diagnostics := by
    have hall := (onward_behindSteps (parse o text).dialect c).events.trans hevents
    rw [hevs] at hall
    exact List.mem_mergeSort.2 (List.mem_filterMap.2
      ⟨_, hall.subset (List.mem_append_right _ hm), rfl⟩)
  obtain ⟨l, hbelow, hin⟩ := exists_below hd htitle hs hnode hevs hreported ⟨_, rfl⟩
  exact hu k hk _ hmem rfl l (hkeyword ▸ hbelow) hin

/-- The steps of a scenario have their texts cut at placeholders, or none of them has. -/
theorem exists_isStep (ho : o.dialect ∈ Dialect.bundled)
    (hs : s.node ∈ (parse o text).root.descendants) :
    ∃ outline, (∀ w ∈ s.steps, w.node.node.IsStep outline) ∧
      (s.role? = some .scenarioOutline → outline = true) ∧
      ((∀ k, s.keyword? = some k → (parse o text).Unstrayed k) → outline = s.isOutline) := by
  have hd : (parse o text).dialect.Proper := Dialect.proper_parse ho text
  have hkind : s.node.node.kind = .scenario := ViewType.eq_of_accepts s.fits rfl nofun
  obtain ⟨c, r, hopen, hr, hrole, hevents, hnode⟩ :=
    (origin_of_mem_descendants hs).scenario hkind
  have hform := isScenarioOf_scenario hd hr hrole
  have hunstrayed := unstrayed_behindSteps hd hs hopen hr hrole hevents hnode
  rw [← hnode] at hform
  generalize hn : s.node.node = n at hform
  cases hform with
  | @mk outline r h steps examples hr hh houtline hagrees hsteps hexamples =>
    have hrole := ScenarioView.role?_eq hn hh
    refine ⟨outline, ScenarioView.isStep_of_mem_steps hn hh hsteps hexamples, fun hr' => ?_,
      fun hu => ?_⟩
    · rw [hrole] at hr'
      exact houtline (Option.some.inj hr')
    · rw [hagrees (hunstrayed hu), ScenarioView.isOutline, hrole,
        ScenarioView.isEmpty_examples hn hh hsteps hexamples]
      rfl

/-- All texts of the steps of a scenario are cut at their placeholders, or none of them; an outline
by keyword has them cut. Where no line with a fence is skipped among its steps, the look ahead below
the header of a scenario finds examples exactly if the scenario then collects some; and so, where
none is skipped between the title of a scenario and the next title, the texts are cut exactly if the
scenario is an outline. -/
theorem interpolates_parse {o : Options} (ho : o.dialect ∈ Dialect.bundled) (text : Text) :
    (∀ (c : Cursor) outline, c.Unstrayed (Grammar.steps (parse o text).dialect outline c).2 →
      (parse o text).dialect.hasExamples none c.lines =
        !((Grammar.steps (parse o text).dialect outline c).2.collect
          (Grammar.examplesOrSkip? (parse o text).dialect)).1.isEmpty) ∧
      ∀ s : ScenarioView, s.node ∈ (parse o text).root.descendants →
        ∃ outline, (∀ w ∈ s.steps, w.Interpolates outline) ∧
          (s.role? = some .scenarioOutline → outline = true) ∧
          ((∀ k, s.keyword? = some k → (parse o text).Unstrayed k) → outline = s.isOutline) := by
  refine ⟨fun c outline => Grammar.hasExamples_eq_isEmpty (Dialect.proper_parse ho text) outline c,
    fun s hs => ?_⟩
  obtain ⟨outline, hsteps, hall⟩ := exists_isStep ho hs
  exact ⟨outline, fun w hw => StepView.interpolates_of_isStep (hsteps w hw), hall⟩

/-- A fence is skipped in the first scenario, which hides nothing of the second. -/
theorem interpolates_parse_examples :
    let f := parse .default ("Scenario: t\nGiven y\n|a|\n\x22\x22\x22\n" ++
      "Scenario: s\nGiven x <b>\n|<b>|\nExamples:\n").toList
    Options.default.dialect ∈ Dialect.bundled ∧
      (∃ x ∈ f.diagnostics, x.problem = .unexpectedContent "doc string") ∧
      ∃ s : ScenarioView, s.node ∈ f.root.descendants ∧ s.steps.length = 1 ∧
        (∀ k, s.keyword? = some k → f.Unstrayed k) ∧ ∀ w ∈ s.steps, w.Interpolates true := by
  intro f
  have hfacts : (f.diagnostics.any (fun x => x.problem == .unexpectedContent "doc string") &&
      f.diagnostics.all (fun x => x.span.start < 28) &&
      (f.root.descendants.filterMap (View.cast? .scenario)).any (fun s : ScenarioView =>
        s.isOutline && s.steps.length == 1 && s.keyword?.all fun k => k.span.start == 28)) = true := by
    dsimp only [f]
    rw [Options.default_eq]
    cbv
  simp only [Bool.and_eq_true, List.any_eq_true, List.all_eq_true, Option.all_eq_true,
    beq_iff_eq, decide_eq_true_eq] at hfacts
  obtain ⟨⟨hstray, hx⟩, s, hs, ⟨houtline, hone⟩, hk⟩ := hfacts
  have hmem := View.mem_of_mem_filterMap_cast? hs
  have hu (k : PlacedToken) (h : s.keyword? = some k) : f.Unstrayed k :=
    unstrayed_of_diagnostics fun x hm _ => by rw [hk k h]; exact hx x hm
  obtain ⟨outline, hw, -, hagrees⟩ := (interpolates_parse Dialect.english_mem_bundled _).2 s hmem
  rw [hagrees hu, houtline] at hw
  exact ⟨Dialect.english_mem_bundled, hstray, s, hmem, hone, hu, hw⟩

/-- A fence below a table opens no doc string, yet hides the examples behind it from the look ahead:
the scenario is an outline whose text is not cut. -/
theorem stray_fence_hides_examples :
    let f := parse .default
      "Scenario: s\nGiven x <b>\n|a|\n\x22\x22\x22\nExamples:\n\x22\x22\x22\n".toList
    ∃ s : ScenarioView, s.node ∈ f.root.descendants ∧ s.isOutline = true ∧
      ∃ w ∈ s.steps, ¬w.Interpolates s.isOutline := by
  intro f
  have hany : (f.root.descendants.filterMap (View.cast? .scenario)).any
      (fun s : ScenarioView => s.isOutline && s.steps.any fun w =>
        w.textNode?.any fun t => !t.isMissing && !t.isInterpolated) = true := by
    dsimp only [f]
    rw [Options.default_eq]
    cbv
  obtain ⟨s, hs, hs'⟩ := List.any_eq_true.1 hany
  simp only [Bool.and_eq_true, List.any_eq_true, Option.any_eq_true] at hs'
  obtain ⟨hs', w, hw, t, ht, hm, hi⟩ := hs'
  refine ⟨s, View.mem_of_mem_filterMap_cast? hs, hs', w, hw, fun hall => ?_⟩
  have := hall.text t ht (by simpa using hm)
  rw [hs'] at this
  simp [this] at hi

end FeatureFile

end GherkinTree
