import GherkinTree.Proofs.Progress
import GherkinTree.Proofs.PureTrivia
import GherkinTree.Proofs.Wording

/-!
Where the scenarios, the steps, the examples and the doc strings of a document come from. The reader
is at a place of the source whenever it begins one, and the node begins where the trivia does that is
pending there. Main statement: each scenario, each step, each examples section and each doc string of
a document is what the grammar makes of the lines at such a place; what happens in a scenario is part
of what happens in the document.
-/

namespace GherkinTree

open Element Grammar

/-- The cursor is a place of the source, and the element that takes what is pending begins at an
offset. -/
structure Cursor.OpensAt (source : Text) (o : Nat) (c : Cursor) : Prop where
  placed : c.PlacedIn source
  starts : c.StartsAt o

/-- How scenarios, steps, examples and doc strings that begin at an offset were read, where `events`
is all that happened. -/
structure Node.Origin (source : Text) (d : Dialect) (events : List Event) (o : Nat) (n : Node) :
    Prop where
  scenario : n.kind = .scenario → ∃ (c : Cursor) (r : Role), c.OpensAt source o ∧
    d.nextRole? c = some r ∧ r.isScenario = true ∧ (scenario d c).2.events <+: events ∧
      n = (scenario d c).1
  step : n.kind = .step → ∃ outline a m, a.cursor.OpensAt source o ∧ d.peek? a.cursor = some a ∧
    a.kind = .keyword m ∧ n = (step d outline m a).1
  examples : n.kind = .examples → ∃ c : Cursor, c.OpensAt source o ∧
    d.nextRole? c = some .examples ∧ n = (examples d c).1
  docString : n.kind = .docString → ∃ f outline a, a.cursor.OpensAt source o ∧
    d.peek? a.cursor = some a ∧ a.kind = .docString f ∧ n = (Fence.docString f outline a).1

/-- Any other node. -/
theorem Node.origin_of_ne {source : Text} {d : Dialect} {events : List Event} {o : Nat} {n : Node}
    (hn : n.kind ≠ .scenario) (hs : n.kind ≠ .step) (he : n.kind ≠ .examples)
    (hd : n.kind ≠ .docString) : n.Origin source d events o where
  scenario h := absurd h hn
  step h := absurd h hs
  examples h := absurd h he
  docString h := absurd h hd

theorem Node.inLines_origin (source : Text) (d : Dialect) (events : List Event) :
    InLines fun _ o n => n.Origin source d events o where
  cell outline o c := origin_of_ne nofun nofun nofun nofun
  piece above o n _ hk := by
    refine origin_of_ne ?_ ?_ ?_ ?_
    all_goals
      intro h
      rw [h] at hk
      cases hk

theorem Grammar.kind_text_stepLine (outline : Bool) (m : KeywordMatch) (a : Ahead) :
    (stepLine outline m a).2.1.kind = .literalText ∨
      (stepLine outline m a).2.1.kind = .interpolatedText := by
  unfold stepLine
  dsimp only
  split
  · exact .inl rfl
  · cases outline
    · exact .inl rfl
    · exact .inr rfl

namespace Survey

/-- Every scenario, step, examples section and doc string has been read from a place of the source, on
the way to all that happens. -/
def origin (source : Text) (d : Dialect) (events : List Event) : Survey where
  At o c := c.OpensAt source o
  leads c := c.events <+: events
  token := fun _ _ _ => True
  node := fun _ o n => n.Origin source d events o

variable {source : Text} {d : Dialect} {events : List Event} {above : Option Kind} {o : Nat}
  {c : Cursor} {a : Ahead} {es : List Element}

theorem advance_origin (h : c.OpensAt source o) : c.advance.OpensAt source o where
  placed := h.placed.advance
  starts := by
    have hstarts : c.offset = o + Trivia.widthOf c.pending := h.starts
    rw [Cursor.StartsAt, Cursor.offset_advance, Cursor.pending_advance, Trivia.widthOf_append,
      hstarts, Nat.add_assoc]

/-- A line that is kept as the tokens of some elements leads to a place of the source. -/
theorem Faces.yields_kept (h : (origin source d events).Faces d o a) {ts : List Token}
    {evs : List Event} (hk : Kept d a ts evs) (hts : leavesAll false es = ts.map .token)
    (hes : EverywhereAll (fun _ o n => n.Origin source d events o) above o es) :
    (origin source d events).Yields above o es (a.take evs) := by
  refine ⟨fun _ _ => trivial, hes, ?_, ?_⟩
  · exact (h.place.placed.behind_line h.ahead rfl rfl).1
  · have hstarts : a.cursor.offset = o + Trivia.widthOf a.cursor.pending := h.place.starts
    have htokens : tokensAll es = ts := by
      rw [← tokensAll_leavesAll false, hts, Leaf.tokensAll_map_token]
    have hw := congrArg Text.width hk.render
    rw [Text.width_append, Trivia.width_render, ← htokens] at hw
    rw [Cursor.StartsAt, ← widthAll_tokensAll, Token.widthAll, hw, Ahead.pending_take,
      Ahead.offset_take, Line.width, Trivia.widthOf_nil]
    omega

theorem sound_origin (source : Text) (d : Dialect) (events : List Event) :
    (origin source d events).Sound d where
  backward _ _ h hend := h.events.trans hend
  advance h := advance_origin h
  skip {o a} h := by
    refine ⟨(h.place.placed.behind_line h.ahead rfl rfl).1, ?_⟩
    have hstarts : a.cursor.offset = o + Trivia.widthOf a.cursor.pending := h.place.starts
    change a.cursor.offset + a.line.width =
      o + Trivia.widthOf (a.cursor.pending ++ a.line.pieces .skippedText)
    rw [Trivia.widthOf_append, Trivia.widthOf_pieces]
    omega
  tagLine {o a} h hk :=
    h.yields_kept (kept_tags (Dialect.fits_of_peek? h.ahead) hk) (leavesAll_map_token false _)
      (everywhereAll_of_forall (by simp))
  textLine {above o a} h hk :=
    h.yields_kept (kept_text (Dialect.fits_of_peek? h.ahead) hk) (leavesAll_map_token false [_])
      (everywhereAll_of_forall (by simp))
  row {outline o a} h hk := by
    obtain ⟨ts, hkept, hleaves⟩ := kept_row outline (Dialect.fits_of_peek? h.ahead) hk rfl
    refine h.yields_kept hkept (by simpa [Node.leaves] using hleaves) ?_
    rw [everywhereAll_cons, everywhereAll_nil, and_true]
    exact (Node.inLines_origin source d events).row outline _ _ _
  title {above o a m} hne h hk hm := by
    obtain ⟨ts, hkept, hleaves, heq⟩ := titleLine_eq h.ahead hk hm
    rw [heq]
    refine h.yields_kept hkept (by rw [Title.leavesAll_elements, hleaves]) ?_
    exact (Node.inLines_origin source d events).title hne
      ((Dialect.fits_of_peek? h.ahead).kind.symm.trans hk) hm
  stepLine {outline o a m} h hk hm := by
    obtain ⟨ts, evs, hkept, hleaves, heq⟩ := stepLine_eq outline h.ahead hk
    rw [heq]
    refine h.yields_kept hkept (by simpa [Node.leaves] using hleaves) ?_
    refine (Node.inLines_origin source d events).step fun o => Node.origin_of_ne ?_ ?_ ?_ ?_
    all_goals
      intro hk
      rcases kind_text_stepLine outline m a with he | he <;> rw [hk] at he <;> cases he
  docString {outline o a f} h hk := by
    obtain ⟨-, hoffset, hpending⟩ := f.cursor_docString outline a
    refine ⟨fun _ _ => trivial, ?_, (Progress.docString outline h.ahead h.place.placed).placed, ?_⟩
    · rw [everywhereAll_cons, everywhereAll_nil, and_true]
      have hkind := f.kind_docString outline a
      refine (Node.inLines_origin source d events).docStringNode ⟨?_, ?_, ?_, ?_⟩
      · exact fun hn => by cases hkind.symm.trans hn
      · exact fun hs => by cases hkind.symm.trans hs
      · exact fun he => by cases hkind.symm.trans he
      · exact fun _ => ⟨f, outline, a, h.place, h.ahead, hk, rfl⟩
    · have hstarts : a.cursor.offset = o + Trivia.widthOf a.cursor.pending := h.place.starts
      rw [Cursor.StartsAt, Fence.fullWidth_docString outline (Dialect.fits_of_peek? h.ahead) hk,
        hoffset, hpending, Ahead.offset_consume, Trivia.widthOf_nil]
      omega
  imply {above o c} h := by
    have hadvance := advance_origin h
    refine ⟨fun _ _ => trivial, everywhereAll_of_forall (by simp), hadvance.placed.congr rfl rfl,
      ?_⟩
    have hstarts : c.advance.offset = o + Trivia.widthOf c.advance.pending := hadvance.starts
    simpa [Cursor.StartsAt, Token.fullWidth_absent, implied] using hstarts
  frame {above o k es} hk := by
    refine Node.origin_of_ne ?_ ?_ ?_ ?_
    all_goals
      rintro rfl
      cases hk
  stepNode {outline above o a m} h hk hm := by
    refine ⟨fun hn => ?_, fun _ => ⟨outline, a, m, h.place, h.ahead, hk, rfl⟩, fun he => ?_,
      fun hd => ?_⟩
    · rw [step_eq_stepLine] at hn
      cases hn
    · rw [step_eq_stepLine] at he
      cases he
    · rw [step_eq_stepLine] at hd
      cases hd
  examplesNode {above o c} h hr := by
    refine ⟨fun hn => ?_, fun he => ?_, fun _ => ⟨c, h, hr, rfl⟩, fun hd => ?_⟩
    · rw [examples_eq_table?] at hn
      cases hn
    · rw [examples_eq_table?] at he
      cases he
    · rw [examples_eq_table?] at hd
      cases hd
  scenarioNode {above o c r} h hr hs hend := by
    refine ⟨fun _ => ⟨c, r, h, hr, hs, hend, rfl⟩, ?_, ?_, ?_⟩
    all_goals
      intro hk
      cases hk

theorem closes_origin (source : Text) (d : Dialect) (events : List Event) :
    (origin source d events).Closes := by
  intro o c h
  have hadvance := advance_origin h
  refine ⟨fun _ _ => trivial, everywhereAll_of_forall (by simp), hadvance.placed.congr rfl rfl, ?_⟩
  have hstarts : c.advance.offset = o + Trivia.widthOf c.advance.pending := hadvance.starts
  simpa [Cursor.StartsAt, Token.fullWidth_plain] using hstarts

end Survey

/-- The cursor behind the preamble is a place of the source. -/
theorem Preamble.opensAt_cursor (d : Dialect) (source : Text) :
    (read d 0 (Line.split source)).cursor.OpensAt source 0 where
  placed := placedIn_cursor d source
  starts := (Nat.zero_add _).symm

namespace FeatureFile

variable {o : Options} {text : Text} {n : PlacedNode}

/-- Each scenario, step, examples section and doc string of a document has been read from a place of
its source. -/
theorem origin_of_mem_descendants (hn : n ∈ (parse o text).root.descendants) :
    n.node.Origin text (parse o text).dialect (GherkinTree.parse o.dialect text).events n.offset := by
  have hall : (Survey.origin text (parse o text).dialect _).Yields none 0
      [(parse o text).tree.toElement] _ :=
    (Survey.sound_origin text _ _).document (Survey.closes_origin text _ _)
      (Preamble.opensAt_cursor o.dialect text) List.prefix_rfl
  exact (PlacedNode.forall_descendants_iff (parse o text).root).2
    ((everywhereAll_cons _ _).1 hall.nodes).1 n hn

end FeatureFile

end GherkinTree
