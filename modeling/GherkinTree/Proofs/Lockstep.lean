import GherkinTree.Proofs.Everywhere
import GherkinTree.Proofs.Form

/-!
Two documents read side by side. If both readers face lines of the same kind wherever they stand in
places that belong together, and what they make of one line is the same and leads to places that
belong together, then what they make of the documents is the same. What counts as the same and
which places belong together is left open. Main statement: lockstep on single lines is lockstep on
documents.
-/

namespace GherkinTree

namespace Element

mutual

/-- The tree with all its tokens replaced. -/
def mapTokens (f : Token → Token) : Element → Element
  | token t => token (f t)
  | node k cs => node k (mapTokensAll f cs)

def mapTokensAll (f : Token → Token) : List Element → List Element
  | [] => []
  | e :: es => mapTokens f e :: mapTokensAll f es

end

variable (f : Token → Token)

@[simp] theorem mapTokens_token (t : Token) : (token t).mapTokens f = token (f t) := by
  simp [mapTokens]

@[simp] theorem mapTokens_node (k : Kind) (cs : List Element) :
    (node k cs).mapTokens f = node k (mapTokensAll f cs) := by simp [mapTokens]

theorem mapTokensAll_eq (es : List Element) : mapTokensAll f es = es.map (mapTokens f) := by
  induction es with
  | nil => simp [mapTokensAll]
  | cons e es ih => simp [mapTokensAll, ih]

end Element

open Element

/-- How two readings are compared. -/
structure Twin where
  /-- What counts of a token of the first reading. -/
  left : Token → Token
  /-- What counts of a token of the second reading. -/
  right : Token → Token
  /-- What is known of the nodes of the first reading, by the kind above and the offset. -/
  guard : Option Kind → Nat → Node → Prop
  /-- The places that belong together; the next element of the first begins at the offset. -/
  At : Nat → Cursor → Cursor → Prop

namespace Twin

variable {T : Twin} {d : Dialect} {above : Option Kind} {o : Nat} {c c' n n' : Cursor}
  {a a' : Ahead} {es es' fs fs' : List Element}

/-- Elements of which the same counts. -/
def Same (T : Twin) (es es' : List Element) : Prop :=
  mapTokensAll T.left es = mapTokensAll T.right es'

theorem same_nil : T.Same [] [] := rfl

theorem Same.append (h : T.Same es es') (hf : T.Same fs fs') : T.Same (es ++ fs) (es' ++ fs') := by
  simp only [Same, mapTokensAll_eq, List.map_append] at h hf ⊢
  rw [h, hf]

theorem Same.node (h : T.Same es es') (k : Kind) : T.Same [.node k es] [.node k es'] := by
  simp only [Same, mapTokensAll_eq, List.map_cons, List.map_nil, mapTokens_node] at h ⊢
  rw [h]

theorem Same.length_eq (h : T.Same es es') : es.length = es'.length := by
  simp only [Same, mapTokensAll_eq] at h
  simpa using congrArg List.length h

/-- Both readers make the same elements and get to places that belong together. -/
def Gives (T : Twin) (above : Option Kind) (o : Nat) (es es' : List Element) (c c' : Cursor) :
    Prop :=
  EverywhereAll T.guard above o es → T.Same es es' ∧ T.At (o + fullWidthAll es) c c'

namespace Gives

theorem nil (h : T.At o c c') : T.Gives above o [] [] c c' := fun _ => ⟨same_nil, h⟩

theorem append (h : T.Gives above o es es' c c')
    (hf : T.At (o + fullWidthAll es) c c' → T.Gives above (o + fullWidthAll es) fs fs' n n') :
    T.Gives above o (es ++ fs) (es' ++ fs') n n' := by
  intro hg
  rw [everywhereAll_append] at hg
  obtain ⟨hes, hat⟩ := h hg.1
  obtain ⟨hfs, hat⟩ := hf hat hg.2
  rw [fullWidthAll_append, ← Nat.add_assoc]
  exact ⟨hes.append hfs, hat⟩

/-- Elements below a node. -/
theorem node {k : Kind} (h : T.Gives (some k) o es es' c c') :
    T.Gives above o [.node k es] [.node k es'] c c' := by
  intro hg
  rw [everywhereAll_cons, everywhere_node] at hg
  obtain ⟨hes, hat⟩ := h hg.1.2
  refine ⟨hes.node k, ?_⟩
  simpa using hat

/-- Tokens of a node that is there if there are any. -/
theorem optional {k : Kind} {ts ts' : List Token}
    (h : T.Gives (some k) o (ts.map .token) (ts'.map .token) c c') :
    T.Gives above o
      (Node.optional (if ts.isEmpty then none else some ⟨k, ts.map .token⟩))
      (Node.optional (if ts'.isEmpty then none else some ⟨k, ts'.map .token⟩)) c c' := by
  have hguard : EverywhereAll T.guard (some k) o (ts.map .token) :=
    everywhereAll_of_forall (by simp)
  have hlen := (h hguard).1.length_eq
  rw [List.length_map, List.length_map] at hlen
  cases ts with
  | nil =>
    cases ts' with
    | nil => exact h
    | cons t' ts' => cases hlen
  | cons t ts =>
    cases ts' with
    | nil => cases hlen
    | cons t' ts' => exact h.node

end Gives

/-- Rounds of a loop that stop together and otherwise give the same; `els` are the elements of what
a round collects. -/
def Rounds {α : Type} (T : Twin) (above : Option Kind) (els : List α → List Element)
    (step : Cursor → Option (List α × Cursor)) : Prop :=
  ∀ o c c', T.At o c c' → (step c = none ∧ step c' = none) ∨
    ∃ xs n xs' n', step c = some (xs, n) ∧ step c' = some (xs', n') ∧
      T.Gives above o (els xs) (els xs') n n'

/-- A loop gives the same if its rounds do. -/
theorem Rounds.collect {α : Type} {els : List α → List Element}
    {step : Cursor → Option (List α × Cursor)} (h : T.Rounds above els step)
    (hstep : Headway step) (hnil : els [] = []) (happ : ∀ xs ys, els (xs ++ ys) = els xs ++ els ys)
    (hat : T.At o c c') :
    T.Gives above o (els (c.collect step).1) (els (c'.collect step).1) (c.collect step).2
      (c'.collect step).2 := by
  refine hstep.collect_induction (P := fun c p => ∀ o c', T.At o c c' →
    T.Gives above o (els p.1) (els (c'.collect step).1) p.2 (c'.collect step).2) ?_ ?_ c o c' hat
  · intro c hs o c' hat
    obtain ⟨-, hs'⟩ | ⟨xs, n, xs', n', hsome, -⟩ := h o c c' hat
    · rw [Cursor.collect_of_none hs', hnil]
      exact .nil hat
    · rw [hs] at hsome
      cases hsome
  · intro c xs n hs ih o c' hat
    obtain ⟨hnone, -⟩ | ⟨xs₁, n₁, xs', n', hs₁, hs', hgives⟩ := h o c c' hat
    · rw [hs] at hnone
      cases hnone
    · rw [hs] at hs₁
      cases hs₁
      rw [Cursor.collect_of_some hs' (hstep c' xs' n' hs').1, happ, happ]
      exact hgives.append fun hat => ih _ n' hat

/-- The lines that two readers face. -/
structure Faces (T : Twin) (d : Dialect) (o : Nat) (c c' : Cursor) (a a' : Ahead) : Prop where
  left : d.peek? c = some a
  right : d.peek? c' = some a'
  kind : a'.kind = a.kind
  cursors : T.At o a.cursor a'.cursor

theorem Faces.cursor (h : T.Faces d o c c' a a') : T.Faces d o a.cursor a'.cursor a a' :=
  ⟨Dialect.peek?_cursor h.left, Dialect.peek?_cursor h.right, h.kind, h.cursors⟩

end Twin

namespace Grammar

/-- The keyword, the colon and the name of a section. -/
def Title.elements (t : Title) : List Element :=
  [.token t.keyword, .token t.colon] ++ Node.optional t.name

/-- The table below the header of an examples section. -/
def table? (d : Dialect) (c : Cursor) : Option Node × Cursor :=
  match d.peek? c with
  | some ⟨c, _, .tableRow⟩ => (some (table d false c).1, (table d false c).2)
  | _ => (none, c)

/-- An examples section is its header and its table. -/
theorem examples_eq_table? (d : Dialect) (c : Cursor) :
    examples d c =
      let (header, c) := header d .examples c
      let (table, last) := table? d c
      (.ofExamples header table, last) := by
  unfold examples table?
  cases ha : d.peek? (header d .examples c).2 with
  | none => simp only [ha]
  | some a =>
    obtain ⟨cur, l, k⟩ := a
    cases k <;> simp only [ha]

/-- Behind the keyword of a feature without a feature line. -/
def implied (c : Cursor) : Cursor :=
  { c.advance with pending := [] }.report (.missing c.advance.offset .featureKeyword)

end Grammar

open Grammar

/-- Two readers that face lines of the same kind and make the same of them. -/
structure Twin.Lockstep (T : Twin) (d : Dialect) : Prop where
  peek : ∀ {o c c'}, T.At o c c' →
    (d.peek? c = none ∧ d.peek? c' = none) ∨ ∃ a a', T.Faces d o c c' a a'
  role : ∀ {o c c'}, T.At o c c' → d.nextRole? c' = d.nextRole? c
  hasExamples : ∀ {o c c'}, T.At o c c' → d.hasExamples none c'.lines = d.hasExamples none c.lines
  skip : ∀ {o c c' a a'}, T.Faces d o c c' a a' → T.At o a.skip a'.skip
  tagLine : ∀ {o c c' a a'}, T.Faces d o c c' a a' → a.kind = .tags →
    ∃ ts n ts' n', tagLine? d c = some (ts, n) ∧ tagLine? d c' = some (ts', n') ∧
      T.Gives (some .tags) o (ts.map .token) (ts'.map .token) n n'
  textLine : ∀ {above o c c' a a'}, T.Faces d o c c' a a' → a.kind = .text →
    ∃ ts n ts' n', textLine? d c = some (ts, n) ∧ textLine? d c' = some (ts', n') ∧
      T.Gives above o (ts.map .token) (ts'.map .token) n n'
  row : ∀ {outline o c c' a a'}, T.Faces d o c c' a a' → a.kind = .tableRow →
    ∃ r n r' n', row? d outline c = some ([r], n) ∧ row? d outline c' = some ([r'], n') ∧
      T.Gives (some .table) o [r.toElement] [r'.toElement] n n'
  title : ∀ {above o c c' a a' m}, T.Faces d o c c' a a' → a.kind = .keyword m →
    m.role.isStructural = true →
    T.Gives above o (titleLine m a).1.elements (titleLine m a').1.elements (titleLine m a).2
      (titleLine m a').2
  stepLine : ∀ {outline o c c' a a' m}, T.Faces d o c c' a a' → a.kind = .keyword m →
    m.role.isStep = true →
    T.Gives (some .step) o
      [.token (stepLine outline m a).1, (stepLine outline m a).2.1.toElement]
      [.token (stepLine outline m a').1, (stepLine outline m a').2.1.toElement]
      (stepLine outline m a).2.2 (stepLine outline m a').2.2
  docString : ∀ {outline o c c' a a' f}, T.Faces d o c c' a a' → a.kind = .docString f →
    T.Gives (some .step) o [(f.docString outline a).1.toElement]
      [(f.docString outline a').1.toElement] (f.docString outline a).2 (f.docString outline a').2
  imply : ∀ {above o c c'}, T.At o c c' →
    T.Gives above o
      [.token (.absent .featureKeyword c.advance.pending []), .token (.absent .colonToken [] [])]
      [.token (.absent .featureKeyword c'.advance.pending []), .token (.absent .colonToken [] [])]
      (implied c) (implied c')
  eof : ∀ {above o c c'}, T.At o c c' →
    T.Gives above o [.token (.plain .endOfFileToken [] c.advance.pending [])]
      [.token (.plain .endOfFileToken [] c'.advance.pending [])]
      { c.advance with pending := [] } { c'.advance with pending := [] }

namespace Twin.Lockstep

variable {T : Twin} {d : Dialect} {above : Option Kind} {o : Nat} {c c' : Cursor} {a a' : Ahead}

theorem tags (h : T.Lockstep d) (hat : T.At o c c') :
    T.Gives above o (Node.optional (tags d c).1) (Node.optional (tags d c').1) (tags d c).2
      (tags d c').2 := by
  have hrounds : T.Rounds (some .tags) (List.map .token) (tagLine? d) := by
    intro o c c' hat
    obtain ⟨hn, hn'⟩ | ⟨a, a', hf⟩ := h.peek hat
    · exact .inl ⟨tagLine?_eq_none (by simp [hn]), tagLine?_eq_none (by simp [hn'])⟩
    · by_cases hk : a.kind = .tags
      · exact .inr (h.tagLine hf hk)
      · exact .inl ⟨tagLine?_eq_none (by simpa [hf.left] using hk),
          tagLine?_eq_none (by simpa [hf.right, hf.kind] using hk)⟩
  exact (hrounds.collect (headway_tagLine? d) rfl (fun _ _ => List.map_append) hat).optional

/-- Both face a line of text, or none does. -/
theorem textLines (h : T.Lockstep d) : T.Rounds above (List.map .token) (textLine? d) := by
  intro o c c' hat
  obtain ⟨hn, hn'⟩ | ⟨a, a', hf⟩ := h.peek hat
  · exact .inl ⟨textLine?_eq_none (by simp [hn]), textLine?_eq_none (by simp [hn'])⟩
  · by_cases hk : a.kind = .text
    · exact .inr (h.textLine hf hk)
    · exact .inl ⟨textLine?_eq_none (by simpa [hf.left] using hk),
        textLine?_eq_none (by simpa [hf.right, hf.kind] using hk)⟩

theorem description (h : T.Lockstep d) (hat : T.At o c c') :
    T.Gives above o (Node.optional (description d c).1) (Node.optional (description d c').1)
      (description d c).2 (description d c').2 :=
  (h.textLines.collect (headway_textLine? d) rfl (fun _ _ => List.map_append) hat).optional

theorem header (h : T.Lockstep d) {role r : Role} (hr : d.nextRole? c = some r)
    (ho : opens role r = true) (hs : r.isStructural = true) (hat : T.At o c c') :
    T.Gives above o (header d role c).1.elements (header d role c').1.elements (header d role c).2
      (header d role c').2 := by
  have htitle (o : Nat) (hat : T.At o (Grammar.tags d c).2 (Grammar.tags d c').2) :
      T.Gives above o (Grammar.title d role (Grammar.tags d c).2).1.elements
        (Grammar.title d role (Grammar.tags d c').2).1.elements
        (Grammar.title d role (Grammar.tags d c).2).2
        (Grammar.title d role (Grammar.tags d c').2).2 := by
    obtain ⟨hrole, hnone⟩ := nextRole?_tags d c
    obtain ⟨a, ha⟩ := Dialect.exists_peek? (hrole.trans hr)
    obtain ⟨hn, -⟩ | ⟨a₁, a', hf⟩ := h.peek hat
    · rw [hn] at ha
      cases ha
    · have hk := (Dialect.nextRole?_of_not_tags hf.left (not_tags_of_tagLine? hnone hf.left))
      rw [hrole, hr] at hk
      cases hkind : a₁.kind with
      | keyword m =>
        rw [hkind] at hk
        cases hk
        rw [title_eq hf.left hkind ho, title_eq hf.right (hf.kind.trans hkind) ho]
        exact h.title hf hkind hs
      | _ =>
        rw [hkind] at hk
        cases hk
  have hall := ((h.tags hat).append (htitle _)).append h.description
  simpa [Header.elements, Grammar.header, Title.elements] using hall

theorem table (h : T.Lockstep d) (outline : Bool) (hat : T.At o c c') :
    T.Gives above o [(table d outline c).1.toElement] [(table d outline c').1.toElement]
      (table d outline c).2 (table d outline c').2 := by
  have hrounds : T.Rounds (some .table) (List.map Node.toElement) (row? d outline) := by
    intro o c c' hat
    obtain ⟨hn, hn'⟩ | ⟨a, a', hf⟩ := h.peek hat
    · exact .inl ⟨row?_eq_none outline (by simp [hn]), row?_eq_none outline (by simp [hn'])⟩
    · by_cases hk : a.kind = .tableRow
      · obtain ⟨r, n, r', n', hr, hr', hgives⟩ := h.row hf hk
        exact .inr ⟨[r], n, [r'], n', hr, hr', hgives⟩
      · exact .inl ⟨row?_eq_none outline (by simpa [hf.left] using hk),
          row?_eq_none outline (by simpa [hf.right, hf.kind] using hk)⟩
  exact (hrounds.collect (headway_row? d outline) rfl (fun _ _ => List.map_append) hat).node

theorem argument (h : T.Lockstep d) (outline : Bool) (hat : T.At o c c') :
    T.Gives (some .step) o (Node.optional (argument d outline c).1)
      (Node.optional (argument d outline c').1) (argument d outline c).2
      (argument d outline c').2 := by
  obtain ⟨hn, hn'⟩ | ⟨a, a', hf⟩ := h.peek hat
  · simp only [Grammar.argument, hn, hn']
    exact .nil hat
  · by_cases hrow : a.kind = .tableRow
    · rw [argument_of_row outline hf.left hrow,
        argument_of_row outline hf.right (hf.kind.trans hrow)]
      exact h.table outline hf.cursors
    · by_cases hdoc : ∃ f, a.kind = .docString f
      · obtain ⟨f, hk⟩ := hdoc
        rw [argument_of_docString outline hf.left hk,
          argument_of_docString outline hf.right (hf.kind.trans hk)]
        exact h.docString hf hk
      · rw [not_exists] at hdoc
        rw [argument_of_other outline hf.left hrow hdoc,
          argument_of_other outline hf.right (hf.kind ▸ hrow) (hf.kind ▸ hdoc)]
        exact .nil hat

theorem step (h : T.Lockstep d) (outline : Bool) {m : KeywordMatch} (hf : T.Faces d o c c' a a')
    (hk : a.kind = .keyword m) (hm : m.role.isStep = true) :
    T.Gives above o [(step d outline m a).1.toElement] [(step d outline m a').1.toElement]
      (step d outline m a).2 (step d outline m a').2 := by
  rw [step_eq_stepLine, step_eq_stepLine]
  exact ((h.stepLine hf hk hm).append fun hat => h.argument outline hat).node

theorem steps (h : T.Lockstep d) (outline : Bool) (hat : T.At o c c') :
    T.Gives above o ((steps d outline c).1.map Node.toElement)
      ((steps d outline c').1.map Node.toElement) (steps d outline c).2 (steps d outline c').2 := by
  have hrounds : T.Rounds above (List.map Node.toElement) (stepOrSkip? d outline) := by
    intro o c c' hat
    obtain ⟨hn, hn'⟩ | ⟨a, a', hf⟩ := h.peek hat
    · exact .inl ⟨by simp only [stepOrSkip?, hn], by simp only [stepOrSkip?, hn']⟩
    · by_cases hk : ∃ m, a.kind = .keyword m ∧ m.role.isStep = true
      · obtain ⟨m, hk, hm⟩ := hk
        exact .inr ⟨_, _, _, _, stepOrSkip?_of_step outline hf.left hk hm,
          stepOrSkip?_of_step outline hf.right (hf.kind.trans hk) hm, h.step outline hf hk hm⟩
      · have hnot (m : KeywordMatch) (hm : a.kind = .keyword m) : m.role.isStep = false := by
          simpa using fun hs => hk ⟨m, hm, hs⟩
        rw [stepOrSkip?_of_not_step outline hf.left hnot,
          stepOrSkip?_of_not_step outline hf.right (hf.kind ▸ hnot), h.role hat]
        split
        · exact .inl ⟨rfl, rfl⟩
        · exact .inr ⟨_, _, _, _, rfl, rfl, .nil (h.skip hf)⟩
  exact hrounds.collect (headway_stepOrSkip? d outline) rfl (fun _ _ => List.map_append) hat

theorem background (h : T.Lockstep d) (hr : d.nextRole? c = some .background)
    (hat : T.At o c c') :
    T.Gives above o [(background d c).1.toElement] [(background d c').1.toElement]
      (background d c).2 (background d c').2 :=
  ((h.header hr rfl rfl hat).append (h.steps false)).node

theorem table? (h : T.Lockstep d) (hat : T.At o c c') :
    T.Gives above o (Node.optional (table? d c).1) (Node.optional (table? d c').1) (table? d c).2
      (table? d c').2 := by
  obtain ⟨hn, hn'⟩ | ⟨a, a', hf⟩ := h.peek hat
  · simp only [Grammar.table?, hn, hn']
    exact .nil hat
  · have hkind := hf.kind
    have hcursors := hf.cursors
    simp only [Grammar.table?, hf.left, hf.right]
    obtain ⟨cur, l, k⟩ := a
    obtain ⟨cur', l', k'⟩ := a'
    cases hkind
    cases k with
    | tableRow => exact h.table false hcursors
    | _ => exact .nil hat

theorem examples (h : T.Lockstep d) (hr : d.nextRole? c = some .examples) (hat : T.At o c c') :
    T.Gives above o [(examples d c).1.toElement] [(examples d c').1.toElement]
      (examples d c).2 (examples d c').2 := by
  rw [examples_eq_table?, examples_eq_table?]
  exact ((h.header hr rfl rfl hat).append h.table?).node

theorem scenario (h : T.Lockstep d) {r : Role} (hr : d.nextRole? c = some r)
    (hs : r.isScenario = true) (hat : T.At o c c') :
    T.Gives above o [(scenario d c).1.toElement] [(scenario d c').1.toElement]
      (scenario d c).2 (scenario d c').2 := by
  have hrounds : T.Rounds (some .scenario) (List.map Node.toElement) (examplesOrSkip? d) := by
    intro o c c' hat
    obtain ⟨hn, hn'⟩ | ⟨a, a', hf⟩ := h.peek hat
    · exact .inl ⟨by simp only [examplesOrSkip?, hn], by simp only [examplesOrSkip?, hn']⟩
    · rw [examplesOrSkip?_eq hf.left, examplesOrSkip?_eq hf.right, h.role hat]
      split
      · rename_i hr
        rw [← Dialect.nextRole?_cursor hf.left] at hr
        exact .inr ⟨_, _, _, _, rfl, rfl, h.examples hr hf.cursors⟩
      · split
        · exact .inl ⟨rfl, rfl⟩
        · exact .inr ⟨_, _, _, _, rfl, rfl, .nil (h.skip hf)⟩
  have hexamples {o : Nat} {c c' : Cursor} (hat : T.At o c c') :=
    hrounds.collect (headway_examplesOrSkip? d) rfl (fun _ _ => List.map_append) hat
  have hopens := opens_scenario hs
  have hstructural := isStructural_of_isScenario hs
  have hkind := (isOf_header hr hopens hstructural).keyword.kind
  have hkind' := (isOf_header ((h.role hat).trans hr) hopens hstructural).keyword.kind
  have hsteps (o : Nat)
      (hat : T.At o (Grammar.header d .scenario c).2 (Grammar.header d .scenario c').2) :
      let outline (h : Header) (c : Cursor) :=
        h.keyword.kind == .scenarioOutlineKeyword || d.hasExamples none c.lines
      T.Gives (some .scenario) o
        ((Grammar.steps d (outline (Grammar.header d .scenario c).1 (Grammar.header d .scenario c).2)
          (Grammar.header d .scenario c).2).1.map Node.toElement)
        ((Grammar.steps d (outline (Grammar.header d .scenario c').1
          (Grammar.header d .scenario c').2) (Grammar.header d .scenario c').2).1.map Node.toElement)
        (Grammar.steps d (outline (Grammar.header d .scenario c).1 (Grammar.header d .scenario c).2)
          (Grammar.header d .scenario c).2).2
        (Grammar.steps d (outline (Grammar.header d .scenario c').1
          (Grammar.header d .scenario c').2) (Grammar.header d .scenario c').2).2 := by
    dsimp only
    rw [hkind, hkind', h.hasExamples hat]
    exact h.steps _ hat
  exact (((h.header hr hopens hstructural hat).append (hsteps _)).append hexamples).node

theorem background? (h : T.Lockstep d) (hat : T.At o c c') :
    T.Gives above o (Node.optional (background? d c).1) (Node.optional (background? d c').1)
      (background? d c).2 (background? d c').2 := by
  obtain ⟨hn, hn'⟩ | ⟨a, a', hf⟩ := h.peek hat
  · simp only [Grammar.background?, hn, hn']
    exact .nil hat
  · rw [background?_eq hf.left, background?_eq hf.right, h.role hat, hf.kind]
    split
    · rename_i hb
      rw [← Dialect.nextRole?_cursor hf.left] at hb
      exact h.background hb.1 hf.cursors
    · exact .nil hat

theorem body (h : T.Lockstep d) (hat : T.At o c c') :
    T.Gives above o
      (Node.optional (body d c).1 ++ (body d c).2.1.map Node.toElement)
      (Node.optional (body d c').1 ++ (body d c').2.1.map Node.toElement)
      (body d c).2.2 (body d c').2.2 := by
  -- what is skipped in front of the first section gives nothing
  have hskips : T.Rounds above (fun _ => []) (skipToSection? d) := by
    intro o c c' hat
    obtain ⟨hn, hn'⟩ | ⟨a, a', hf⟩ := h.peek hat
    · exact .inl ⟨by simp only [skipToSection?, hn], by simp only [skipToSection?, hn']⟩
    · rw [skipToSection?_eq hf.left, skipToSection?_eq hf.right, h.role hat, hf.kind]
      split
      · exact .inl ⟨rfl, rfl⟩
      · exact .inr ⟨_, _, _, _, rfl, rfl, .nil (h.skip hf)⟩
  have hrounds : T.Rounds above (List.map Node.toElement) (scenarioOrSkip? d) := by
    intro o c c' hat
    obtain ⟨hn, hn'⟩ | ⟨a, a', hf⟩ := h.peek hat
    · exact .inl ⟨by simp only [scenarioOrSkip?, hn], by simp only [scenarioOrSkip?, hn']⟩
    · rw [scenarioOrSkip?_eq hf.left, scenarioOrSkip?_eq hf.right, h.role hat]
      split
      · rename_i hany
        obtain ⟨r, hr, hs⟩ := (Option.any_eq_true _ _).1 hany
        rw [← Dialect.nextRole?_cursor hf.left] at hr
        exact .inr ⟨_, _, _, _, rfl, rfl, h.scenario hr hs hf.cursors⟩
      · split
        · exact .inl ⟨rfl, rfl⟩
        · exact .inr ⟨_, _, _, _, rfl, rfl, .nil (h.skip hf)⟩
  have hskipped := hskips.collect (headway_skipToSection? d) rfl (fun _ _ => rfl) hat
  exact (hskipped.append h.background?).append fun hat =>
    hrounds.collect (headway_scenarioOrSkip? d) rfl (fun _ _ => List.map_append) hat

theorem rule (h : T.Lockstep d) (hr : d.nextRole? c = some .rule) (hat : T.At o c c') :
    T.Gives above o [(rule d c).1.toElement] [(rule d c').1.toElement] (rule d c).2
      (rule d c').2 := by
  refine .node ?_
  have hheader {above : Option Kind} : T.Gives above o (Grammar.header d .rule c).1.elements
      (Grammar.header d .rule c').1.elements (Grammar.header d .rule c).2
      (Grammar.header d .rule c').2 := h.header hr rfl rfl hat
  simpa [Grammar.rule, Node.ofRule] using hheader.append h.body

theorem rules (h : T.Lockstep d) (hat : T.At o c c') :
    T.Gives above o ((c.collect (ruleOrSkip? d)).1.map Node.toElement)
      ((c'.collect (ruleOrSkip? d)).1.map Node.toElement) (c.collect (ruleOrSkip? d)).2
      (c'.collect (ruleOrSkip? d)).2 := by
  have hrounds : T.Rounds above (List.map Node.toElement) (ruleOrSkip? d) := by
    intro o c c' hat
    obtain ⟨hn, hn'⟩ | ⟨a, a', hf⟩ := h.peek hat
    · exact .inl ⟨by simp only [ruleOrSkip?, hn], by simp only [ruleOrSkip?, hn']⟩
    · have hrole := h.role hat
      by_cases hr : d.nextRole? c = some .rule
      · have hr' := (Dialect.nextRole?_cursor hf.left).trans hr
        exact .inr ⟨_, _, _, _, ruleOrSkip?_eq hf.left hr,
          ruleOrSkip?_eq hf.right (hrole.trans hr), h.rule hr' hf.cursors⟩
      · exact .inr ⟨_, _, _, _, ruleOrSkip?_of_not_rule hf.left hr,
          ruleOrSkip?_of_not_rule hf.right (hrole ▸ hr), .nil (h.skip hf)⟩
  exact hrounds.collect (headway_ruleOrSkip? d) rfl (fun _ _ => List.map_append) hat

theorem impliedHeader (h : T.Lockstep d) (hat : T.At o c c') :
    T.Gives above o (impliedHeader d c).1.elements (impliedHeader d c').1.elements
      (impliedHeader d c).2 (impliedHeader d c').2 := by
  have himply : T.Gives above o _ _ (implied c) (implied c') := h.imply hat
  have hat := (himply (by simp)).2
  obtain ⟨hn, hn'⟩ | ⟨ts, n, ts', n', hs, hs', hgives⟩ := h.textLines _ _ _ hat
  · rw [impliedHeader_of_not_text rfl hn, impliedHeader_of_not_text rfl hn']
    exact himply
  · rw [impliedHeader_of_text rfl hs, impliedHeader_of_text rfl hs']
    exact (himply.append fun _ => hgives.node).append h.description

theorem featureHeader (h : T.Lockstep d) (hat : T.At o c c') :
    T.Gives above o (featureHeader d c).1.elements (featureHeader d c').1.elements
      (featureHeader d c).2 (featureHeader d c').2 := by
  obtain ⟨hn, hn'⟩ | ⟨a, a', hf⟩ := h.peek hat
  · simp only [Grammar.featureHeader, hn, hn']
    exact h.impliedHeader hat
  · simp only [Grammar.featureHeader, hf.left, hf.right, Dialect.roleAhead_eq hf.left,
      Dialect.roleAhead_eq hf.right, h.role hat]
    split
    · rename_i hr
      rw [← Dialect.nextRole?_cursor hf.left] at hr
      exact h.header hr rfl rfl hf.cursors
    · exact h.impliedHeader hat

theorem feature (h : T.Lockstep d) (hat : T.At o c c') :
    T.Gives above o [(feature d c).1.toElement] [(feature d c').1.toElement] (feature d c).2
      (feature d c').2 := by
  refine .node ?_
  simpa [Grammar.feature, Node.ofFeature] using
    ((h.featureHeader hat).append h.body).append h.rules

/-- Lockstep on lines is lockstep on documents. -/
theorem document (h : T.Lockstep d) (hat : T.At o c c') :
    T.Gives above o [(document d c).1.toElement] [(document d c').1.toElement] (document d c).2
      (document d c').2 := by
  have hfeature {above : Option Kind} : T.Gives above o (Node.optional (feature? d c).1)
      (Node.optional (feature? d c').1) (feature? d c).2 (feature? d c').2 := by
    obtain ⟨hn, hn'⟩ | ⟨a, a', hf⟩ := h.peek hat
    · simp only [feature?, hn, hn']
      exact .nil hat
    · simp only [feature?, hf.left, hf.right]
      exact h.feature hf.cursors
  exact (hfeature.append h.eof).node

end Twin.Lockstep

end GherkinTree
