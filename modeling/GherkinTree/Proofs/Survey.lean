import GherkinTree.Proofs.Lockstep

/-!
Properties of everything that a document is read into. A survey gives a property of the tokens and
one of the nodes, by the kinds above them and the offsets at which they begin, and comes with the
places that the reader may get to. If the tokens of every single line have the property and lead on
to such a place, so does the whole document. Main statement: a survey that is sound on lines is sound
on documents.
-/

namespace GherkinTree

namespace Element

mutual

/-- The tokens under an element, each with the kind of the node that holds it and its offset. -/
def held (above : Option Kind) (offset : Nat) : Element → List (Option Kind × Nat × Token)
  | token t => [(above, offset, t)]
  | node k cs => heldAll (some k) offset cs

/-- The tokens under elements that stand one behind the other. -/
def heldAll (above : Option Kind) (offset : Nat) :
    List Element → List (Option Kind × Nat × Token)
  | [] => []
  | e :: es => e.held above offset ++ heldAll above (offset + e.fullWidth) es

end

variable {above : Option Kind} {o : Nat}

@[simp] theorem held_token (t : Token) : (token t).held above o = [(above, o, t)] := by
  simp only [held]

@[simp] theorem held_node (k : Kind) (cs : List Element) :
    (node k cs).held above o = heldAll (some k) o cs := by simp only [held]

@[simp] theorem heldAll_nil : heldAll above o [] = [] := by simp only [heldAll]

@[simp] theorem heldAll_cons (e : Element) (es : List Element) :
    heldAll above o (e :: es) = e.held above o ++ heldAll above (o + e.fullWidth) es := by
  simp only [heldAll]

theorem heldAll_append (as bs : List Element) :
    heldAll above o (as ++ bs) = heldAll above o as ++ heldAll above (o + fullWidthAll as) bs := by
  induction as generalizing o with
  | nil => simp
  | cons a as ih => simp [ih, Nat.add_assoc]

theorem heldAll_map_token (ts : List Token) :
    heldAll above o (ts.map .token) = (Token.sites o ts).map fun x => (above, x) := by
  induction ts generalizing o with
  | nil => simp
  | cons t ts ih => simp [ih]

mutual

/-- Without the kinds above they are the tokens with their offsets. -/
theorem map_snd_held (above : Option Kind) (o : Nat) :
    (e : Element) → (e.held above o).map Prod.snd = Token.sites o e.tokens
  | token t => by simp
  | node k cs => by simpa using map_snd_heldAll (some k) o cs

theorem map_snd_heldAll (above : Option Kind) (o : Nat) :
    (es : List Element) → (heldAll above o es).map Prod.snd = Token.sites o (tokensAll es)
  | [] => by simp
  | e :: es => by
    rw [heldAll_cons, List.map_append, map_snd_held above o e, map_snd_heldAll above _ es,
      tokensAll_cons, Token.sites_append, widthAll_tokens]

end

end Element

/-- A token, the kind of the node that holds it and its offset. -/
def PlacedToken.holding (t : PlacedToken) : Option Kind × Nat × Token :=
  (some t.parent.kind, t.offset, t.token)

/-- The tokens under a placed element, each with the kind of the node that holds it. -/
def PlacedElement.held : PlacedElement → List (Option Kind × Nat × Token)
  | node n => Element.heldAll (some n.kind) n.offset n.node.children
  | token t => [t.holding]

namespace PlacedNode

open Element

theorem held_childrenFrom (n : PlacedNode) (o i : Nat) (es : List Element) :
    (n.childrenFrom o i es).flatMap PlacedElement.held = heldAll (some n.kind) o es := by
  induction es generalizing o i with
  | nil => simp [childrenFrom]
  | cons e es ih =>
    have he : (n.child o i e).held = e.held (some n.kind) o := by
      cases e <;> simp [child, PlacedElement.held, PlacedToken.holding, kind]
    simp [childrenFrom, ih, he]

theorem holding_walkTokens (stack : List PlacedElement) :
    (walkTokens stack).map PlacedToken.holding = stack.flatMap PlacedElement.held := by
  fun_induction walkTokens stack with
  | case1 => rfl
  | case2 t stack ih => simp [ih, PlacedElement.held]
  | case3 n stack ih =>
    rw [ih, List.flatMap_append, List.flatMap_cons]
    congr 1
    exact held_childrenFrom n n.offset 0 n.node.children

/-- A walk finds the tokens under a node with the nodes that hold them. -/
theorem holding_descendantTokens (n : PlacedNode) :
    n.descendantTokens.map PlacedToken.holding =
      heldAll (some n.kind) n.offset n.node.children := by
  simp [descendantTokens, holding_walkTokens, PlacedElement.held]

end PlacedNode

open Element

/-- Whether a node below a kind is put together from whole lines; steps, examples and scenarios are
left aside. -/
def Kind.isFrame (above : Option Kind) : Kind → Bool
  | .document | .feature | .background | .rule | .table | .tags | .description => true
  -- the name of an implied feature is a line of its own
  | .literalText => above == some .feature
  | _ => false

/-- What is looked for in all that is read. -/
structure Survey where
  /-- The places of the reader; the next element begins at the offset. -/
  At : Nat → Cursor → Prop
  /-- The places from which the reader gets to the end that the survey is about. -/
  leads : Cursor → Prop := fun _ => True
  /-- The property of the tokens, by the kinds above and their offsets. -/
  token : Option Kind → Nat → Token → Prop
  /-- The property of the nodes, by the kinds above and their offsets. -/
  node : Option Kind → Nat → Node → Prop

namespace Survey

variable {S : Survey} {d : Dialect} {above : Option Kind} {o : Nat} {c n : Cursor} {a : Ahead}
  {es fs : List Element}

/-- Elements that have the property and lead to a place. -/
structure Yields (S : Survey) (above : Option Kind) (o : Nat) (es : List Element) (c : Cursor) :
    Prop where
  tokens : ∀ x ∈ heldAll above o es, S.token x.1 x.2.1 x.2.2
  nodes : EverywhereAll S.node above o es
  place : S.At (o + fullWidthAll es) c

namespace Yields

theorem nil (h : S.At o c) : S.Yields above o [] c where
  tokens := by simp
  nodes := by simp
  place := h

theorem append (h : S.Yields above o es c)
    (hf : S.At (o + fullWidthAll es) c → S.Yields above (o + fullWidthAll es) fs n) :
    S.Yields above o (es ++ fs) n := by
  have hf := hf h.place
  refine ⟨?_, ?_, ?_⟩
  · rw [heldAll_append]
    exact List.forall_mem_append.2 ⟨h.tokens, hf.tokens⟩
  · rw [everywhereAll_append]
    exact ⟨h.nodes, hf.nodes⟩
  · rw [fullWidthAll_append, ← Nat.add_assoc]
    exact hf.place

/-- Elements below a node that has the property. -/
theorem node {k : Kind} (h : S.Yields (some k) o es c) (hn : S.node above o ⟨k, es⟩) :
    S.Yields above o [.node k es] c where
  tokens := by simpa using h.tokens
  nodes := by
    rw [everywhereAll_cons, everywhere_node]
    exact ⟨⟨hn, h.nodes⟩, trivial⟩
  place := by simpa using h.place

/-- Tokens of a node that is there if there are any. -/
theorem optional {k : Kind} {ts : List Token} (h : S.Yields (some k) o (ts.map .token) c)
    (hn : S.node above o ⟨k, ts.map .token⟩) :
    S.Yields above o (Node.optional (if ts.isEmpty then none else some ⟨k, ts.map .token⟩)) c := by
  cases ts with
  | nil => exact .nil h.place
  | cons t ts => exact h.node hn

end Yields

/-- A predicate that holds of all earlier places where it holds of one. -/
def Backward (leads : Cursor → Prop) : Prop := ∀ c c' : Cursor, c.Onward c' → leads c' → leads c

theorem backward_true : Backward fun _ => True := fun _ _ _ _ => trivial

/-- Rounds of a loop that have the property as far as they lead on; `els` are the elements of what a
round collects. -/
def Rounds {α : Type} (S : Survey) (leads : Cursor → Prop) (above : Option Kind)
    (els : List α → List Element) (step : Cursor → Option (List α × Cursor)) : Prop :=
  ∀ o c xs n, S.At o c → step c = some (xs, n) → leads n → S.Yields above o (els xs) n

/-- A loop that leads on has the property if its rounds do. -/
theorem Rounds.collect {α : Type} {els : List α → List Element} {leads : Cursor → Prop}
    {step : Cursor → Option (List α × Cursor)} (h : S.Rounds leads above els step)
    (hstep : Headway step) (hback : Backward leads) (hnil : els [] = [])
    (happ : ∀ xs ys, els (xs ++ ys) = els xs ++ els ys) (hat : S.At o c)
    (hend : leads (c.collect step).2) :
    S.Yields above o (els (c.collect step).1) (c.collect step).2 := by
  refine hstep.collect_induction
    (P := fun c p => ∀ o, S.At o c → leads p.2 → S.Yields above o (els p.1) p.2) ?_ ?_ c o hat hend
  · intro c _ o hat _
    rw [hnil]
    exact .nil hat
  · intro c xs n hs ih o hat hend
    have hnext := hback n _ (hstep.onward_collect n) hend
    rw [happ]
    exact (h o c xs n hat hs hnext).append fun hat => ih _ hat hend

/-- Rounds that have the property wherever they lead to. -/
theorem Rounds.collectAll {α : Type} {els : List α → List Element}
    {step : Cursor → Option (List α × Cursor)} (h : S.Rounds (fun _ => True) above els step)
    (hstep : Headway step) (hnil : els [] = []) (happ : ∀ xs ys, els (xs ++ ys) = els xs ++ els ys)
    (hat : S.At o c) : S.Yields above o (els (c.collect step).1) (c.collect step).2 :=
  h.collect hstep backward_true hnil happ hat trivial

end Survey

namespace Grammar

variable {d : Dialect} {c : Cursor} {a : Ahead}

theorem tagLine?_of_tags (h : d.peek? c = some a) (hk : a.kind = .tags) :
    tagLine? d c = some (
      TagLine.tokens a.cursor.pending ((TagLine.split a.line.content).restTrivia a.line.ending)
        (TagLine.split a.line.content).tags,
      a.take ((TagLine.split a.line.content).events a.cursor.offset)) := by
  obtain ⟨cur, l, k⟩ := a
  cases hk
  simp only [tagLine?, h, TagLine.events]
  split
  · rw [Ahead.take_nil]
  · rw [Ahead.take_singleton]

theorem textLine?_of_text (h : d.peek? c = some a) (hk : a.kind = .text) :
    textLine? d c =
      some ([Line.textToken a.line.content a.line.ending a.cursor.pending], a.take []) := by
  obtain ⟨cur, l, k⟩ := a
  cases hk
  simp only [textLine?, h]
  rw [Ahead.take_nil]

theorem row?_of_row (outline : Bool) (h : d.peek? c = some a) (hk : a.kind = .tableRow) :
    let row := Row.split a.line.content.tail
    row? d outline c = some (
      [row.node outline a.cursor.pending (Trivia.lineEnd row.rest a.line.ending)],
      a.take (row.events (a.cursor.offset + Text.width a.line.content))) := by
  obtain ⟨cur, l, k⟩ := a
  cases hk
  simp only [row?, h, Row.events]
  split
  · rw [Ahead.take_nil]
  · rw [Ahead.take_singleton]

end Grammar

open Grammar

namespace Survey

/-- A line that the reader faces at a place. -/
structure Faces (S : Survey) (d : Dialect) (o : Nat) (a : Ahead) : Prop where
  ahead : d.peek? a.cursor = some a
  place : S.At o a.cursor

/-- A survey whose properties hold of each single line. -/
structure Sound (S : Survey) (d : Dialect) : Prop where
  backward : Backward S.leads
  advance : ∀ {o c}, S.At o c → S.At o c.advance
  skip : ∀ {o a}, S.Faces d o a → S.At o a.skip
  tagLine : ∀ {o a}, S.Faces d o a → a.kind = .tags →
    S.Yields (some .tags) o
      ((TagLine.tokens a.cursor.pending ((TagLine.split a.line.content).restTrivia a.line.ending)
        (TagLine.split a.line.content).tags).map .token)
      (a.take ((TagLine.split a.line.content).events a.cursor.offset))
  textLine : ∀ {above o a}, S.Faces d o a → a.kind = .text →
    S.Yields above o [.token (Line.textToken a.line.content a.line.ending a.cursor.pending)]
      (a.take [])
  row : ∀ {outline o a}, S.Faces d o a → a.kind = .tableRow →
    let row := Row.split a.line.content.tail
    S.Yields (some .table) o
      [(row.node outline a.cursor.pending (Trivia.lineEnd row.rest a.line.ending)).toElement]
      (a.take (row.events (a.cursor.offset + Text.width a.line.content)))
  title : ∀ {above o a m}, above ≠ some .step → S.Faces d o a → a.kind = .keyword m →
    m.role.isStructural = true → S.Yields above o (titleLine m a).1.elements (titleLine m a).2
  stepLine : ∀ {outline o a m}, S.Faces d o a → a.kind = .keyword m → m.role.isStep = true →
    S.Yields (some .step) o
      [.token (stepLine outline m a).1, (stepLine outline m a).2.1.toElement]
      (stepLine outline m a).2.2
  docString : ∀ {outline o a f}, S.Faces d o a → a.kind = .docString f →
    S.Yields (some .step) o [(f.docString outline a).1.toElement] (f.docString outline a).2
  imply : ∀ {above o c}, S.At o c →
    S.Yields above o
      [.token (.absent .featureKeyword c.advance.pending []), .token (.absent .colonToken [] [])]
      (implied c)
  frame : ∀ {above o k es}, k.isFrame above = true → S.node above o ⟨k, es⟩
  stepNode : ∀ {outline above o a m}, S.Faces d o a → a.kind = .keyword m → m.role.isStep = true →
    S.node above o (step d outline m a).1
  examplesNode : ∀ {above o c}, S.At o c → d.nextRole? c = some .examples →
    S.node above o (examples d c).1
  scenarioNode : ∀ {above o c r}, S.At o c → d.nextRole? c = some r → r.isScenario = true →
    S.leads (scenario d c).2 → S.node above o (scenario d c).1

/-- The end of the file has the property. -/
def Closes (S : Survey) : Prop :=
  ∀ {o c}, S.At o c →
    S.Yields (some .document) o [.token (.plain .endOfFileToken [] c.advance.pending [])]
      { c.advance with pending := [] }

namespace Sound

variable {S : Survey} {d : Dialect} {above : Option Kind} {o : Nat} {c : Cursor} {a : Ahead}

theorem peek (h : S.Sound d) (hat : S.At o c) (ha : d.peek? c = some a) : S.Faces d o a where
  ahead := Dialect.peek?_cursor ha
  place := by
    rw [(Dialect.fits_of_peek? ha).cursor]
    exact h.advance hat

/-- The line ahead may be skipped. -/
theorem skipped (h : S.Sound d) (hat : S.At o c) (ha : d.peek? c = some a) :
    S.Yields above o [] a.skip := .nil (h.skip (h.peek hat ha))

theorem tags (h : S.Sound d) (hat : S.At o c) :
    S.Yields above o (Node.optional (tags d c).1) (tags d c).2 := by
  have hrounds : S.Rounds (fun _ => True) (some .tags) (List.map .token) (tagLine? d) := by
    intro o c xs n hat hs _
    by_cases hk : ∃ a, d.peek? c = some a ∧ a.kind = .tags
    · obtain ⟨a, ha, hk⟩ := hk
      rw [tagLine?_of_tags ha hk] at hs
      cases hs
      exact h.tagLine (h.peek hat ha) hk
    · rw [tagLine?_eq_none fun a ha hk' => hk ⟨a, ha, hk'⟩] at hs
      cases hs
  exact (hrounds.collectAll (headway_tagLine? d) rfl (fun _ _ => List.map_append) hat).optional
    (h.frame rfl)

theorem textLines (h : S.Sound d) :
    S.Rounds (fun _ => True) above (List.map .token) (textLine? d) := by
  intro o c xs n hat hs _
  by_cases hk : ∃ a, d.peek? c = some a ∧ a.kind = .text
  · obtain ⟨a, ha, hk⟩ := hk
    rw [textLine?_of_text ha hk] at hs
    cases hs
    exact h.textLine (h.peek hat ha) hk
  · rw [textLine?_eq_none fun a ha hk' => hk ⟨a, ha, hk'⟩] at hs
    cases hs

theorem description (h : S.Sound d) (hat : S.At o c) :
    S.Yields above o (Node.optional (description d c).1) (description d c).2 :=
  (h.textLines.collectAll (headway_textLine? d) rfl (fun _ _ => List.map_append) hat).optional
    (h.frame rfl)

theorem header (h : S.Sound d) {role r : Role} (hne : above ≠ some .step)
    (hr : d.nextRole? c = some r) (ho : opens role r = true) (hs : r.isStructural = true)
    (hat : S.At o c) :
    S.Yields above o (header d role c).1.elements (header d role c).2 := by
  have htitle (o : Nat) (hat : S.At o (Grammar.tags d c).2) :
      S.Yields above o (Grammar.title d role (Grammar.tags d c).2).1.elements
        (Grammar.title d role (Grammar.tags d c).2).2 := by
    obtain ⟨hrole, hnone⟩ := nextRole?_tags d c
    obtain ⟨a, ha⟩ := Dialect.exists_peek? (hrole.trans hr)
    have hk := Dialect.nextRole?_of_not_tags ha (not_tags_of_tagLine? hnone ha)
    rw [hrole, hr] at hk
    cases hkind : a.kind with
    | keyword m =>
      rw [hkind] at hk
      cases hk
      rw [title_eq ha hkind ho]
      exact h.title hne (h.peek hat ha) hkind hs
    | _ =>
      rw [hkind] at hk
      cases hk
  have hall := ((h.tags hat).append (htitle _)).append h.description
  simpa [Header.elements, Grammar.header, Title.elements] using hall

theorem table (h : S.Sound d) (outline : Bool) (hat : S.At o c) :
    S.Yields above o [(table d outline c).1.toElement] (table d outline c).2 := by
  have hrounds : S.Rounds (fun _ => True) (some .table) (List.map Node.toElement)
      (row? d outline) := by
    intro o c xs n hat hs _
    by_cases hk : ∃ a, d.peek? c = some a ∧ a.kind = .tableRow
    · obtain ⟨a, ha, hk⟩ := hk
      rw [row?_of_row outline ha hk] at hs
      cases hs
      exact h.row (h.peek hat ha) hk
    · rw [row?_eq_none outline fun a ha hk' => hk ⟨a, ha, hk'⟩] at hs
      cases hs
  exact (hrounds.collectAll (headway_row? d outline) rfl (fun _ _ => List.map_append) hat).node
    (h.frame rfl)

theorem argument (h : S.Sound d) (outline : Bool) (hat : S.At o c) :
    S.Yields (some .step) o (Node.optional (argument d outline c).1) (argument d outline c).2 := by
  cases ha : d.peek? c with
  | none =>
    simp only [Grammar.argument, ha]
    exact .nil hat
  | some a =>
    have hf := h.peek hat ha
    by_cases hrow : a.kind = .tableRow
    · rw [argument_of_row outline ha hrow]
      exact h.table outline hf.place
    · by_cases hdoc : ∃ f, a.kind = .docString f
      · obtain ⟨f, hk⟩ := hdoc
        rw [argument_of_docString outline ha hk]
        exact h.docString hf hk
      · rw [argument_of_other outline ha hrow (not_exists.1 hdoc)]
        exact .nil hat

theorem step (h : S.Sound d) (outline : Bool) {m : KeywordMatch} (hf : S.Faces d o a)
    (hk : a.kind = .keyword m) (hm : m.role.isStep = true) :
    S.Yields above o [(step d outline m a).1.toElement] (step d outline m a).2 := by
  have hnode : S.node above o (Grammar.step d outline m a).1 := h.stepNode hf hk hm
  rw [step_eq_stepLine] at hnode ⊢
  exact ((h.stepLine hf hk hm).append fun hat => h.argument outline hat).node hnode

theorem steps (h : S.Sound d) (outline : Bool) (hat : S.At o c) :
    S.Yields above o ((steps d outline c).1.map Node.toElement) (steps d outline c).2 := by
  have hrounds : S.Rounds (fun _ => True) above (List.map Node.toElement)
      (stepOrSkip? d outline) := by
    intro o c xs n hat hs _
    cases ha : d.peek? c with
    | none =>
      simp only [stepOrSkip?, ha] at hs
      cases hs
    | some a =>
      by_cases hk : ∃ m, a.kind = .keyword m ∧ m.role.isStep = true
      · obtain ⟨m, hk, hm⟩ := hk
        rw [stepOrSkip?_of_step outline ha hk hm] at hs
        cases hs
        exact h.step outline (h.peek hat ha) hk hm
      · rw [stepOrSkip?_of_not_step outline ha fun m hm => by simpa using fun hs => hk ⟨m, hm, hs⟩]
          at hs
        split at hs
        · cases hs
        · cases hs
          exact h.skipped hat ha
  exact hrounds.collectAll (headway_stepOrSkip? d outline) rfl (fun _ _ => List.map_append) hat

theorem background (h : S.Sound d) (hr : d.nextRole? c = some .background) (hat : S.At o c) :
    S.Yields above o [(background d c).1.toElement] (background d c).2 :=
  ((h.header (by exact nofun) hr rfl rfl hat).append (h.steps false)).node (h.frame rfl)

theorem table? (h : S.Sound d) (hat : S.At o c) :
    S.Yields above o (Node.optional (table? d c).1) (table? d c).2 := by
  cases ha : d.peek? c with
  | none =>
    simp only [Grammar.table?, ha]
    exact .nil hat
  | some a =>
    have hplace := (h.peek hat ha).place
    simp only [Grammar.table?, ha]
    obtain ⟨cur, l, k⟩ := a
    cases k with
    | tableRow => exact h.table false hplace
    | _ => exact .nil hat

theorem examples (h : S.Sound d) (hr : d.nextRole? c = some .examples) (hat : S.At o c) :
    S.Yields above o [(examples d c).1.toElement] (examples d c).2 := by
  have hnode : S.node above o (Grammar.examples d c).1 := h.examplesNode hat hr
  rw [examples_eq_table?] at hnode ⊢
  exact ((h.header (by exact nofun) hr rfl rfl hat).append h.table?).node hnode

theorem scenario (h : S.Sound d) {r : Role} (hr : d.nextRole? c = some r)
    (hs : r.isScenario = true) (hat : S.At o c) (hend : S.leads (scenario d c).2) :
    S.Yields above o [(scenario d c).1.toElement] (scenario d c).2 := by
  have hrounds : S.Rounds (fun _ => True) (some .scenario) (List.map Node.toElement)
      (examplesOrSkip? d) := by
    intro o c xs n hat hs _
    cases ha : d.peek? c with
    | none =>
      simp only [examplesOrSkip?, ha] at hs
      cases hs
    | some a =>
      rw [examplesOrSkip?_eq ha] at hs
      split at hs
      · rename_i hr
        rw [← Dialect.nextRole?_cursor ha] at hr
        cases hs
        exact h.examples hr (h.peek hat ha).place
      · split at hs
        · cases hs
        · cases hs
          exact h.skipped hat ha
  have hexamples {o : Nat} {c : Cursor} (hat : S.At o c) :=
    hrounds.collectAll (headway_examplesOrSkip? d) rfl (fun _ _ => List.map_append) hat
  have hheader : S.Yields (some .scenario) o _ _ :=
    h.header (by decide) hr (opens_scenario hs) (isStructural_of_isScenario hs) hat
  exact ((hheader.append (h.steps _)).append hexamples).node (h.scenarioNode hat hr hs hend)

theorem background? (h : S.Sound d) (hat : S.At o c) :
    S.Yields above o (Node.optional (background? d c).1) (background? d c).2 := by
  cases ha : d.peek? c with
  | none =>
    simp only [Grammar.background?, ha]
    exact .nil hat
  | some a =>
    rw [background?_eq ha]
    split
    · rename_i hb
      rw [← Dialect.nextRole?_cursor ha] at hb
      exact h.background hb.1 (h.peek hat ha).place
    · exact .nil hat

theorem body (h : S.Sound d) (hat : S.At o c) (hend : S.leads (body d c).2.2) :
    S.Yields above o (Node.optional (body d c).1 ++ (body d c).2.1.map Node.toElement)
      (body d c).2.2 := by
  -- what is skipped in front of the first section gives nothing
  have hskips : S.Rounds (fun _ => True) above (fun _ => []) (skipToSection? d) := by
    intro o c xs n hat hs _
    cases ha : d.peek? c with
    | none =>
      simp only [skipToSection?, ha] at hs
      cases hs
    | some a =>
      rw [skipToSection?_eq ha] at hs
      split at hs
      · cases hs
      · cases hs
        exact h.skipped hat ha
  have hrounds : S.Rounds S.leads above (List.map Node.toElement) (scenarioOrSkip? d) := by
    intro o c xs n hat hs hnext
    cases ha : d.peek? c with
    | none =>
      simp only [scenarioOrSkip?, ha] at hs
      cases hs
    | some a =>
      rw [scenarioOrSkip?_eq ha] at hs
      split at hs
      · rename_i hany
        obtain ⟨r, hr, hsc⟩ := (Option.any_eq_true _ _).1 hany
        rw [← Dialect.nextRole?_cursor ha] at hr
        cases hs
        exact h.scenario hr hsc (h.peek hat ha).place hnext
      · split at hs
        · cases hs
        · cases hs
          exact h.skipped hat ha
  have hskipped := hskips.collectAll (headway_skipToSection? d) rfl (fun _ _ => rfl) hat
  exact (hskipped.append h.background?).append fun hat =>
    hrounds.collect (headway_scenarioOrSkip? d) h.backward rfl (fun _ _ => List.map_append) hat hend

theorem rule (h : S.Sound d) (hr : d.nextRole? c = some .rule) (hat : S.At o c)
    (hend : S.leads (rule d c).2) : S.Yields above o [(rule d c).1.toElement] (rule d c).2 := by
  refine .node ?_ (h.frame rfl)
  have hheader : S.Yields (some .rule) o (Grammar.header d .rule c).1.elements
      (Grammar.header d .rule c).2 := h.header (by decide) hr rfl rfl hat
  simpa [Grammar.rule, Node.ofRule] using hheader.append fun hat => h.body hat hend

theorem rules (h : S.Sound d) (hat : S.At o c) (hend : S.leads (c.collect (ruleOrSkip? d)).2) :
    S.Yields above o ((c.collect (ruleOrSkip? d)).1.map Node.toElement)
      (c.collect (ruleOrSkip? d)).2 := by
  have hrounds : S.Rounds S.leads above (List.map Node.toElement) (ruleOrSkip? d) := by
    intro o c xs n hat hs hnext
    cases ha : d.peek? c with
    | none =>
      simp only [ruleOrSkip?, ha] at hs
      cases hs
    | some a =>
      by_cases hr : d.nextRole? c = some .rule
      · rw [ruleOrSkip?_eq ha hr] at hs
        cases hs
        exact h.rule ((Dialect.nextRole?_cursor ha).trans hr) (h.peek hat ha).place hnext
      · rw [ruleOrSkip?_of_not_rule ha hr] at hs
        cases hs
        exact h.skipped hat ha
  exact hrounds.collect (headway_ruleOrSkip? d) h.backward rfl (fun _ _ => List.map_append) hat hend

theorem impliedHeader (h : S.Sound d) (hat : S.At o c) :
    S.Yields (some .feature) o (impliedHeader d c).1.elements (impliedHeader d c).2 := by
  have himply : S.Yields (some .feature) o _ (implied c) := h.imply hat
  cases hs : textLine? d (implied c) with
  | none =>
    rw [impliedHeader_of_not_text rfl hs]
    exact himply
  | some p =>
    obtain ⟨ts, n⟩ := p
    rw [impliedHeader_of_text rfl hs]
    have hname : S.Yields (some .feature) _ [(Node.ofLiterals ts).toElement] n :=
      (h.textLines _ _ _ _ himply.place hs trivial).node (h.frame rfl)
    exact (himply.append fun _ => hname).append h.description

theorem featureHeader (h : S.Sound d) (hat : S.At o c) :
    S.Yields (some .feature) o (featureHeader d c).1.elements (featureHeader d c).2 := by
  cases ha : d.peek? c with
  | none =>
    simp only [Grammar.featureHeader, ha]
    exact h.impliedHeader hat
  | some a =>
    simp only [Grammar.featureHeader, ha, Dialect.roleAhead_eq ha]
    split
    · rename_i hr
      rw [← Dialect.nextRole?_cursor ha] at hr
      exact h.header (by decide) hr rfl rfl (h.peek hat ha).place
    · exact h.impliedHeader hat

theorem feature (h : S.Sound d) (hat : S.At o c) (hend : S.leads (feature d c).2) :
    S.Yields above o [(feature d c).1.toElement] (feature d c).2 := by
  have hbody := h.backward _ _ ((headway_ruleOrSkip? d).onward_collect _) hend
  refine .node ?_ (h.frame rfl)
  simpa [Grammar.feature, Node.ofFeature] using
    ((h.featureHeader hat).append fun hat => h.body hat hbody).append fun hat => h.rules hat hend

/-- What stands in front of the end of the file has the property that its lines have. -/
theorem feature? (h : S.Sound d) (hat : S.At o c) (hend : S.leads (feature? d c).2) :
    S.Yields above o (Node.optional (feature? d c).1) (feature? d c).2 := by
  cases ha : d.peek? c with
  | none =>
    simp only [Grammar.feature?, ha]
    exact .nil hat
  | some a =>
    simp only [Grammar.feature?, ha] at hend ⊢
    exact h.feature (h.peek hat ha).place hend

/-- A document has the property that its lines and the end of the file have. -/
theorem document (h : S.Sound d) (heof : S.Closes) (hat : S.At o c)
    (hend : S.leads (document d c).2) :
    S.Yields above o [(document d c).1.toElement] (document d c).2 := by
  have honward : (Grammar.feature? d c).2.Onward (Grammar.document d c).2 :=
    ⟨Cursor.length_cutTrivia_le _, List.prefix_rfl⟩
  exact ((h.feature? hat (h.backward _ _ honward hend)).append heof).node (h.frame rfl)

end Sound

end Survey

end GherkinTree
