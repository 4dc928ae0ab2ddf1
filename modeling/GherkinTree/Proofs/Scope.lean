import GherkinTree.Line

/-!
Which lines a document keeps, told line by line. A scope sums up the lines above a place: the
nearest line with a structural keyword and whether it was kept, whether a background may still
come, and what the line directly above lets follow. It decides for the next line whether it is kept,
given the kind of the first line below that holds no tags.
-/

namespace GherkinTree

/-- Whether a keyword opens a scenario. -/
def Role.isScenario : Role → Bool
  | scenario | scenarioOutline => true
  | _ => false

theorem Role.eq_of_isScenario {r : Role} (h : r.isScenario = true) :
    r = .scenario ∨ r = .scenarioOutline := by
  cases r <;> simp_all [isScenario]

/-- What the line directly above lets follow. -/
inductive Place where
  /-- There is no line above. -/
  | start
  /-- All lines above are tags. -/
  | tagged
  /-- The title of a section or its description. -/
  | header
  | step
  | table
  /-- The first line of a doc string, which is open. -/
  | fence (f : Fence)
  | elsewhere
  deriving DecidableEq, Repr

namespace Place

/-- Whether no line above holds anything but tags. -/
def isFresh : Place → Bool
  | start | tagged => true
  | _ => false

def isFence : Place → Bool
  | fence _ => true
  | _ => false

end Place

/-- The lines above a place, as far as they matter to the lines below it. -/
structure Scope where
  /-- The role of the nearest structural keyword above, and whether its line was kept. -/
  nearest : Option (Role × Bool)
  /-- Whether neither a kept background nor a scenario has come since the last rule. -/
  room : Bool
  place : Place
  deriving DecidableEq, Repr

namespace Scope

/-- The scope of the first line. -/
def initial : Scope := ⟨none, true, .start⟩

/-- Whether a line with a keyword of the role is kept. -/
def takes (s : Scope) : Role → Bool
  | .scenario | .scenarioOutline | .rule => true
  | .feature => s.place.isFresh
  | .background => s.room
  | .examples => s.nearest.any fun n => n.1.isScenario || (n.1 == .examples && n.2)
  | _ => s.nearest.any fun n => (n.1 == .background || n.1.isScenario) && n.2

/-- Whether tags belong to a section of the role; backgrounds have none. -/
def takesTags (s : Scope) (r : Role) : Bool :=
  r.isStructural && r != .background && s.takes r

/-- Whether a line of the kind is kept; `below` is the kind of the first line that holds no tags,
this line included. -/
def keeps (s : Scope) (below : Option LineKind) : LineKind → Bool
  | .tags => (below.bind LineKind.role?).any s.takesTags
  | .keyword m => s.takes m.role
  | .text => s.place == .start || s.place == .header
  | .tableRow =>
    s.place == .step || s.place == .table ||
      (s.place == .header && s.nearest == some (.examples, true))
  | .docString _ => s.place == .step || s.place.isFence

/-- The scope below a line of the kind. -/
def next (s : Scope) (k : LineKind) (kept : Bool) : Scope :=
  match k with
  | .tags => { s with place := if s.place.isFresh then .tagged else .elsewhere }
  | .keyword m =>
    if m.role.isStep then { s with place := if kept then .step else .elsewhere }
    else
      { nearest := some (m.role, kept)
        room := m.role == .rule ||
          (s.room && !m.role.isScenario && !(m.role == .background && kept))
        place := if kept then .header else .elsewhere }
  | .text => { s with place := if kept then .header else .elsewhere }
  | .tableRow => { s with place := if kept then .table else .elsewhere }
  | .docString f => { s with place := if kept && s.place == .step then .fence f else .elsewhere }

/-- Two scopes agree on the sections above. -/
def SameSection (s t : Scope) : Prop := t.nearest = s.nearest ∧ t.room = s.room

theorem SameSection.refl (s : Scope) : s.SameSection s := ⟨rfl, rfl⟩

theorem SameSection.trans {s t u : Scope} (h : s.SameSection t) (h' : t.SameSection u) :
    s.SameSection u := ⟨h'.1.trans h.1, h'.2.trans h.2⟩

/-- A line without a structural keyword opens no section. -/
theorem sameSection_next (s : Scope) {k : LineKind} (hk : k.role?.any Role.isStructural = false)
    (b : Bool) : s.SameSection (s.next k b) := by
  cases k with
  | keyword m =>
    have hm : m.role.isStep = true := by simpa [LineKind.role?, Role.isStructural] using hk
    simp [SameSection, next, hm]
  | _ => exact ⟨rfl, rfl⟩

/-- What a keyword of a section below the feature meets depends on the sections above only. -/
theorem takes_of_sameSection {s t : Scope} (h : s.SameSection t) {r : Role} (hr : r ≠ .feature) :
    t.takes r = s.takes r := by
  cases r <;> simp_all [takes, SameSection]

@[simp] theorem takes_next_tags (s : Scope) (b : Bool) (r : Role) :
    (s.next .tags b).takes r = s.takes r := by
  by_cases hr : r = .feature
  · subst hr
    cases hp : s.place <;> simp [takes, next, hp, Place.isFresh]
  · exact takes_of_sameSection (sameSection_next s rfl b) hr

/-- One step keyword is as good as another. -/
theorem takes_step {s : Scope} {r r' : Role} (hr : r.isStep = true) (hr' : r'.isStep = true) :
    s.takes r = s.takes r' := by
  cases r <;> cases r' <;> simp_all [takes, Role.isStep]

/-- The place after a skipped line lets only keywords follow. -/
theorem place_next_false (s : Scope) (k : LineKind) :
    (s.next k false).place = .tagged ∨ (s.next k false).place = .elsewhere := by
  cases k with
  | tags => cases hp : s.place <;> simp [next, hp, Place.isFresh]
  | keyword m => by_cases hm : m.role.isStep = true <;> simp [next, hm]
  | _ => simp [next]

/-- Only the first line of a doc string below a step leaves one open. -/
theorem isFence_next (s : Scope) (k : LineKind) (b : Bool) :
    (s.next k b).place.isFence = true ↔
      s.place = .step ∧ b = true ∧ ∃ f, k = .docString f := by
  cases k with
  | keyword m => by_cases hm : m.role.isStep = true <;> cases b <;> simp [next, hm, Place.isFence]
  | tags => cases hp : s.place <;> simp [next, hp, Place.isFresh, Place.isFence]
  | docString f => cases b <;> by_cases h : s.place = .step <;> simp [next, h, Place.isFence]
  | _ => cases b <;> simp [next, Place.isFence]

/-- Text, rows and fences are skipped where only keywords may follow. -/
theorem keeps_eq_false {s : Scope} (hs : s.place = .tagged ∨ s.place = .elsewhere)
    {k : LineKind} (hr : k.role? = none) (hk : k ≠ .tags) (below : Option LineKind) :
    s.keeps below k = false := by
  cases k with
  | tags => exact absurd rfl hk
  | keyword m => simp [LineKind.role?] at hr
  | _ => rcases hs with hs | hs <;> simp [keeps, hs, Place.isFence]

end Scope

end GherkinTree
