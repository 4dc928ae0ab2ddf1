import GherkinTree.Proofs.Section
import Mathlib.Data.List.Induction

/-!
The rules by which lines are kept. Each rule names, for a line of a kind, what has to stand above or
below it, without reference to how documents are read; the scope that a run passes from line to line
follows the rules. Main statements: the fates of a run obey the scope, and where lines obey the
scope a line is kept exactly if it fits between the lines above and below it.
-/

namespace GherkinTree

section Rules

variable {α : Type} (kind : α → LineKind) (kept : α → Prop)

/-- The nearest line with a structural keyword has the property. -/
def Nearest (above : List α) (p : α → Role → Prop) : Prop :=
  ∃ as x bs r, above = as ++ x :: bs ∧ (kind x).role? = some r ∧ r.isStructural = true ∧
    (∀ y ∈ bs, (kind y).role?.any Role.isStructural = false) ∧ p x r

/-- The line directly above has the property. -/
def DirectlyAbove (above : List α) (p : α → Prop) : Prop := ∃ as x, above = as ++ [x] ∧ p x

/-- A line is kept and opens a step. -/
def KeptStep (x : α) : Prop := kept x ∧ (kind x).role?.any Role.isStep = true

/-- A line is kept and is the title of a section or a line of its description. -/
def KeptHeader (x : α) : Prop :=
  kept x ∧ ((kind x).role?.any Role.isStructural = true ∨ kind x = .text)

/-- A keyword of the role fits below the lines above. -/
def KeywordFits (above : List α) : Role → Prop
  | .scenario | .scenarioOutline | .rule => True
  | .feature => ∀ x ∈ above, kind x = .tags
  | .background =>
    ∀ as x bs, above = as ++ x :: bs → (∀ y ∈ bs, (kind y).role? ≠ some .rule) →
      ¬((kind x).role? = some .background ∧ kept x) ∧ (kind x).role?.any Role.isScenario = false
  | .examples => Nearest kind above fun x r => r.isScenario = true ∨ (r = .examples ∧ kept x)
  | _ => Nearest kind above fun x r => kept x ∧ (r = .background ∨ r.isScenario = true)

/-- A line fits between the lines above and below it. -/
def Fits (above : List α) (l : α) (below : List α) : Prop :=
  match kind l with
  | .keyword m => KeywordFits kind kept above m.role
  | .tags =>
    ∃ as x bs r, below = as ++ x :: bs ∧ (∀ y ∈ as, kind y = .tags) ∧ (kind x).role? = some r ∧
      r.isStructural = true ∧ r ≠ .background ∧ kept x
  | .text => above = [] ∨ DirectlyAbove above (KeptHeader kind kept)
  | .tableRow =>
    DirectlyAbove above (fun x => KeptStep kind kept x ∨ (kept x ∧ kind x = .tableRow)) ∨
      (DirectlyAbove above (KeptHeader kind kept) ∧
        Nearest kind above fun x r => r = .examples ∧ kept x)
  | .docString _ =>
    DirectlyAbove above (KeptStep kind kept) ∨
      ∃ as x y, above = as ++ [x, y] ∧ KeptStep kind kept x ∧ kept y ∧ ∃ f, kind y = .docString f

end Rules

section Obedience

variable {α : Type} {kind : α → LineKind} {kept : α → Bool}

/-- The kind of the first line that holds no tags. -/
def firstKind? (kind : α → LineKind) (xs : List α) : Option LineKind :=
  (xs.find? fun x => kind x != .tags).map kind

namespace Scope

/-- The scope below lines. -/
def after (kind : α → LineKind) (kept : α → Bool) (s : Scope) (xs : List α) : Scope :=
  xs.foldl (fun s x => s.next (kind x) (kept x)) s

/-- Every line is kept exactly if the scope of the lines above it keeps it. -/
def Obeys (kind : α → LineKind) (kept : α → Bool) : Scope → List α → Prop
  | _, [] => True
  | s, x :: xs =>
    kept x = s.keeps (firstKind? kind (x :: xs)) (kind x) ∧
      Obeys kind kept (s.next (kind x) (kept x)) xs

theorem after_concat (s : Scope) (xs : List α) (x : α) :
    s.after kind kept (xs ++ [x]) = (s.after kind kept xs).next (kind x) (kept x) := by
  simp [after]

theorem Obeys.of_append {s : Scope} {xs ys : List α} (h : s.Obeys kind kept (xs ++ ys)) :
    (s.after kind kept xs).Obeys kind kept ys := by
  induction xs generalizing s with
  | nil => exact h
  | cons x xs ih => exact ih h.2

/-- Only the kinds of lines matter and whether they are kept. -/
theorem obeys_map {β : Type} (g : β → α) (s : Scope) (xs : List β) :
    s.Obeys kind kept (xs.map g) ↔ s.Obeys (fun x => kind (g x)) (fun x => kept (g x)) xs := by
  induction xs generalizing s with
  | nil => exact Iff.rfl
  | cons x xs ih =>
    have hfirst : firstKind? kind ((x :: xs).map g) = firstKind? (fun x => kind (g x)) (x :: xs) := by
      rw [firstKind?, firstKind?, List.find?_map, Option.map_map]
      rfl
    rw [Obeys, ← ih, ← hfirst]
    rfl

theorem Obeys.congr {kept' : α → Bool} {s : Scope} {xs : List α} (h : s.Obeys kind kept xs)
    (hk : ∀ x ∈ xs, kept x = kept' x) : s.Obeys kind kept' xs := by
  induction xs generalizing s with
  | nil => trivial
  | cons x xs ih =>
    rw [List.forall_mem_cons] at hk
    rw [Obeys, hk.1] at h
    exact ⟨h.1, ih h.2 hk.2⟩

/-- A line is the last of a list, or it stands in front of the last. -/
theorem concat_eq_append_cons {xs as bs : List α} {x y : α} (h : xs ++ [x] = as ++ y :: bs) :
    (bs = [] ∧ as = xs ∧ y = x) ∨ ∃ cs, bs = cs ++ [x] ∧ xs = as ++ y :: cs := by
  rcases List.eq_nil_or_concat bs with rfl | ⟨cs, z, rfl⟩
  · obtain ⟨h₁, h₂⟩ := List.append_inj' h rfl
    exact .inl ⟨rfl, h₁.symm, (List.cons.inj h₂).1.symm⟩
  · rw [List.concat_eq_append, ← List.cons_append, ← List.append_assoc] at h
    obtain ⟨h₁, h₂⟩ := List.append_inj' h rfl
    exact .inr ⟨cs, by rw [List.concat_eq_append, (List.cons.inj h₂).1], h₁⟩

theorem nearest_concat_of_structural {p : α → Role → Prop} {x : α} {r : Role}
    (hx : (kind x).role? = some r) (hr : r.isStructural = true) (xs : List α) :
    Nearest kind (xs ++ [x]) p ↔ p x r := by
  constructor
  · rintro ⟨as, y, bs, r', he, hy, -, hbs, hp⟩
    rcases concat_eq_append_cons he with ⟨-, -, rfl⟩ | ⟨cs, rfl, -⟩
    · rw [hx] at hy
      cases hy
      exact hp
    · have := hbs x (by simp)
      simp [hx, hr] at this
  · exact fun hp => ⟨xs, x, [], r, rfl, hx, hr, nofun, hp⟩

theorem nearest_concat_of_plain {p : α → Role → Prop} {x : α}
    (hx : (kind x).role?.any Role.isStructural = false) (xs : List α) :
    Nearest kind (xs ++ [x]) p ↔ Nearest kind xs p := by
  constructor
  · rintro ⟨as, y, bs, r, he, hy, hr, hbs, hp⟩
    rcases concat_eq_append_cons he with ⟨-, -, rfl⟩ | ⟨cs, rfl, rfl⟩
    · simp [hy, hr] at hx
    · exact ⟨as, y, cs, r, rfl, hy, hr, fun z hz => hbs z (by simp [hz]), hp⟩
  · rintro ⟨as, y, bs, r, rfl, hy, hr, hbs, hp⟩
    refine ⟨as, y, bs ++ [x], r, by simp, hy, hr, fun z hz => ?_, hp⟩
    rcases List.mem_append.1 hz with hz | hz
    · exact hbs z hz
    · rw [List.mem_singleton.1 hz, hx]

/-- The scope knows the nearest structural keyword above. -/
theorem nearest_after (kind : α → LineKind) (kept : α → Bool) (p : Role → Bool → Bool)
    (xs : List α) :
    (Scope.initial.after kind kept xs).nearest.any (fun n => p n.1 n.2) = true ↔
      Nearest kind xs fun x r => p r (kept x) = true := by
  induction xs using List.reverseRecOn with
  | nil => simp [after, initial, Nearest]
  | append_singleton xs x ih =>
    rw [after_concat]
    by_cases hx : (kind x).role?.any Role.isStructural = true
    · obtain ⟨r, hr, hs⟩ := (Option.any_eq_true _ _).1 hx
      rw [nearest_concat_of_structural hr hs]
      cases hk : kind x with
      | keyword m =>
        rw [hk] at hr
        cases hr
        have hm : m.role.isStep = false := by simpa [Role.isStructural] using hs
        simp [next, hm]
      | _ => rw [hk] at hr; cases hr
    · rw [nearest_concat_of_plain (by simpa using hx), ← ih,
        (sameSection_next _ (by simpa using hx) _).1]

/-- A background may come if no scenario and no kept background has come since the last rule. -/
theorem room_after (xs : List α) :
    (Scope.initial.after kind kept xs).room = true ↔
      KeywordFits kind (fun x => kept x = true) xs .background := by
  induction xs using List.reverseRecOn with
  | nil => simp [after, initial, KeywordFits]
  | append_singleton xs x ih =>
    rw [after_concat]
    have hlast (hr : (kind x).role? ≠ some .rule) :
        KeywordFits kind (fun x => kept x = true) (xs ++ [x]) .background ↔
          (¬((kind x).role? = some .background ∧ kept x = true) ∧
            (kind x).role?.any Role.isScenario = false) ∧
          KeywordFits kind (fun x => kept x = true) xs .background := by
      constructor
      · refine fun h => ⟨h xs x [] rfl nofun, fun as y bs he hbs => ?_⟩
        refine h as y (bs ++ [x]) (by simp [he]) fun z hz => ?_
        rcases List.mem_append.1 hz with hz | hz
        · exact hbs z hz
        · rwa [List.mem_singleton.1 hz]
      · rintro ⟨hx, hxs⟩ as y bs he hbs
        rcases concat_eq_append_cons he with ⟨-, -, rfl⟩ | ⟨cs, rfl, rfl⟩
        · exact hx
        · exact hxs as y cs rfl fun z hz => hbs z (by simp [hz])
    cases hk : kind x with
    | keyword m =>
      by_cases hrule : m.role = .rule
      · have hroom : ((Scope.initial.after kind kept xs).next (.keyword m) (kept x)).room = true := by
          simp [next, hrule, Role.isStep]
        refine ⟨fun _ as y bs he hbs => ?_, fun _ => hroom⟩
        rcases concat_eq_append_cons he with ⟨-, -, rfl⟩ | ⟨cs, rfl, rfl⟩
        · simp [hk, LineKind.role?, hrule, Role.isScenario]
        · exact absurd (by rw [hk, LineKind.role?, hrule]) (hbs x (by simp))
      · rw [hlast (by simpa [hk, LineKind.role?] using hrule), ← ih, hk]
        by_cases hm : m.role.isStep = true
        · have hs : m.role.isScenario = false := by
            cases hr : m.role <;> simp_all [Role.isStep, Role.isScenario]
          have hb : m.role ≠ .background := by
            intro hb
            rw [hb] at hm
            cases hm
          simp [next, hm, LineKind.role?, hs, hb]
        · cases kept x <;> simp [next, hm, LineKind.role?, hrule, and_comm, and_assoc]
    | _ => rw [hlast (by simp [hk, LineKind.role?]), ← ih, hk]; simp [next, LineKind.role?]

/-- Everything above is tags as long as the place is fresh. -/
theorem isFresh_after (xs : List α) :
    (Scope.initial.after kind kept xs).place.isFresh = true ↔ ∀ x ∈ xs, kind x = .tags := by
  induction xs using List.reverseRecOn with
  | nil => simp [after, initial, Place.isFresh]
  | append_singleton xs x ih =>
    rw [after_concat]
    by_cases hx : kind x = .tags
    · have hall : (∀ y ∈ xs ++ [x], kind y = .tags) ↔ ∀ y ∈ xs, kind y = .tags := by
        rw [List.forall_mem_append]
        simp [hx]
      rw [hall, ← ih, hx]
      cases hp : (Scope.initial.after kind kept xs).place <;> simp [next, hp, Place.isFresh]
    · rw [not_isFresh_next _ hx]
      simp [hx]

theorem place_next_ne_start (s : Scope) (k : LineKind) (b : Bool) :
    (s.next k b).place ≠ .start := by
  cases k with
  | keyword m => by_cases hm : m.role.isStep = true <;> cases b <;> simp [next, hm]
  | tags => cases hp : s.place <;> simp [next, hp, Place.isFresh]
  | docString f => by_cases h : (b && s.place == .step) = true <;> simp [next, h]
  | _ => cases b <;> simp [next]

theorem place_next_eq_header (s : Scope) (k : LineKind) (b : Bool) :
    (s.next k b).place = .header ↔
      b = true ∧ (k.role?.any Role.isStructural = true ∨ k = .text) := by
  cases k with
  | keyword m =>
    by_cases hm : m.role.isStep = true <;> cases b <;>
      simp [next, hm, LineKind.role?, Role.isStructural]
  | tags => cases hp : s.place <;> simp [next, hp, Place.isFresh, LineKind.role?]
  | docString f =>
    by_cases h : (b && s.place == .step) = true <;> simp [next, h, LineKind.role?]
  | _ => cases b <;> simp [next, LineKind.role?]

theorem place_next_eq_step (s : Scope) (k : LineKind) (b : Bool) :
    (s.next k b).place = .step ↔ b = true ∧ k.role?.any Role.isStep = true := by
  cases k with
  | keyword m =>
    by_cases hm : m.role.isStep = true <;> cases b <;> simp [next, hm, LineKind.role?]
  | tags => cases hp : s.place <;> simp [next, hp, Place.isFresh, LineKind.role?]
  | docString f =>
    by_cases h : (b && s.place == .step) = true <;> simp [next, h, LineKind.role?]
  | _ => cases b <;> simp [next, LineKind.role?]

theorem place_next_eq_table (s : Scope) (k : LineKind) (b : Bool) :
    (s.next k b).place = .table ↔ b = true ∧ k = .tableRow := by
  cases k with
  | keyword m => by_cases hm : m.role.isStep = true <;> cases b <;> simp [next, hm]
  | tags => cases hp : s.place <;> simp [next, hp, Place.isFresh]
  | docString f => by_cases h : (b && s.place == .step) = true <;> simp [next, h]
  | _ => cases b <;> simp [next]

theorem place_after_eq_start (xs : List α) :
    (Scope.initial.after kind kept xs).place = .start ↔ xs = [] := by
  rcases List.eq_nil_or_concat xs with rfl | ⟨xs, x, rfl⟩
  · simp [after, initial]
  · rw [List.concat_eq_append, after_concat]
    simp [place_next_ne_start]

/-- What the place is like is told by the line directly above. -/
theorem after_iff_directlyAbove {q : Place → Prop} {p : α → Prop} (hs : ¬q .start)
    (h : ∀ (s : Scope) (x : α), q (s.next (kind x) (kept x)).place ↔ p x) (xs : List α) :
    q (Scope.initial.after kind kept xs).place ↔ DirectlyAbove xs p := by
  rcases List.eq_nil_or_concat xs with rfl | ⟨xs, x, rfl⟩
  · simp [after, initial, hs, DirectlyAbove]
  · rw [List.concat_eq_append, after_concat, h]
    constructor
    · exact fun hp => ⟨xs, x, rfl, hp⟩
    · rintro ⟨as, y, he, hp⟩
      rwa [(List.cons.inj (List.append_inj' he rfl).2).1]

theorem place_after_eq_header (xs : List α) :
    (Scope.initial.after kind kept xs).place = .header ↔
      DirectlyAbove xs (KeptHeader kind fun x => kept x = true) :=
  after_iff_directlyAbove (q := (· = .header)) nofun (fun s _ => s.place_next_eq_header _ _) xs

theorem place_after_eq_step (xs : List α) :
    (Scope.initial.after kind kept xs).place = .step ↔
      DirectlyAbove xs (KeptStep kind fun x => kept x = true) :=
  after_iff_directlyAbove (q := (· = .step)) nofun (fun s _ => s.place_next_eq_step _ _) xs

theorem place_after_eq_table (xs : List α) :
    (Scope.initial.after kind kept xs).place = .table ↔
      DirectlyAbove xs fun x => kept x = true ∧ kind x = .tableRow :=
  after_iff_directlyAbove (q := (· = .table)) nofun (fun s _ => s.place_next_eq_table _ _) xs

/-- A doc string is open below its first fence. -/
theorem isFence_after (xs : List α) :
    (Scope.initial.after kind kept xs).place.isFence = true ↔
      ∃ as x y, xs = as ++ [x, y] ∧ KeptStep kind (fun x => kept x = true) x ∧ kept y = true ∧
        ∃ f, kind y = .docString f := by
  rcases List.eq_nil_or_concat xs with rfl | ⟨xs, y, rfl⟩
  · simp [after, initial, Place.isFence]
  · rw [List.concat_eq_append, after_concat, isFence_next, place_after_eq_step]
    constructor
    · rintro ⟨⟨as, x, rfl, hx⟩, hy⟩
      exact ⟨as, x, y, by simp, hx, hy⟩
    · rintro ⟨as, x, z, he, hx, hz⟩
      have he' : xs ++ [y] = (as ++ [x]) ++ [z] := by simpa using he
      obtain ⟨rfl, hyz⟩ := List.append_inj' he' rfl
      cases hyz
      exact ⟨⟨as, x, rfl, hx⟩, hz⟩

theorem directlyAbove_or {p q : α → Prop} (xs : List α) :
    (DirectlyAbove xs fun x => p x ∨ q x) ↔ DirectlyAbove xs p ∨ DirectlyAbove xs q := by
  simp only [DirectlyAbove, and_or_left, exists_or]

/-- The scope takes a keyword if the keyword fits below the lines above. -/
theorem takes_after (xs : List α) (r : Role) :
    (Scope.initial.after kind kept xs).takes r = true ↔
      KeywordFits kind (fun x => kept x = true) xs r := by
  have hexamples := nearest_after kind kept
    (fun r b => r.isScenario || (r == .examples && b)) xs
  have hstep := nearest_after kind kept
    (fun r b => (r == .background || r.isScenario) && b) xs
  cases r with
  | feature => exact isFresh_after xs
  | background => exact room_after xs
  | examples => simpa [takes, KeywordFits] using hexamples
  | scenario => simp [takes, KeywordFits]
  | scenarioOutline => simp [takes, KeywordFits]
  | rule => simp [takes, KeywordFits]
  | _ => simpa [takes, KeywordFits, and_comm] using hstep

/-- Tags are kept exactly if the first line below that holds none is a section that is kept and may
have tags. -/
theorem Obeys.tags_iff {s : Scope} {below : List α} (h : s.Obeys kind kept below) :
    ((firstKind? kind below).bind LineKind.role?).any s.takesTags = true ↔
      ∃ as x bs r, below = as ++ x :: bs ∧ (∀ y ∈ as, kind y = .tags) ∧
        (kind x).role? = some r ∧ r.isStructural = true ∧ r ≠ .background ∧ kept x = true := by
  induction below generalizing s with
  | nil => simp [firstKind?]
  | cons x xs ih =>
    by_cases hx : kind x = .tags
    · have hfirst : firstKind? kind (x :: xs) = firstKind? kind xs := by simp [firstKind?, hx]
      have htakes : (s.next (kind x) (kept x)).takesTags = s.takesTags := by
        funext r
        rw [takesTags, takesTags, hx, takes_next_tags]
      rw [hfirst, ← htakes, ih h.2]
      constructor
      · rintro ⟨as, y, bs, r, rfl, has, hy⟩
        exact ⟨x :: as, y, bs, r, rfl, List.forall_mem_cons.2 ⟨hx, has⟩, hy⟩
      · rintro ⟨as, y, bs, r, he, has, hy⟩
        cases as with
        | nil =>
          cases he
          rw [hx] at hy
          cases hy.1
        | cons z as =>
          cases he
          exact ⟨as, y, bs, r, rfl, fun w hw => has w (List.mem_cons_of_mem _ hw), hy⟩
    · have hfirst : firstKind? kind (x :: xs) = some (kind x) := by simp [firstKind?, hx]
      have hkept := h.1
      rw [hfirst, Option.bind_some]
      constructor
      · intro ht
        obtain ⟨r, hr, ht⟩ := (Option.any_eq_true _ _).1 ht
        simp only [takesTags, Bool.and_eq_true, bne_iff_ne] at ht
        refine ⟨[], x, xs, r, rfl, List.forall_mem_nil _, hr, ht.1.1, ht.1.2, ?_⟩
        cases hk : kind x with
        | keyword m =>
          rw [hk] at hr
          cases hr
          rw [hkept, hk]
          exact ht.2
        | _ => rw [hk] at hr; cases hr
      · rintro ⟨as, y, bs, r, he, has, hy, hs, hb, hky⟩
        cases as with
        | cons z as =>
          cases he
          exact absurd (has _ List.mem_cons_self) hx
        | nil =>
          cases he
          cases hk : kind x with
          | keyword m =>
            rw [hk] at hy
            cases hy
            rw [hkept, hk] at hky
            have htakes : s.takes m.role = true := hky
            simp [LineKind.role?, takesTags, hs, hb, htakes]
          | _ => rw [hk] at hy; cases hy

/-- A line is kept exactly if it fits. -/
theorem Obeys.kept_iff_fits {above below : List α} {l : α}
    (h : Scope.initial.Obeys kind kept (above ++ l :: below)) :
    kept l = true ↔ Fits kind (fun x => kept x = true) above l below := by
  have hl := h.of_append
  rw [hl.1]
  unfold Fits
  cases hk : kind l with
  | keyword m => exact takes_after above m.role
  | tags =>
    have htakes : ((Scope.initial.after kind kept above).next .tags (kept l)).takesTags =
        (Scope.initial.after kind kept above).takesTags := by
      funext r
      rw [takesTags, takesTags, takes_next_tags]
    have hbelow := hl.2
    rw [hk] at hbelow
    rw [← hbelow.tags_iff, htakes]
    simp [keeps, firstKind?, hk]
  | text =>
    simp only [keeps, Bool.or_eq_true, beq_iff_eq, place_after_eq_start, place_after_eq_header]
  | tableRow =>
    have hnear : (Scope.initial.after kind kept above).nearest = some (.examples, true) ↔
        Nearest kind above fun x r => r = .examples ∧ kept x = true := by
      have hn := nearest_after kind kept (fun r b => r == .examples && b) above
      simp only [Bool.and_eq_true, beq_iff_eq] at hn
      rw [← hn]
      cases (Scope.initial.after kind kept above).nearest <;> simp [Prod.ext_iff]
    simp only [keeps, Bool.or_eq_true, Bool.and_eq_true, beq_iff_eq, place_after_eq_step,
      place_after_eq_table, place_after_eq_header, hnear, directlyAbove_or]
  | docString f =>
    simp only [keeps, Bool.or_eq_true, beq_iff_eq, place_after_eq_step, isFence_after]

end Scope

end Obedience

/-- The kind of the line that a fate is of. -/
def Fate.kind (d : Dialect) (x : Fate) : LineKind := d.classify x.line.content

namespace Run

variable {d : Dialect} {s s' : Scope} {c c' : Cursor} {ls : List Leaf} {fs : List Fate}

/-- Nothing becomes of lines that are not there. -/
theorem fates_eq_nil (h : Run d s c ls fs s' c') (hc : c.lines = []) : fs = [] := by
  induction h with
  | done => rfl
  | move first _ ih =>
    have hlen := first.length_le
    rw [hc] at hlen
    rw [ih (List.eq_nil_of_length_eq_zero (Nat.le_zero.1 hlen)), List.append_nil]
    cases first with
    | skip ahead => exact absurd (Dialect.length_tail_lt ahead) (by simp [hc])
    | keep ahead => exact absurd (Dialect.length_tail_lt ahead) (by simp [hc])
    | _ => rfl

theorem kindAfterTags?_cursor {a : Ahead} (ha : d.peek? c = some a) :
    d.kindAfterTags? a.cursor.lines = d.kindAfterTags? c.lines := by
  rw [(Dialect.fits_of_peek? ha).cursor, Cursor.lines_advance, Dialect.kindAfterTags?_cutTrivia]

/-- Tags hide nothing: below them the first line without tags is the same. -/
theorem kindAfterTags?_eq_firstKind? {a : Ahead} {b : Bool} (ha : d.peek? c = some a)
    (hrest : (s.next a.kind b).place.isFence = false →
      d.kindAfterTags? a.cursor.lines.tail = firstKind? (Fate.kind d) fs) :
    d.kindAfterTags? a.cursor.lines = firstKind? (Fate.kind d) (a.fate b :: fs) := by
  have hf := Dialect.fits_of_peek? ha
  have hk : (a.fate b).kind d = a.kind := hf.kind.symm
  rw [hf.lines, Dialect.kindAfterTags?_of_begins hf.begins, ← hf.kind]
  by_cases ht : a.kind = .tags
  · have hp : (s.next a.kind b).place.isFence = false := by
      rw [Bool.eq_false_iff, ne_eq, Scope.isFence_next, ht]
      simp
    rw [if_pos ht, hrest hp]
    simp [firstKind?, hk, ht]
  · rw [if_neg ht]
    simp [firstKind?, hk, ht]

/-- Outside doc strings, looking past tags shows the first line that a run finds there. -/
theorem kindAfterTags?_eq (h : Run d s c ls fs s' c') (hc : c'.lines = [])
    (hp : s.place.isFence = false) : d.kindAfterTags? c.lines = firstKind? (Fate.kind d) fs := by
  induction h with
  | done =>
    rw [hc]
    rfl
  | move first _ ih =>
    cases first with
    | advance =>
      rw [← Dialect.kindAfterTags?_cutTrivia]
      exact ih hc hp
    | skip ahead =>
      rw [← kindAfterTags?_cursor ahead]
      exact kindAfterTags?_eq_firstKind? ahead (ih hc)
    | keep ahead =>
      rw [← kindAfterTags?_cursor ahead]
      exact kindAfterTags?_eq_firstKind? ahead (ih hc)
    | imply => exact ih hc hp
    | content place =>
      rw [place] at hp
      cases hp
    | unclosed place =>
      rw [place] at hp
      cases hp

/-- Every line of a run is kept exactly if the scope keeps it. -/
theorem obeys (h : Run d s c ls fs s' c') (hc : c'.lines = []) :
    s.Obeys (Fate.kind d) Fate.kept fs := by
  induction h with
  | done => trivial
  | move first rest ih =>
    cases first with
    | advance => exact ih hc
    | skip ahead unfit =>
      have hk := (Dialect.fits_of_peek? ahead).kind
      rw [kindAfterTags?_eq_firstKind? ahead (rest.kindAfterTags?_eq hc), hk] at unfit
      rw [hk] at ih
      exact ⟨unfit.symm, ih hc⟩
    | keep ahead fit =>
      have hk := (Dialect.fits_of_peek? ahead).kind
      rw [kindAfterTags?_eq_firstKind? ahead (rest.kindAfterTags?_eq hc), hk] at fit
      rw [hk] at ih
      exact ⟨fit.symm, ih hc⟩
    | imply => exact ih hc
    | content => exact ih hc
    | unclosed _ _ lines =>
      rw [rest.fates_eq_nil lines]
      trivial

end Run

end GherkinTree
