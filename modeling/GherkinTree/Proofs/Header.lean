import GherkinTree.Proofs.Argument

/-!
Headers, steps and tables as runs. A header takes the tags ahead, the line of its keyword and the
text below it; a step takes the table or the doc string below it. Main statements: where the scope
takes the keyword ahead, the header or the step is a run, and what follows it is no line that the
place behind it would keep.
-/

namespace GherkinTree

/-- Whatever is ahead, the next keyword has the property. -/
def Dialect.Heads (d : Dialect) (c : Cursor) (p : Role → Prop) : Prop :=
  ∀ a, d.peek? c = some a → ∃ r, d.nextRole? c = some r ∧ p r

/-- The line ahead is kept only for its keyword: neither text nor a row nor a fence fits, and a
feature does not either. -/
structure Scope.Settled (s : Scope) (d : Dialect) (c : Cursor) : Prop where
  plain : ∀ a, d.peek? c = some a → a.kind.role? = none → a.kind ≠ .tags →
    ∀ below, s.keeps below a.kind = false
  feature : s.place.isFresh = true → d.nextRole? c ≠ some .feature

namespace Scope

variable {s : Scope} {d : Dialect} {c : Cursor} {a : Ahead}

/-- Tags are kept for the keyword below them. -/
theorem keeps_tags (h : d.peek? c = some a) (hk : a.kind = .tags) :
    s.keeps (d.kindAfterTags? a.cursor.lines) a.kind = (d.nextRole? c).any s.takesTags := by
  rw [← Dialect.nextRole?_advance d c, ← (Dialect.fits_of_peek? h).cursor, hk]
  rfl

/-- Below a skipped line only keywords may follow. -/
theorem settled_of_place (hp : s.place = .tagged ∨ s.place = .elsewhere)
    (hf : s.place.isFresh = true → d.nextRole? c ≠ some .feature) : s.Settled d c where
  plain _ _ hr hk below := keeps_eq_false hp hr hk below
  feature := hf

theorem not_isFresh_next (s : Scope) {k : LineKind} (hk : k ≠ .tags) (b : Bool) :
    (s.next k b).place.isFresh = false := by
  cases k with
  | tags => exact absurd rfl hk
  | keyword m => cases b <;> by_cases hm : m.role.isStep = true <;> simp [next, hm, Place.isFresh]
  | docString f =>
    by_cases h : (b && s.place == .step) = true <;> simp [next, h, Place.isFresh]
  | _ => cases b <;> simp [next, Place.isFresh]

theorem Settled.next_false (h : s.Settled d c) (ha : d.peek? c = some a) :
    (s.next a.kind false).Settled d a.skip := by
  refine settled_of_place (s.place_next_false a.kind) fun hf => ?_
  by_cases hk : a.kind = .tags
  · rw [Dialect.nextRole?_of_tags ha hk rfl]
    refine h.feature ?_
    rw [hk] at hf
    cases hp : s.place <;> simp_all [next, Place.isFresh]
  · rw [s.not_isFresh_next hk false] at hf
    cases hf

/-- The line ahead is skipped if the scope does not take the next keyword, or does not take tags
for it. -/
theorem Settled.skip (h : s.Settled d c) (ha : d.peek? c = some a)
    (hn : ∀ r, d.nextRole? c = some r →
      s.takes r = false ∨ (a.kind = .tags ∧ (r = .background ∨ r.isStep = true))) :
    a.skip.lines.length < c.lines.length ∧
      Reads d s c [] a.skip fun s' => s' = s.next a.kind false ∧ s'.Settled d a.skip := by
  refine ⟨Dialect.length_tail_lt ha, .skip ha ?_ ⟨rfl, h.next_false ha⟩⟩
  by_cases hk : a.kind = .tags
  · rw [keeps_tags ha hk]
    cases hr : d.nextRole? c with
    | none => rfl
    | some r =>
      rcases hn r hr with ht | ⟨-, rfl | hs⟩
      · simp [takesTags, ht]
      · simp [takesTags]
      · simp [takesTags, Role.isStructural, hs]
  · cases hr : a.kind.role? with
    | none => exact h.plain a ha hr hk _
    | some r =>
      have ht := hn r (by rw [Dialect.nextRole?_of_not_tags ha hk, hr])
      cases hm : a.kind with
      | keyword m =>
        have hmr : m.role = r := by simpa [hm, LineKind.role?] using hr
        rw [hmr.symm] at ht
        simpa [keeps, hk] using ht
      | _ => rw [hm] at hr; cases hr

/-- The scope below the title of a section. -/
def opened (s : Scope) (r : Role) : Scope where
  nearest := some (r, true)
  room := r == .rule || (s.room && !r.isScenario && r != .background)
  place := .header

theorem next_keyword (s : Scope) {m : KeywordMatch} (hm : m.role.isStructural = true) :
    s.next (.keyword m) true = s.opened m.role := by
  have hs : m.role.isStep = false := by simpa [Role.isStructural] using hm
  simp [next, opened, hs, bne]

/-- A feature line below the start is skipped. -/
theorem Settled.not_takes_feature (h : s.Settled d c) (hr : d.nextRole? c = some .feature) :
    s.takes .feature = false := by
  cases hf : s.place.isFresh with
  | false => exact hf
  | true => exact absurd hr (h.feature hf)

end Scope

namespace Grammar

variable {s : Scope} {d : Dialect} {c : Cursor} {a : Ahead} {r : Role}

/-- Tags in front of a section are kept if the section is. -/
theorem reads_tags (hr : d.nextRole? c = some r) (ht : s.takesTags r = true) :
    (d.nextRole? (tags d c).2 = some r ∧ tagLine? d (tags d c).2 = none) ∧
      Reads d s c (Node.optionalLeaves (tags d c).1) (tags d c).2
        fun s' => s'.takes r = true ∧ s'.room = s.room := by
  have hloop := Reads.collect (d := d) (tagLine? d) (fun t => [.token t])
    (fun s' c' => d.nextRole? c' = some r ∧ s'.takesTags r = true ∧ s'.room = s.room) ?_
    c s ⟨hr, ht, rfl⟩
  · obtain ⟨hnone, hread⟩ := hloop
    obtain ⟨-, -, -, hrole, -, -⟩ := id hread
    refine ⟨⟨hrole, hnone⟩, ?_⟩
    have hleaves : Node.optionalLeaves (tags d c).1 =
        (c.collect (tagLine? d)).1.flatMap fun t => [.token t] := by
      rw [← List.map_eq_flatMap]
      exact Node.optionalLeaves_tokens (by decide) _
    rw [hleaves]
    refine hread.mono fun s' ⟨_, hs', hroom⟩ => ⟨?_, hroom⟩
    simp only [Scope.takesTags, Bool.and_eq_true] at hs'
    exact hs'.2
  · intro s' c' xs c'' ⟨hr', ht', hroom⟩ hstep
    by_cases hk : ∃ a, d.peek? c' = some a ∧ a.kind = .tags
    · obtain ⟨a, ha, hk⟩ := hk
      obtain ⟨ts, es, hkept, heq⟩ := tagLine?_eq ha hk
      rw [heq] at hstep
      cases hstep
      refine ⟨Dialect.length_tail_lt ha, ?_⟩
      rw [← List.map_eq_flatMap]
      refine .keep ha ?_ hkept ⟨?_, ?_, ?_⟩
      · rw [Scope.keeps_tags ha hk, hr']
        exact ht'
      · rw [Dialect.nextRole?_of_tags ha hk rfl, hr']
      · rw [hk, Scope.takesTags, Scope.takes_next_tags]
        exact ht'
      · rw [hk]
        exact hroom
    · rw [tagLine?_eq_none fun a ha hk' => hk ⟨a, ha, hk'⟩] at hstep
      cases hstep

theorem not_tags_of_tagLine? (h : tagLine? d c = none) (ha : d.peek? c = some a) :
    a.kind ≠ .tags := by
  intro hk
  obtain ⟨ts, es, -, heq⟩ := tagLine?_eq ha hk
  rw [heq] at h
  cases h

theorem not_text_of_textLine? (h : textLine? d c = none) (ha : d.peek? c = some a) :
    a.kind ≠ .text := by
  intro hk
  obtain ⟨ts, -, heq⟩ := textLine?_eq ha hk
  rw [heq] at h
  cases h

/-- Text below a title is kept as a description. -/
theorem reads_description (hs : s.place = .header) :
    textLine? d (description d c).2 = none ∧
      Reads d s c (Node.optionalLeaves (description d c).1) (description d c).2
        fun s' => s' = s := by
  have hloop := Reads.collect (d := d) (textLine? d) (fun t => [.token t]) (fun s' _ => s' = s) ?_
    c s rfl
  · refine ⟨hloop.1, ?_⟩
    have hleaves : Node.optionalLeaves (description d c).1 =
        (c.collect (textLine? d)).1.flatMap fun t => [.token t] := by
      rw [← List.map_eq_flatMap]
      exact Node.optionalLeaves_tokens (by decide) _
    rw [hleaves]
    exact hloop.2
  · rintro s' c' xs c'' rfl hstep
    by_cases hk : ∃ a, d.peek? c' = some a ∧ a.kind = .text
    · obtain ⟨a, ha, hk⟩ := hk
      obtain ⟨ts, hkept, heq⟩ := textLine?_eq ha hk
      rw [heq] at hstep
      cases hstep
      refine ⟨Dialect.length_tail_lt ha, ?_⟩
      rw [← List.map_eq_flatMap]
      refine .keep ha ?_ hkept ?_
      · simp [hk, Scope.keeps, hs]
      · rw [hk]
        simp [Scope.next, ← hs]
    · rw [textLine?_eq_none fun a ha hk' => hk ⟨a, ha, hk'⟩] at hstep
      cases hstep

theorem title_eq {role : Role} {m : KeywordMatch} (ha : d.peek? c = some a)
    (hk : a.kind = .keyword m) (ho : opens role m.role = true) :
    title d role c = titleLine m a := by
  obtain ⟨cur, l, k⟩ := a
  cases hk
  simp only [title, ha, if_pos ho]

theorem reads_title (role : Role) (hr : d.nextRole? c = some r) (ho : opens role r = true)
    (hs : r.isStructural = true) (ht : s.takes r = true) (hn : tagLine? d c = none) :
    (title d role c).2.lines.length < c.lines.length ∧
      Reads d s c (title d role c).1.leaves (title d role c).2 fun s' => s' = s.opened r := by
  obtain ⟨a, ha⟩ := Dialect.exists_peek? hr
  have hrole := Dialect.nextRole?_of_not_tags ha (not_tags_of_tagLine? hn ha)
  cases hk : a.kind with
  | keyword m =>
    have hm : m.role = r := by
      rw [hr, hk] at hrole
      exact (Option.some.inj hrole).symm
    subst hm
    obtain ⟨ts, hkept, hl, hc⟩ := titleLine_eq ha hk hs
    rw [title_eq ha hk ho, hl, hc]
    refine ⟨Dialect.length_tail_lt ha, .keep ha ?_ hkept ?_⟩
    · rw [hk]
      exact ht
    · rw [hk, s.next_keyword hs]
  | _ =>
    rw [hr, hk] at hrole
    cases hrole

/-- The leaves of a header. -/
def headerLeaves (h : Header) : List Leaf := Element.leavesAll false h.elements

theorem headerLeaves_eq (tags : Option Node) (t : Title) (description : Option Node) :
    headerLeaves ⟨tags, t.keyword, t.colon, t.name, description⟩ =
      Node.optionalLeaves tags ++ t.leaves ++ Node.optionalLeaves description := by
  simp [headerLeaves, Header.elements, Node.leavesAll_optional, Title.leaves]

/-- A section whose keyword the scope takes opens with its header, which leaves no text behind. -/
theorem reads_header (role : Role) (hr : d.nextRole? c = some r) (ho : opens role r = true)
    (hs : r.isStructural = true) (ht : s.takes r = true)
    (hb : s.takesTags r = true ∨ tagLine? d c = none) :
    (header d role c).2.lines.length < c.lines.length ∧ textLine? d (header d role c).2 = none ∧
      Reads d s c (headerLeaves (header d role c).1) (header d role c).2
        fun s' => s' = s.opened r := by
  have htags : (d.nextRole? (tags d c).2 = some r ∧ tagLine? d (tags d c).2 = none) ∧
      Reads d s c (Node.optionalLeaves (tags d c).1) (tags d c).2
        fun s' => s'.takes r = true ∧ s'.room = s.room := by
    rcases hb with hb | hb
    · exact reads_tags hr hb
    · have he : tags d c = (none, c) := by simp [tags, Cursor.collect_of_none hb]
      rw [he]
      exact ⟨⟨hr, hb⟩, .done ⟨ht, rfl⟩⟩
  obtain ⟨⟨hr₁, hn₁⟩, hread₁⟩ := htags
  have htitle (s' : Scope) (hs' : s'.takes r = true) := reads_title role hr₁ ho hs hs' hn₁
  simp only [header]
  generalize tags d c = p₁ at *
  obtain ⟨ts, c₁⟩ := p₁
  dsimp only at *
  have hlt : (title d role c₁).2.lines.length < c.lines.length := by
    obtain ⟨-, s₁, -, hs₁, -⟩ := id hread₁
    exact Nat.lt_of_lt_of_le (htitle s₁ hs₁).1 hread₁.length_le
  generalize title d role c₁ = p₂ at *
  obtain ⟨t, c₂⟩ := p₂
  dsimp only at *
  have hdesc := reads_description (d := d) (c := c₂) (s := s.opened r) rfl
  generalize description d c₂ = p₃ at *
  obtain ⟨n, c₃⟩ := p₃
  dsimp only at *
  refine ⟨Nat.lt_of_le_of_lt hdesc.2.length_le hlt, hdesc.1, ?_⟩
  have hopen : Reads d s c (Node.optionalLeaves ts ++ t.leaves) c₂ fun s' => s' = s.opened r := by
    refine hread₁.append fun s₁ hs₁ => ?_
    have : s₁.opened r = s.opened r := by simp [Scope.opened, hs₁.2]
    rw [← this]
    exact (htitle s₁ hs₁.1).2
  rw [headerLeaves_eq]
  refine hopen.append fun s₂ hs₂ => ?_
  rw [hs₂]
  exact hdesc.2

end Grammar

end GherkinTree
