import GherkinTree.Proofs.Run

/-!
Keywords at the start of a line. What the kind of a line says about its first characters, and what
holds of the keywords of every language that the library knows: none is empty and none ends with a
blank. Main statement: blanks at the end of a line do not change what the line is called.
-/

namespace GherkinTree

namespace Spelling

theorem accepts_trimEnd (s : Spelling) (t : Text) : s.accepts (Text.trimEnd t) = s.accepts t := by
  cases t with
  | nil => rfl
  | cons c t =>
    unfold accepts
    cases hb : Text.isBlank c with
    | false => rw [Text.head?_trimEnd_of_not_blank hb, List.head?_cons]
    | true =>
      have hc : c ≠ ':' := by
        rintro rfl
        revert hb
        decide
      have hh : (Text.trimEnd (c :: t)).head? = none ∨
          (Text.trimEnd (c :: t)).head? = some c := by
        rw [Text.trimEnd_cons]
        by_cases ht : Text.trimEnd t = [] <;> simp [ht, hb]
      rcases hh with hh | hh <;> rw [hh] <;> simp [hb, hc]

theorem rest?_trimEnd {s : Spelling} (h : Text.trimEnd s.text = s.text) (t : Text) :
    s.rest? (Text.trimEnd t) = (s.rest? t).map Text.trimEnd := by
  rw [rest?, Text.after?_trimEnd h, rest?]
  cases Text.after? s.text t with
  | none => rfl
  | some r => by_cases hr : s.accepts r = true <;> simp [accepts_trimEnd, hr, Option.filter]

end Spelling

namespace Dialect

variable {d : Dialect} {t : Text} {m : KeywordMatch}

theorem exists_entry {roles : List Role} (h : d.matchKeyword t roles = some m) :
    ∃ s ∈ d.entries, s.role = m.role ∧ s.text = m.text ∧ s.accepts m.rest = true := by
  obtain ⟨s, hs, he⟩ := List.exists_of_findSome?_eq_some h
  split at he
  · obtain ⟨rest, hr, rfl⟩ := Option.map_eq_some_iff.1 he
    exact ⟨s, hs, rfl, rfl, (Option.filter_eq_some_iff.1 hr).2⟩
  · cases he

@[simp] theorem classify_at (d : Dialect) (t : Text) : d.classify ('@' :: t) = .tags := rfl
@[simp] theorem classify_bar (d : Dialect) (t : Text) : d.classify ('|' :: t) = .tableRow := rfl

theorem classify_eq_tags (h : d.classify t = .tags) : ∃ u, t = '@' :: u := by
  unfold classify at h
  split at h
  · exact ⟨_, rfl⟩
  · cases h
  · split at h
    · cases h
    · split at h <;> cases h

theorem classify_eq_tableRow (h : d.classify t = .tableRow) : ∃ u, t = '|' :: u := by
  unfold classify at h
  split at h
  · cases h
  · exact ⟨_, rfl⟩
  · split at h
    · cases h
    · split at h <;> cases h

theorem classify_eq_docString {f : Fence} (h : d.classify t = .docString f) :
    ∃ u, t = f.text ++ u := by
  unfold classify at h
  split at h
  · cases h
  · cases h
  · split at h
    · rename_i g hg
      cases h
      have hs := List.find?_some hg
      obtain ⟨u, hu⟩ := Option.isSome_iff_exists.1 hs
      exact ⟨u, Text.after?_eq_some_iff.1 hu⟩
    · split at h <;> cases h

theorem classify_eq_keyword (h : d.classify t = .keyword m) : d.matchAny t = some m := by
  unfold classify at h
  split at h
  · cases h
  · cases h
  · split at h
    · cases h
    · split at h
      · cases h
        assumption
      · cases h

theorem append_of_classify (h : d.classify t = .keyword m) : t = m.text ++ m.rest :=
  append_of_matchKeyword (classify_eq_keyword h)

/-- A structural keyword stands in front of a colon. -/
theorem colon_of_classify (h : d.classify t = .keyword m) (hm : m.role.isStructural = true) :
    ∃ u, m.rest = ':' :: u := by
  obtain ⟨s, -, hr, -, ha⟩ := exists_entry (classify_eq_keyword h)
  simp only [Spelling.accepts, hr, hm, if_true, beq_iff_eq] at ha
  exact List.head?_eq_some_iff.1 ha

theorem Proper.keyword_ne_nil (hd : d.Proper) (h : d.classify t = .keyword m) : m.text ≠ [] := by
  obtain ⟨s, hs, -, ht, -⟩ := exists_entry (classify_eq_keyword h)
  exact ht ▸ hd.nonempty s hs

theorem Proper.matchAny_trimEnd (hd : d.Proper) (t : Text) :
    d.matchAny (Text.trimEnd t) =
      (d.matchAny t).map fun m => { m with rest := Text.trimEnd m.rest } := by
  unfold matchAny matchKeyword
  have hs := hd.solid
  revert hs
  induction d.entries with
  | nil => exact fun _ => rfl
  | cons s ss ih =>
    intro hs
    have ih := ih fun s' h' => hs s' (List.mem_cons_of_mem s h')
    rw [List.findSome?_cons, List.findSome?_cons, ih,
      Spelling.rest?_trimEnd (hs s List.mem_cons_self)]
    by_cases hr : Role.all.contains s.role = true
    · cases s.rest? t <;> simp [Role.mem_all]
    · simp [Role.mem_all] at hr

theorem atStart?_trimEnd (t : Text) : Fence.atStart? (Text.trimEnd t) = Fence.atStart? t := by
  have h (f : Fence) : Text.startsWith f.text (Text.trimEnd t) = Text.startsWith f.text t := by
    have hf : Text.trimEnd f.text = f.text := by cases f <;> decide
    rw [Text.startsWith, Text.after?_trimEnd hf, Option.isSome_map, Text.startsWith]
  simp only [Fence.atStart?, h]

theorem classify_of_head? {c : Char} (hc : t.head? = some c) (ha : c ≠ '@') (hb : c ≠ '|') :
    d.classify t =
      match Fence.atStart? t with
      | some f => .docString f
      | none =>
        match d.matchAny t with
        | some m => .keyword m
        | none => .text := by
  unfold classify
  split
  · exact absurd (Option.some.inj hc).symm ha
  · exact absurd (Option.some.inj hc).symm hb
  · rfl

end Dialect

/-- A kind with the blanks at the end of its line dropped. -/
def LineKind.trimEnd : LineKind → LineKind
  | .keyword m => .keyword { m with rest := Text.trimEnd m.rest }
  | k => k

namespace Dialect

variable {d : Dialect} {l : Line}

/-- Blanks at the end of a line do not change its kind. -/
theorem Proper.classify_trimEnd (hd : d.Proper) (hl : l.Begins) :
    d.classify (Text.trimEnd l.content) = (d.classify l.content).trimEnd := by
  obtain ⟨c, t, ht, hb, -⟩ := hl
  have hh := Text.head?_trimEnd_of_not_blank hb t
  rw [← ht] at hh
  by_cases ha : c = '@'
  · obtain ⟨u, hu⟩ := List.head?_eq_some_iff.1 hh
    rw [hu, ht, ha, classify_at, classify_at]
    rfl
  by_cases hv : c = '|'
  · obtain ⟨u, hu⟩ := List.head?_eq_some_iff.1 hh
    rw [hu, ht, hv, classify_bar, classify_bar]
    rfl
  rw [classify_of_head? hh ha hv, classify_of_head? (t := l.content) (by simp [ht]) ha hv,
    atStart?_trimEnd, hd.matchAny_trimEnd]
  cases Fence.atStart? l.content with
  | some f => rfl
  | none => cases d.matchAny l.content <;> rfl

/-- Nor what the line is called. -/
theorem Proper.describe_trimEnd (hd : d.Proper) (hl : l.Begins) :
    (d.classify (Text.trimEnd l.content)).describe = (d.classify l.content).describe := by
  rw [hd.classify_trimEnd hl]
  cases d.classify l.content <;> rfl

end Dialect

end GherkinTree
