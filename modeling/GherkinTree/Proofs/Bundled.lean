import GherkinTree.Dialect.Vocabulary
import GherkinTree.Proofs.Text

/-!
The languages that the library knows. Their tables are checked spelling by spelling: the last
character that is no space is no blank either. Main statement: every dialect that the library knows
is proper.
-/

namespace GherkinTree

/-- A dialect without empty keywords and without keywords that end with a blank. -/
structure Dialect.Proper (d : Dialect) : Prop where
  nonempty : ∀ s ∈ d.entries, s.text ≠ []
  solid : ∀ s ∈ d.entries, Text.trimEnd s.text = s.text

namespace Vocabulary

/-- Whether the last character of a listed spelling that is no space is no blank. -/
def endsSolid (t : Text) : Bool := (t.reverse.dropWhile (· == ' ')).head?.all (!Text.isBlank ·)

/-- Strings and the texts they are made of. -/
inductive Letters : List String → List Text → Prop where
  | nil : Letters [] []
  | cons {t : Text} {ss : List String} {ts : List Text} (rest : Letters ss ts) :
      Letters (String.ofList t :: ss) (t :: ts)

theorem Letters.endsSolid {ss : List String} {ts : List Text} (h : Letters ss ts)
    (ht : ts.all endsSolid = true) : ∀ s ∈ ss, endsSolid s.toList = true := by
  induction h with
  | nil => simp
  | cons _ ih => simp_all

-- the strings are opened one by one, so that only their letters are left to compute with
theorem exists_letters : ∀ v ∈ all,
    ∃ ts, Letters (v.listed.flatMap Prod.snd) ts ∧ ts.all endsSolid = true := by
  simp only [all, List.forall_mem_cons, List.not_mem_nil, false_implies, implies_true, and_true]
  repeat' apply And.intro
  all_goals
    exact ⟨_, by repeat (first | exact Letters.nil | apply Letters.cons), by decide +kernel⟩

end Vocabulary

namespace Spelling

/-- A spelling that may stand in the table of a proper dialect. -/
def Proper (s : Spelling) : Prop := s.text ≠ [] ∧ Text.trimEnd s.text = s.text

theorem proper_of_ofListed? {role : Role} {t : Text} {s : Spelling}
    (ht : Vocabulary.endsSolid t = true) (h : ofListed? role t = some s) : s.Proper := by
  have hs : s.text = (t.reverse.dropWhile (· == ' ')).reverse ∧ s.text ≠ [] := by
    unfold ofListed? at h
    dsimp only at h
    split at h
    · cases h
    · rename_i he
      simp only [List.isEmpty_iff] at he
      split at h
      · cases h
        exact ⟨rfl, he⟩
      · split at h <;> cases h <;> exact ⟨rfl, he⟩
  obtain ⟨hs, hn⟩ := hs
  refine ⟨hn, ?_⟩
  cases hd : t.reverse.dropWhile (· == ' ') with
  | nil => simp [hd] at hs; contradiction
  | cons c u =>
    have hc : Text.isBlank c = false := by simpa [Vocabulary.endsSolid, hd] using ht
    rw [hs, hd, List.reverse_cons]
    exact Text.trimEnd_concat hc u.reverse

end Spelling

namespace Dialect

theorem mem_of_mem_foldl_addEntry {added table : List Spelling} {s : Spelling}
    (h : s ∈ added.foldl addEntry table) : s ∈ table ∨ s ∈ added := by
  induction added generalizing table with
  | nil => exact .inl h
  | cons x xs ih =>
    rcases ih h with h | h
    · unfold addEntry at h
      split at h
      · exact .inl h
      · rcases List.mem_append.1 h with h | h
        · exact .inl h
        · exact .inr (by rw [List.mem_singleton.1 h]; exact List.mem_cons_self)
    · exact .inr (List.mem_cons_of_mem x h)

theorem proper_withSpellings {d : Dialect} {role : Role} {listed : List Text}
    (hd : ∀ s ∈ d.entries, s.Proper) (hl : ∀ t ∈ listed, Vocabulary.endsSolid t = true) :
    ∀ s ∈ (d.withSpellings role listed).entries, s.Proper := by
  intro s hs
  have hs : s ∈ (listed.filterMap (Spelling.ofListed? role)).foldl addEntry d.entries := by
    simpa [withSpellings] using hs
  rcases mem_of_mem_foldl_addEntry hs with hs | hs
  · exact hd s hs
  · obtain ⟨t, ht, he⟩ := List.mem_filterMap.1 hs
    exact Spelling.proper_of_ofListed? (hl t ht) he

theorem proper_foldl_withSpellings {listed : List (Role × List String)} {d : Dialect}
    (hd : ∀ s ∈ d.entries, s.Proper)
    (hl : ∀ s ∈ listed.flatMap Prod.snd, Vocabulary.endsSolid s.toList = true) :
    ∀ s ∈ (listed.foldl (fun d p => d.withSpellings p.1 (p.2.map String.toList)) d).entries,
      s.Proper := by
  induction listed generalizing d with
  | nil => exact hd
  | cons p listed ih =>
    rw [List.flatMap_cons, List.forall_mem_append] at hl
    refine ih (proper_withSpellings hd fun t ht => ?_) hl.2
    obtain ⟨s, hs, rfl⟩ := List.mem_map.1 ht
    exact hl.1 s hs

/-- Every dialect that the library knows is proper. -/
theorem proper_of_mem_bundled {d : Dialect} (h : d ∈ bundled) : d.Proper := by
  obtain ⟨v, hv, rfl⟩ := List.mem_map.1 h
  obtain ⟨ts, hts, hsolid⟩ := Vocabulary.exists_letters v hv
  have hp : ∀ s ∈ v.dialect.entries, s.Proper :=
    proper_foldl_withSpellings nofun (hts.endsSolid hsolid)
  exact ⟨fun s hs => (hp s hs).1, fun s hs => (hp s hs).2⟩

theorem english_mem_bundled : english ∈ bundled :=
  List.mem_map.2 ⟨.english, by simp [Vocabulary.all], rfl⟩

theorem toOption_find (code : String) :
    (find code).toOption = bundled.find? (·.code == code) := by
  unfold find
  cases bundled.find? (·.code == code) <;> rfl

theorem mem_bundled_of_find {code : String} {d : Dialect} (h : find code = .ok d) :
    d ∈ bundled := by
  have hd := toOption_find code
  rw [h] at hd
  exact List.mem_of_find?_eq_some hd.symm

theorem find_eq_ok_iff_any (code : String) :
    (∃ d, find code = .ok d) ↔ bundled.any (·.code == code) = true := by
  unfold find
  cases h : bundled.find? (·.code == code) with
  | some d =>
    have hd := List.find?_some h
    simp only [Except.ok.injEq, exists_eq', true_iff, List.any_eq_true]
    exact ⟨d, List.mem_of_find?_eq_some h, hd⟩
  | none =>
    have hn := List.find?_eq_none.1 h
    simp only [reduceCtorEq, exists_false, false_iff, List.any_eq_true, not_exists, not_and]
    exact hn

end Dialect

end GherkinTree
