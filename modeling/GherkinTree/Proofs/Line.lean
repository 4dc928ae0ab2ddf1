import GherkinTree.Line

/-!
The shape of the lines that a text is cut into. A line break is a line feed with the carriage return
in front of it, if there is one, and only the last line can lack it. So every line begins the text
or stands behind a line feed.
-/

namespace GherkinTree

namespace Line

/-- A line as it is cut from a text: its content holds no line feed, and a carriage return in front
of a line feed belongs to the line break. -/
structure IsCut (l : Line) : Prop where
  content : '\n' ∉ l.content
  ending : l.ending = [] ∨ l.ending = ['\n'] ∨ l.ending = ['\r', '\n']
  bare : l.ending = ['\n'] → l.content.getLast? ≠ some '\r'

theorem isCut_of_mem_split (t : Text) : ∀ l ∈ split t, l.IsCut := by
  fun_induction split t with
  | case1 => exact List.forall_mem_nil _
  | case2 t ih => exact List.forall_mem_cons.2 ⟨⟨List.not_mem_nil, by simp, by simp⟩, ih⟩
  | case3 t ih => exact List.forall_mem_cons.2 ⟨⟨List.not_mem_nil, by simp, by simp⟩, ih⟩
  | case4 c t hn hr hs ih =>
    refine List.forall_mem_singleton.2 ⟨?_, .inl rfl, by simp⟩
    simpa using Ne.symm hn
  | case5 c t hn hr l ls hs ih =>
    rw [hs, List.forall_mem_cons] at ih
    refine List.forall_mem_cons.2 ⟨⟨?_, ih.1.ending, fun he => ?_⟩, ih.2⟩
    · simpa using ⟨Ne.symm hn, ih.1.content⟩
    · cases hc : l.content with
      | cons d u =>
        have hlast := ih.1.bare he
        rw [hc] at hlast
        rwa [List.getLast?_cons_cons]
      | nil =>
        -- the character stands directly in front of the line feed
        have htext := join_split t
        rw [hs, join_cons, full, hc, he] at htext
        rw [List.getLast?_singleton]
        intro hcr
        exact hr _ (Option.some.inj hcr) htext.symm

/-- Only the last line can lack a line break. -/
theorem ending_ne_nil_of_mem_dropLast (t : Text) : ∀ l ∈ (split t).dropLast, l.ending ≠ [] := by
  have hcons (l : Line) (ls : List Line) (h : ∀ m ∈ ls.dropLast, m.ending ≠ [])
      (hl : ls ≠ [] → l.ending ≠ []) : ∀ m ∈ (l :: ls).dropLast, m.ending ≠ [] := by
    cases ls with
    | nil => exact List.forall_mem_nil _
    | cons m ls => exact List.forall_mem_cons.2 ⟨hl (List.cons_ne_nil _ _), h⟩
  fun_induction split t with
  | case1 => exact List.forall_mem_nil _
  | case2 t ih => exact hcons _ _ ih fun _ => List.cons_ne_nil _ _
  | case3 t ih => exact hcons _ _ ih fun _ => List.cons_ne_nil _ _
  | case4 => exact List.forall_mem_nil _
  | case5 c t hn hr l ls hs ih =>
    rw [hs] at ih
    cases ls with
    | nil => exact List.forall_mem_nil _
    | cons m ls => exact List.forall_mem_cons.2 (List.forall_mem_cons.1 ih)

/-- What stands above a line is nothing or ends with a line feed. -/
theorem ends_above {t : Text} {above below : List Line} {l : Line}
    (h : split t = above ++ l :: below) : above = [] ∨ (join above).getLast? = some '\n' := by
  rcases List.eq_nil_or_concat above with rfl | ⟨ls, m, rfl⟩
  · exact .inl rfl
  · right
    rw [List.concat_eq_append] at h ⊢
    have hmem : m ∈ (split t).dropLast := by
      rw [h, List.dropLast_append_of_ne_nil (List.cons_ne_nil _ _)]
      simp
    have hend := ending_ne_nil_of_mem_dropLast t m hmem
    have hlast : m.full.getLast? = some '\n' := by
      rcases (isCut_of_mem_split t m ((List.dropLast_sublist _).mem hmem)).ending with he | he | he
      · exact absurd he hend
      · simp [full, he]
      · simp [full, he]
    simp [join, hlast]

end Line

end GherkinTree
