import GherkinTree.Proofs.Argument
import GherkinTree.Tree.Build
import Mathlib.Data.List.Infix

/-!
Fences inside the content of a doc string. A fence is escaped, but a backslash is not, so there are
values that no text between the fences stands for: an escaped fence stands for a fence. Main
statement: escaping is undone exactly for the values that some text stands for, which are those in
which two more marks follow each escaped fence.
-/

namespace GherkinTree

namespace Text

theorem after?_eq_none_iff {p t : Text} : after? p t = none ↔ ¬ p <+: t := by
  rw [← not_iff_not, not_not, ← ne_eq, Option.ne_none_iff_exists']
  simp only [after?_eq_some_iff]
  exact ⟨fun ⟨r, h⟩ => ⟨r, h.symm⟩, fun ⟨r, h⟩ => ⟨r, h.symm⟩⟩

section Replace

variable {old new t : Text} {c : Char}

theorem replace_nil : replace old new [] = [] := by rw [replace]

theorem replace_append (h : old ≠ []) (t : Text) :
    replace old new (old ++ t) = new ++ replace old new t := by
  obtain ⟨c, o, rfl⟩ := List.exists_cons_of_ne_nil h
  have hafter : after? (c :: o) (c :: (o ++ t)) = some t := after?_eq_some_iff.2 rfl
  rw [List.cons_append, replace, hafter]
  simp only [List.length_append, Nat.le_add_left, if_true]

theorem replace_cons (h : ¬ old <+: c :: t) :
    replace old new (c :: t) = c :: replace old new t := by
  rw [replace, after?_eq_none_iff.2 h]

/-- A text is an occurrence of `old` with a text behind it, or a character at which none begins. -/
@[elab_as_elim]
theorem replace_induction (hne : old ≠ []) {motive : Text → Prop} (nil : motive [])
    (found : ∀ t, motive t → motive (old ++ t))
    (char : ∀ c t, ¬ old <+: c :: t → motive t → motive (c :: t)) (t : Text) : motive t := by
  induction hn : t.length using Nat.strong_induction_on generalizing t with
  | _ n ih =>
    subst hn
    cases t with
    | nil => exact nil
    | cons c t =>
      by_cases h : old <+: c :: t
      · obtain ⟨r, hr⟩ := h
        have hlen := congrArg List.length hr
        have hpos := List.length_pos_of_ne_nil hne
        rw [List.length_append] at hlen
        rw [← hr]
        exact found r (ih _ (by omega) r rfl)
      · exact char c t h (ih _ (Nat.lt_succ_self _) t rfl)

/-- The first character of what a text becomes is that of the text, or `old` has been replaced. -/
theorem cases_of_replace (hne : old ≠ []) {u : Text} (h : replace old new t = c :: u) :
    (∃ r, t = old ++ r ∧ new ++ replace old new r = c :: u) ∨
      ∃ r, t = c :: r ∧ replace old new r = u ∧ ¬ old <+: c :: r := by
  induction t using replace_induction hne with
  | nil =>
    rw [replace_nil] at h
    cases h
  | found r =>
    rw [replace_append hne] at h
    exact .inl ⟨r, rfl, h⟩
  | char d r hd =>
    rw [replace_cons hd] at h
    obtain ⟨rfl, hu⟩ := List.cons.inj h
    exact .inr ⟨r, rfl, hu, hd⟩

end Replace

end Text

namespace Fence

variable (f : Fence) {t u v : Text}

theorem escaped_ne_nil : f.escaped ≠ [] := List.cons_ne_nil _ _

theorem mark_ne_backslash : f.mark ≠ '\\' := by cases f <;> decide

theorem mark_not_blank : Text.isBlank f.mark = false := by cases f <;> decide

theorem escape_text_append (t : Text) : f.escape (f.text ++ t) = f.escaped ++ f.escape t :=
  Text.replace_append f.text_ne_nil t

theorem unescape_escaped_append (t : Text) : f.unescape (f.escaped ++ t) = f.text ++ f.unescape t :=
  Text.replace_append f.escaped_ne_nil t

theorem escape_eq_nil_iff : f.escape v = [] ↔ v = [] := by
  induction v using Text.replace_induction f.text_ne_nil with
  | nil => exact iff_of_true Text.replace_nil rfl
  | found t ih =>
    rw [escape_text_append]
    simp [escaped, text]
  | char c t hc ih => simp [escape, Text.replace_cons hc]

theorem text_prefix_iff {c : Char} : f.text <+: c :: t ↔ c = f.mark ∧ [f.mark, f.mark] <+: t := by
  rw [text, List.cons_prefix_cons, eq_comm]

theorem not_text_prefix_of_backslash : ¬ f.text <+: '\\' :: t :=
  fun h => f.mark_ne_backslash (f.text_prefix_iff.1 h).1.symm

/-- A mark and a backslash in an escaped value are those of the value: an escaped fence begins with a
backslash, and a fence has no backslash between its marks. -/
theorem of_escape_eq_mark (h : f.escape t = f.mark :: '\\' :: u) :
    ∃ r, t = f.mark :: '\\' :: r ∧ f.escape r = u := by
  rcases Text.cases_of_replace f.text_ne_nil h with ⟨r, -, hr⟩ | ⟨t₁, rfl, h₁, hfence⟩
  · exact absurd (List.cons.inj hr).1 f.mark_ne_backslash.symm
  · rcases Text.cases_of_replace f.text_ne_nil h₁ with ⟨r, rfl, -⟩ | ⟨r, rfl, hr, -⟩
    · exact absurd (f.text_prefix_iff.2 ⟨rfl, _, rfl⟩) hfence
    · exact ⟨r, rfl, hr⟩

/-- Where a character and an escaped value make up an escaped fence, the character and the value
do. -/
theorem of_escape_eq_escaped {c : Char} (h : f.escaped <+: c :: f.escape t) :
    ∃ s, c :: t = f.escaped ++ s ∧ ¬ [f.mark, f.mark] <+: s := by
  obtain ⟨x, hx⟩ := h
  obtain ⟨rfl, h₁⟩ := List.cons.inj hx
  obtain ⟨t₂, rfl, h₂⟩ := f.of_escape_eq_mark h₁.symm
  obtain ⟨t₄, rfl, h₄⟩ := f.of_escape_eq_mark h₂
  rcases Text.cases_of_replace f.text_ne_nil h₄ with ⟨r, -, hr⟩ | ⟨s, rfl, -, hs⟩
  · exact absurd (List.cons.inj hr).1 f.mark_ne_backslash.symm
  · exact ⟨s, rfl, fun hmarks => hs (f.text_prefix_iff.2 ⟨rfl, hmarks⟩)⟩

/-- The first character of what a text stands for is that of the text if no fence begins there. -/
theorem of_unescape_eq_cons {c : Char} (h : f.unescape t = c :: u) (hc : ¬ f.text <+: c :: u) :
    ∃ r, t = c :: r ∧ f.unescape r = u ∧ ¬ f.escaped <+: c :: r := by
  rcases Text.cases_of_replace f.escaped_ne_nil h with ⟨r, -, hr⟩ | hr
  · exact absurd ⟨_, hr⟩ hc
  · exact hr

/-- An escaped fence that is part of what a text stands for has two more marks behind it. -/
theorem marks_of_unescape_eq_escaped {s : Text} (h : f.unescape t = f.escaped ++ s) :
    [f.mark, f.mark] <+: s := by
  have hslash (r : Text) : ¬ [f.mark, f.mark] <+: '\\' :: r := fun hr =>
    f.mark_ne_backslash (List.cons_prefix_cons.1 hr).1
  by_contra hs
  obtain ⟨t₁, rfl, h₁, hne⟩ := f.of_unescape_eq_cons h f.not_text_prefix_of_backslash
  obtain ⟨t₂, rfl, h₂, -⟩ := f.of_unescape_eq_cons h₁ fun hr => hslash _ (f.text_prefix_iff.1 hr).2
  obtain ⟨t₃, rfl, h₃, -⟩ := f.of_unescape_eq_cons h₂ f.not_text_prefix_of_backslash
  obtain ⟨t₄, rfl, h₄, -⟩ := f.of_unescape_eq_cons h₃ fun hr => hslash _ (f.text_prefix_iff.1 hr).2
  obtain ⟨t₅, rfl, h₅, -⟩ := f.of_unescape_eq_cons h₄ f.not_text_prefix_of_backslash
  obtain ⟨t₆, rfl, -, -⟩ := f.of_unescape_eq_cons h₅ fun hr => hs (f.text_prefix_iff.1 hr).2
  -- all six characters are those of the text, so the text held an escaped fence there
  exact hne ⟨t₆, rfl⟩

/-- Two more marks follow each escaped fence of a text. -/
def Guarded (v : Text) : Prop := ∀ p s, v = p ++ f.escaped ++ s → [f.mark, f.mark] <+: s

theorem guarded_nil : f.Guarded [] := by
  intro p s h
  cases p <;> cases h

/-- Whether escaped fences are guarded is seen where they begin. -/
theorem guarded_cons_iff {c : Char} :
    f.Guarded (c :: t) ↔ (∀ s, c :: t = f.escaped ++ s → [f.mark, f.mark] <+: s) ∧ f.Guarded t := by
  constructor
  · intro h
    refine ⟨fun s hs => h [] s hs, fun p s hs => h (c :: p) s ?_⟩
    rw [hs]
    rfl
  · rintro ⟨hhead, htail⟩ p s h
    cases p with
    | nil => exact hhead s h
    | cons d p => exact htail p s (List.cons.inj h).2

theorem guarded_text_append_iff : f.Guarded (f.text ++ t) ↔ f.Guarded t := by
  have hmark (r : Text) : f.Guarded (f.mark :: r) ↔ f.Guarded r := by
    rw [guarded_cons_iff, and_iff_right]
    intro s hs
    exact absurd (List.cons.inj hs).1 f.mark_ne_backslash
  rw [text, List.cons_append, hmark, List.cons_append, hmark, List.cons_append, hmark,
    List.nil_append]

/-- A guarded value is read back from its escaped text. -/
theorem unescape_escape (h : f.Guarded v) : f.unescape (f.escape v) = v := by
  induction v using Text.replace_induction f.text_ne_nil with
  | nil => rw [escape, Text.replace_nil, unescape, Text.replace_nil]
  | found t ih =>
    rw [escape_text_append, unescape_escaped_append, ih (f.guarded_text_append_iff.1 h)]
  | char c t hc ih =>
    obtain ⟨hhead, htail⟩ := f.guarded_cons_iff.1 h
    have hescape : f.escape (c :: t) = c :: f.escape t := Text.replace_cons hc
    have hnot : ¬ f.escaped <+: c :: f.escape t := by
      intro hp
      obtain ⟨s, hs, hmarks⟩ := f.of_escape_eq_escaped hp
      exact hmarks (hhead s hs)
    have hunescape : f.unescape (c :: f.escape t) = c :: f.unescape (f.escape t) :=
      Text.replace_cons hnot
    rw [hescape, hunescape, ih htail]

/-- What a text stands for is guarded. -/
theorem guarded_unescape (t : Text) : f.Guarded (f.unescape t) := by
  induction t using Text.replace_induction f.escaped_ne_nil with
  | nil =>
    rw [unescape, Text.replace_nil]
    exact f.guarded_nil
  | found t ih =>
    rw [unescape_escaped_append, guarded_text_append_iff]
    exact ih
  | char c t hc ih =>
    have hcons : f.unescape (c :: t) = c :: f.unescape t := Text.replace_cons hc
    rw [hcons, guarded_cons_iff]
    refine ⟨fun s hs => ?_, ih⟩
    rw [← hcons] at hs
    exact f.marks_of_unescape_eq_escaped hs

/-- Escaping is undone exactly for the values that some text stands for. They are those in which two
more marks follow each escaped fence, and for them the content built from a value has the value that
is read from its text. -/
theorem unescape_escape_iff (v : Text) :
    (f.unescape (f.escape v) = v ↔ f.Guarded v) ∧
      (f.Guarded v ↔ ∃ raw, f.unescape raw = v) ∧
      ∃ t, Build.docStringLiteral v f = .ok t ∧ t.text = f.escape v ∧ t.value = v ∧
        (t.value = f.unescape t.text ↔ f.Guarded v) := by
  have hread : f.unescape (f.escape v) = v ↔ f.Guarded v :=
    ⟨fun h => h ▸ f.guarded_unescape _, f.unescape_escape⟩
  refine ⟨hread, ⟨fun h => ⟨_, f.unescape_escape h⟩, ?_⟩, ?_⟩
  · rintro ⟨raw, rfl⟩
    exact f.guarded_unescape raw
  · refine ⟨.literal .docStringContentToken (f.escape v) v [] [], rfl, rfl, ?_, ?_⟩
    · exact Token.value_literal ..
    · rw [Token.value_literal, ← hread]
      exact eq_comm

/-- An escaped fence alone is the value of no text: it is left as it is, and then read as a fence. -/
theorem escaped_read_as_text : ¬ ∀ (f : Fence) (v : Text), f.unescape (f.escape v) = v := by
  intro h
  have hescape : quotes.escape quotes.escaped = quotes.escaped := by cbv
  have hunescape : quotes.unescape quotes.escaped = quotes.text := by cbv
  have hback := h quotes quotes.escaped
  rw [hescape, hunescape] at hback
  exact absurd hback (by decide)

end Fence

end GherkinTree
