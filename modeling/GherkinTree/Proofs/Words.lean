import GherkinTree.Proofs.Accessor
import GherkinTree.Proofs.Anatomy

/-!
Where the words of a document stand: in the texts of names, steps and cells, in tags and in
descriptions. Main statement: below any node that is no doc string, the nodes with words hold none
of the content of doc strings.
-/

namespace GherkinTree

open Element

namespace Element

theorem mem_tokensAll_iff {es : List Element} {t : Token} :
    t ∈ tokensAll es ↔ ∃ e ∈ es, t ∈ e.tokens := by
  induction es with
  | nil => simp
  | cons e es ih => simp [ih]

theorem mem_tokensAll_of_mem_tokensOf {es : List Element} {t : Token} (h : t ∈ tokensOf es) :
    t ∈ tokensAll es := by
  obtain ⟨e, he, ht⟩ := List.mem_filterMap.1 h
  cases e with
  | token u =>
    cases ht
    exact mem_tokensAll_iff.2 ⟨_, he, by simp⟩
  | node k cs => cases ht

end Element

variable {n m : Node} {k : Kind} {above : Option Kind} {outline : Bool}

/-- Whether nodes of a kind hold the words of a document: texts, tags and descriptions. -/
def Kind.isWords : Kind → Bool
  | .literalText | .interpolatedText | .tags | .description => true
  | _ => false

/-- No token of an element is the content of a doc string. -/
def Element.Contentless (e : Element) : Prop := ∀ t ∈ e.tokens, t.kind ≠ .docStringContentToken

theorem Element.contentless_token {t : Token} (h : t.kind = k) (hk : k ≠ .docStringContentToken) :
    (token t).Contentless := by simpa [Contentless, h] using hk

theorem Element.contentless_toElement (h : ∀ e ∈ n.children, e.Contentless) :
    n.toElement.Contentless := by
  intro t ht
  rw [Node.toElement, tokens_node, mem_tokensAll_iff] at ht
  obtain ⟨e, he, ht⟩ := ht
  exact h e he t ht

theorem Element.contentless_of_tokens {ts : List Token} (h : ∀ t ∈ ts, t.Present k)
    (hk : k ≠ .docStringContentToken) : ∀ e ∈ ts.map token, e.Contentless := by
  intro e he
  obtain ⟨t, ht, rfl⟩ := List.mem_map.1 he
  exact contentless_token (h t ht).kind hk

namespace Node

theorem IsPart.contentless {e : Element} (h : IsPart k e) (hk : k ≠ .docStringContentToken) :
    e.Contentless := by
  cases h with
  | run ht => exact contentless_token ht.kind hk
  | placeholder hn =>
    refine contentless_toElement ?_
    cases hn with
    | mk hless hname hgreater =>
      simp only [ofPlaceholder, List.forall_mem_cons]
      exact ⟨contentless_token hless.kind (by decide), contentless_token hname.kind (by decide),
        contentless_token hgreater.kind (by decide), List.forall_mem_nil _⟩

theorem IsText.contentless (h : n.IsText k outline) (hk : k ≠ .docStringContentToken) :
    n.toElement.Contentless := by
  refine contentless_toElement ?_
  cases h with
  | plain ht => exact List.forall_mem_singleton.2 (contentless_token ht.kind hk)
  | pieces hne hps => exact fun p hp => (hps p hp).contentless hk

theorem IsStepText.contentless (h : n.IsStepText outline) : n.toElement.Contentless := by
  cases h with
  | lacking ht =>
    refine contentless_toElement (List.forall_mem_singleton.2 ?_)
    exact contentless_token ht.kind (by decide)
  | found hn => exact hn.contentless (by decide)

theorem IsCell.contentless (h : n.IsCell outline) : n.toElement.Contentless := by
  refine contentless_toElement ?_
  cases h with
  | empty ht => exact List.forall_mem_singleton.2 (contentless_token ht.kind (by decide))
  | plain ht => exact List.forall_mem_singleton.2 (contentless_token ht.kind (by decide))
  | pieces hn => exact List.forall_mem_singleton.2 (hn.contentless (by decide))

theorem IsTags.contentless (h : n.IsTags) : n.toElement.Contentless := by
  refine contentless_toElement ?_
  cases h with
  | mk hne hts => exact contentless_of_tokens hts (by decide)

theorem IsDescription.contentless (h : n.IsDescription) : n.toElement.Contentless := by
  refine contentless_toElement ?_
  cases h with
  | mk hne hts => exact contentless_of_tokens hts (by decide)

/-- The nodes with words among some elements hold no content of doc strings. -/
def WordsApart (es : List Element) : Prop :=
  ∀ m ∈ nodesOf es, m.kind.isWords = true → m.toElement.Contentless

theorem WordsApart.append {es fs : List Element} (h : WordsApart es) (hf : WordsApart fs) :
    WordsApart (es ++ fs) := by
  intro m hm
  rw [nodesOf_append] at hm
  exact (List.mem_append.1 hm).elim (h m) (hf m)

theorem wordsApart_tokens (ts : List Token) : WordsApart (ts.map .token) := by
  intro m hm
  obtain ⟨e, he, hm⟩ := List.mem_filterMap.1 hm
  obtain ⟨t, -, rfl⟩ := List.mem_map.1 he
  cases hm

theorem wordsApart_nodes {ns : List Node}
    (h : ∀ m ∈ ns, m.kind.isWords = true → m.toElement.Contentless) :
    WordsApart (ns.map toElement) := by
  intro m hm
  rw [nodesOf_map_toElement] at hm
  exact h m hm

theorem wordsApart_node {m : Node} (h : m.kind.isWords = true → m.toElement.Contentless) :
    WordsApart [m.toElement] := by
  have hall : WordsApart ([m].map toElement) := wordsApart_nodes (List.forall_mem_singleton.2 h)
  exact hall

theorem wordsApart_optional {n : Option Node}
    (h : ∀ m ∈ n, m.kind.isWords = true → m.toElement.Contentless) : WordsApart (optional n) :=
  wordsApart_nodes fun m hm => h m (Option.mem_toList.1 hm)

/-- Nodes of a kind that is not one of words. -/
theorem not_words {P : Node → Prop} (hP : ∀ {m : Node}, P m → m.kind = k) (hk : k.isWords = false)
    {m : Node} (hm : P m) : m.kind.isWords = true → m.toElement.Contentless := by
  intro hw
  rw [hP hm, hk] at hw
  cases hw

theorem wordsApart_header {h : Header} (hh : h.Plain) (ht : ∀ m ∈ h.tags, m.IsTags) :
    WordsApart h.elements :=
  (((wordsApart_optional fun m hm _ => (ht m hm).contentless).append
    (wordsApart_tokens [h.keyword, h.colon])).append
      (wordsApart_optional fun m hm _ => (hh.name m hm).contentless (by decide))).append
        (wordsApart_optional fun m hm _ => (hh.description m hm).contentless)

/-- Only doc strings have the content of doc strings directly below them. -/
theorem Form.wordsApart (h : n.Form above) (hd : n.kind ≠ .docString) :
    WordsApart n.children := by
  have hsteps {outline : Bool} {ns : List Node} (h : ∀ m ∈ ns, m.IsStep outline) :
      WordsApart (ns.map toElement) :=
    wordsApart_nodes fun m hm => not_words IsStep.kind_eq rfl (h m hm)
  have hbackground {n : Option Node} (h : ∀ m ∈ n, m.IsBackground) : WordsApart (optional n) :=
    wordsApart_optional fun m hm => not_words IsBackground.kind_eq rfl (h m hm)
  have hscenarios {ns : List Node} (h : ∀ m ∈ ns, m.IsScenario) : WordsApart (ns.map toElement) :=
    wordsApart_nodes fun m hm => not_words IsScenario.kind_eq rfl (h m hm)
  have htext {k : Kind} {outline : Bool} {n : Node} (h : n.IsText k outline) :
      WordsApart n.children := by
    cases h with
    | @plain t => exact wordsApart_tokens [t]
    | pieces hne hps =>
      intro m hm hw
      obtain ⟨e, he, hm⟩ := List.mem_filterMap.1 hm
      cases hps e he with
      | run => cases hm
      | placeholder hp =>
        cases hm
        exact not_words IsPlaceholder.kind_eq rfl hp hw
  cases h with
  | placeholder h =>
    cases h with
    | @mk less name greater => exact wordsApart_tokens [less, name, greater]
  | text h => exact htext h
  | stepText h =>
    cases h with
    | @lacking t => exact wordsApart_tokens [t]
    | found h => exact htext h
  | cell h =>
    cases h with
    | @empty _ t => exact wordsApart_tokens [t]
    | @plain t => exact wordsApart_tokens [t]
    | pieces hm => exact wordsApart_node fun _ => hm.contentless (by decide)
  | row h =>
    cases h with
    | @mk bar cells hbar hcells =>
      intro m hm
      obtain ⟨e, he, hm⟩ := List.mem_filterMap.1 hm
      simp only [ofRow, List.mem_cons, List.mem_flatMap, List.not_mem_nil, or_false] at he
      rcases he with rfl | ⟨c, hc, rfl | rfl⟩
      · cases hm
      · cases hm
        exact not_words IsCell.kind_eq rfl (hcells c hc)
      · cases hm
  | table h =>
    cases h with
    | mk hne hrows => exact wordsApart_nodes fun m hm => not_words IsRow.kind_eq rfl (hrows m hm)
  | contentType h =>
    cases h with
    | @mk t => exact wordsApart_tokens [t]
  | docString h => exact absurd h.kind_eq hd
  | step h =>
    cases h with
    | @mk k keyword text argument hk hkeyword ht hargument =>
      refine (wordsApart_tokens [keyword]).append
        ((wordsApart_node fun _ => ht.contentless).append ?_)
      refine wordsApart_optional fun m hm => (hargument m hm).elim ?_ ?_
      · exact not_words IsTable.kind_eq rfl
      · exact not_words IsDocString.kind_eq rfl
  | tags h =>
    cases h with
    | mk => exact wordsApart_tokens _
  | description h =>
    cases h with
    | mk => exact wordsApart_tokens _
  | background h =>
    cases h with
    | mk hh _ hs => exact (wordsApart_header hh.toPlain hh.tags).append (hsteps hs)
  | examples h =>
    cases h with
    | mk hh ht =>
      exact (wordsApart_header hh.toPlain hh.tags).append
        (wordsApart_optional fun m hm => not_words IsTable.kind_eq rfl (ht m hm))
  | scenario h =>
    cases h with
    | mk _ hh _ hs he =>
      exact ((wordsApart_header hh.toPlain hh.tags).append (hsteps hs)).append
        (wordsApart_nodes fun m hm => not_words IsExamples.kind_eq rfl (he m hm))
  | rule h =>
    cases h with
    | mk hh hb hs =>
      exact ((wordsApart_header hh.toPlain hh.tags).append (hbackground hb)).append (hscenarios hs)
  | feature h =>
    cases h with
    | @mk h _ _ _ hh hb hs hr =>
      have hheader : WordsApart h.elements := by
        rcases hh with hh | hh
        · exact wordsApart_header hh.toPlain hh.tags
        · exact wordsApart_header hh.toPlain (by simp [hh.tags])
      exact ((hheader.append (hbackground hb)).append (hscenarios hs)).append
        (wordsApart_nodes fun m hm => not_words IsRule.kind_eq rfl (hr m hm))
  | document h =>
    cases h with
    | @mk _ eof hf =>
      exact (wordsApart_optional fun m hm => not_words IsFeature.kind_eq rfl (hf m hm)).append
        (wordsApart_tokens [eof])

end Node

end GherkinTree
