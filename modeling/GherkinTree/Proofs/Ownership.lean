import GherkinTree.Proofs.Edge
import GherkinTree.Proofs.KeywordTable
import GherkinTree.Proofs.Slot
import Mathlib

/-!
Lacking tokens and the nodes that they belong to. The tokens of a node are a stretch of the tokens of
the document, and its span reaches from the first of them to the last, so a token of another node may
touch the span but not reach into it. Main statement: the diagnostics within a node are, as far as
lacking tokens go, those of its own tokens and of the tokens that stand right at one of its ends.
-/

namespace GherkinTree

theorem Span.containsSpan_iff {s t : Span} :
    s.containsSpan t = true ↔ s.start ≤ t.start ∧ t.stop ≤ s.stop := by
  simp [containsSpan]

namespace Span.Tiles

variable {a b : Nat} {ss : List Span}

theorem le (h : Tiles a ss b) : a ≤ b := by
  induction ss generalizing a with
  | nil => exact Nat.le_of_eq h
  | cons s ss ih =>
    obtain ⟨rfl, h⟩ := h
    exact Nat.le_trans s.ordered (ih h)

theorem start_le (h : Tiles a ss b) : ∀ s ∈ ss, a ≤ s.start := by
  induction ss generalizing a with
  | nil => exact List.forall_mem_nil _
  | cons s ss ih =>
    obtain ⟨rfl, h⟩ := h
    exact List.forall_mem_cons.2
      ⟨Nat.le_refl _, fun t ht => Nat.le_trans s.ordered (ih h t ht)⟩

/-- Spans that tile a range follow one another. -/
theorem pairwise (h : Tiles a ss b) : ss.Pairwise fun s t => s.stop ≤ t.start := by
  induction ss generalizing a with
  | nil => exact .nil
  | cons s ss ih => exact .cons h.2.start_le (ih h.2)

end Span.Tiles

namespace PlacedNode

variable {n m x : PlacedNode} {t : PlacedToken}

theorem exists_mem_of_mem_walkNodes {stack : List PlacedNode} (h : x ∈ walkNodes stack) :
    ∃ m ∈ stack, x ∈ m.descendants := by
  induction stack with
  | nil =>
    rw [walkNodes] at h
    cases h
  | cons n stack ih =>
    rw [← List.singleton_append, walkNodes_append, List.mem_append] at h
    rcases h with h | h
    · exact ⟨n, List.mem_cons_self, h⟩
    · obtain ⟨m, hm, hx⟩ := ih h
      exact ⟨m, List.mem_cons_of_mem n hm, hx⟩

/-- What is under a node is the node itself or is under one of its children. -/
theorem eq_or_under_child (h : x ∈ n.descendants) :
    x = n ∨ ∃ m, .node m ∈ n.children ∧ x ∈ m.descendants := by
  rw [descendants, walkNodes, List.append_nil, List.mem_cons] at h
  refine h.imp_right fun h => ?_
  obtain ⟨m, hm, hx⟩ := exists_mem_of_mem_walkNodes h
  exact ⟨m, mem_children_of_mem_childNodes hm, hx⟩

/-- The tokens of a node are a stretch of the tokens of each node above it. -/
theorem exists_tokens_around {n x : PlacedNode} (h : x ∈ n.descendants) :
    ∃ as bs, n.descendantTokens = as ++ x.descendantTokens ++ bs := by
  rcases eq_or_under_child h with rfl | ⟨m, hm, hx⟩
  · exact ⟨[], [], by simp⟩
  · obtain ⟨as, bs, hs⟩ := exists_tokens_around hx
    obtain ⟨es, fs, hes⟩ := List.append_of_mem hm
    refine ⟨walkTokens es ++ as, bs ++ walkTokens fs, ?_⟩
    rw [descendantTokens_eq, hes, walkTokens_append, ← List.singleton_append, walkTokens_append,
      ← descendantTokens, hs]
    simp
termination_by n.size
decreasing_by exact size_lt_of_mem hm

/-- The line of a node on the way to the root ends with the lines of the nodes on it. -/
theorem suffix_of_mem_ancestors (h : m ∈ n :: n.ancestors) :
    m :: m.ancestors <:+ n :: n.ancestors := by
  have hchain (ss : List Site) (h : m ∈ ancestors.chain ss) :
      m :: m.ancestors <:+ ancestors.chain ss := by
    induction ss with
    | nil => cases h
    | cons s ss ih =>
      rcases List.mem_cons.1 h with rfl | h
      · exact List.suffix_refl _
      · exact (ih h).trans (List.suffix_cons _ _)
  exact hchain (n.toSite :: n.above) h

/-- A node is on the way from each node under it to the root. -/
theorem mem_ancestors_of_mem_descendants {n x : PlacedNode} (h : x ∈ n.descendants) :
    n ∈ x :: x.ancestors := by
  rcases eq_or_under_child h with rfl | ⟨m, hm, hx⟩
  · exact List.mem_cons_self
  · have hmx := suffix_of_mem_ancestors (mem_ancestors_of_mem_descendants hx)
    rcases PlacedElement.above_of_mem_childrenFrom hm with ⟨_, ⟨⟩, habove⟩ | ⟨_, ⟨⟩, -⟩
    refine hmx.subset ?_
    rw [habove]
    simp
termination_by n.size
decreasing_by exact size_lt_of_mem hm

/-- Of two nodes that hold a token below them, one is above the other. -/
theorem mem_ancestors_of_mem_descendantTokens (hn : t ∈ n.descendantTokens)
    (hm : t ∈ m.descendantTokens) : n = m ∨ n ∈ m.ancestors ∨ m ∈ n.ancestors := by
  have line {n : PlacedNode} (h : t ∈ n.descendantTokens) :
      n :: n.ancestors <:+ t.parent :: t.parent.ancestors :=
    suffix_of_mem_ancestors
      (mem_ancestors_of_mem_descendants (parent_of_mem_descendantTokens h).1)
  rcases List.suffix_or_suffix_of_suffix (line hn) (line hm) with h | h
  · exact (List.mem_cons.1 (h.subset List.mem_cons_self)).imp_right .inl
  · exact (List.mem_cons.1 (h.subset List.mem_cons_self)).imp Eq.symm .inr

/-- The texts of the tokens of a node follow one another. -/
theorem pairwise_descendantTokens (n : PlacedNode) :
    n.descendantTokens.Pairwise fun t u => t.span.stop ≤ u.span.start := by
  refine (List.pairwise_map.1 n.tiles_descendantTokens.pairwise).imp fun {t u} h => ?_
  simp only [PlacedToken.fullSpan, PlacedToken.span, Span.stop_ofWidth, Span.start_ofWidth,
    Token.fullWidth] at h ⊢
  omega

/-- The span of a node reaches from the text of its first token to the text of its last. -/
theorem span_of_filled (h : n.Filled) :
    ∃ first last, n.descendantTokens.head? = some first ∧
      n.descendantTokens.getLast? = some last ∧
      n.span.start = first.span.start ∧ n.span.stop = last.span.stop := by
  obtain ⟨first, hfirst, hhead⟩ := head?_descendantTokens h
  obtain ⟨last, hlast, hgetLast⟩ := getLast?_descendantTokens h
  refine ⟨first, last, hhead, hgetLast, by simp [span, hfirst], ?_⟩
  have hle : first.span.start ≤ last.span.stop := by
    obtain ⟨ts, hts⟩ := List.head?_eq_some_iff.1 hhead
    have hpairwise := n.pairwise_descendantTokens
    rw [hts] at hpairwise hgetLast
    rcases List.mem_cons.1 (List.mem_of_getLast? hgetLast) with rfl | hmem
    · exact last.span.ordered
    · have := List.rel_of_pairwise_cons hpairwise hmem
      have := first.span.ordered
      have := last.span.ordered
      omega
  simpa [span, hfirst, hlast] using hle

/-- The span of a node contains the texts of its tokens. -/
theorem containsSpan_of_mem (h : n.Filled) (ht : t ∈ n.descendantTokens) :
    n.span.containsSpan t.span = true := by
  obtain ⟨first, last, hfirst, hlast, hstart, hstop⟩ := span_of_filled h
  have hpairwise := n.pairwise_descendantTokens
  have hordered := t.span.ordered
  rw [Span.containsSpan_iff, hstart, hstop]
  constructor
  · obtain ⟨ts, hts⟩ := List.head?_eq_some_iff.1 hfirst
    rw [hts] at hpairwise ht
    rcases List.mem_cons.1 ht with rfl | ht
    · exact Nat.le_refl _
    · exact Nat.le_trans first.span.ordered (List.rel_of_pairwise_cons hpairwise ht)
  · obtain ⟨ts, hts⟩ := List.getLast?_eq_some_iff.1 hlast
    rw [hts] at hpairwise ht
    rcases List.mem_append.1 ht with ht | ht
    · have := (List.pairwise_append.1 hpairwise).2.2 t ht last (List.mem_singleton_self _)
      exact Nat.le_trans this last.span.ordered
    · rw [List.mem_singleton.1 ht]

/-- A token in front of a node or behind it does not reach into the span of the node. -/
theorem apart_of_not_mem {root : PlacedNode} (h : n.Filled) (hn : n ∈ root.descendants)
    (ht : t ∈ root.descendantTokens) (hnot : t ∉ n.descendantTokens) :
    t.span.stop ≤ n.span.start ∨ n.span.stop ≤ t.span.start := by
  obtain ⟨first, last, hfirst, hlast, hstart, hstop⟩ := span_of_filled h
  obtain ⟨as, bs, hs⟩ := exists_tokens_around hn
  have hpairwise := root.pairwise_descendantTokens
  rw [hs] at ht hpairwise
  obtain ⟨hfront, -, hbehind⟩ := List.pairwise_append.1 hpairwise
  rcases List.mem_append.1 ht with ht | ht
  · have ht : t ∈ as := (List.mem_append.1 ht).resolve_right hnot
    refine .inl (hstart ▸ ?_)
    exact (List.pairwise_append.1 hfront).2.2 t ht first (List.mem_of_mem_head? hfirst)
  · refine .inr (hstop ▸ ?_)
    exact hbehind last (List.mem_append_right as (List.mem_of_getLast? hlast)) t ht

end PlacedNode

namespace PlacedToken

/-- A diagnostic says that the token is lacking. -/
structure LacksBy (t : PlacedToken) (x : Diagnostic) : Prop where
  missing : t.token.missing = true
  span : x.span = t.span
  problem : x.problem = .missingToken t.kind

/-- The token belongs to no node under the node and stands right at one of its ends. -/
def Abuts (t : PlacedToken) (n : PlacedNode) : Prop :=
  t ∉ n.descendantTokens ∧ (t.span.stop = n.span.start ∨ t.span.start = n.span.stop)

variable {t : PlacedToken} {x : Diagnostic}

theorem LacksBy.eq (h : t.LacksBy x) : x = ⟨t.span, .missingToken t.kind⟩ := by
  obtain ⟨span, problem⟩ := x
  obtain ⟨-, rfl, rfl⟩ := h
  rfl

theorem isReported_of_reportable (hm : t.token.missing = true) (hk : t.kind ∈ Kind.reportable) :
    t.token.isReported = true := by
  have hne : t.token.kind ≠ .colonToken ∧ t.token.kind ≠ .tableLiteralToken := by
    constructor <;> intro he <;> rw [kind, he] at hk <;> exact absurd hk (by decide)
  simp [Token.isReported, hm, hne]

/-- The lack of a token is told right where the token stands. -/
theorem lacksBy_of_mem_diagnostics {d : Dialect} (hx : x ∈ t.diagnostics d) {k : Kind}
    (hk : x.problem = .missingToken k) : t.LacksBy x := by
  obtain ⟨hr, rfl⟩ := isReported_of_mem_diagnostics hx hk
  simp only [Token.isReported, Bool.and_eq_true] at hr
  exact ⟨hr.1.1, rfl, rfl⟩

end PlacedToken

namespace FeatureFile

variable {o : Options} {text : Text} {x : Diagnostic} {k : Kind} {t : PlacedToken}

/-- What is told to be lacking has no bytes. -/
theorem isEmpty_of_missing (ho : o.dialect ∈ Dialect.bundled) (hx : x ∈ (parse o text).diagnostics)
    (hk : x.problem = .missingToken k) : x.span.start = x.span.stop := by
  rw [mem_diagnostics_iff ho, shownDiagnostics_eq_reported ho] at hx
  obtain ⟨e, -, he⟩ := List.mem_filterMap.1 hx
  cases e with
  | missing offset kind =>
    cases he
    rfl
  | skippedLine | skippedAfterTags | unknownLanguage =>
    cases he
    cases hk
  | selected => cases he

/-- A diagnostic of a lacking token is one that the token shows. -/
theorem mem_diagnostics_of_lacksBy (ho : o.dialect ∈ Dialect.bundled)
    (hx : x ∈ (parse o text).diagnostics) (h : t.LacksBy x) (d : Dialect) :
    x ∈ t.diagnostics d := by
  have hr := PlacedToken.isReported_of_reportable h.missing
    (reportable_of_mem_diagnostics ho text hx h.problem)
  simp [PlacedToken.diagnostics, hr, h.eq]

/-- No two tokens of a document have a diagnostic in common. -/
theorem eq_of_mem_diagnostics (ho : o.dialect ∈ Dialect.bundled) {u : PlacedToken}
    (ht : t ∈ (parse o text).root.descendantTokens) (hu : u ∈ (parse o text).root.descendantTokens)
    (hxt : x ∈ t.diagnostics (parse o text).dialect)
    (hxu : x ∈ u.diagnostics (parse o text).dialect) : t = u := by
  have hsorted := (reported_parse ho text).2
  rw [← shownDiagnostics_eq_reported ho text] at hsorted
  have hpairwise := (List.pairwise_flatMap.1 hsorted).2
  by_contra hne
  -- a diagnostic does not stand before itself
  have hirrefl : ¬x.span.Before x.span := by
    unfold Span.Before
    omega
  rcases List.pairwise_iff_getElem.1 hpairwise, List.mem_iff_getElem.1 ht,
    List.mem_iff_getElem.1 hu with ⟨hrel, ⟨i, hi, rfl⟩, j, hj, rfl⟩
  rcases Nat.lt_trichotomy i j with hij | rfl | hij
  · exact hirrefl (hrel i j hi hj hij x hxt x hxu)
  · exact hne rfl
  · exact hirrefl (hrel j i hj hi hij x hxu x hxt)

/-- The diagnostics of a node tell that a token is lacking exactly if the token is one of its own or
stands right at one of its ends. -/
theorem mem_diagnosticsIn_iff (ho : o.dialect ∈ Dialect.bundled)
    (hx : x ∈ (parse o text).diagnostics) (ht : t ∈ (parse o text).root.descendantTokens)
    (h : t.LacksBy x) {n : PlacedNode} (hn : n ∈ (parse o text).root.descendants) :
    x ∈ (parse o text).diagnosticsIn n ↔ t ∈ n.descendantTokens ∨ t.Abuts n := by
  have hfilled : n.Filled := (filled_root o text).of_mem hn
  have hempty : t.span.start = t.span.stop := h.span ▸ isEmpty_of_missing ho hx h.problem
  have hmem : x ∈ (parse o text).diagnosticsIn n ↔ n.span.containsSpan t.span = true := by
    rw [diagnosticsIn, List.mem_filter, h.span]
    exact and_iff_right hx
  rw [hmem]
  constructor
  · intro hin
    rw [Span.containsSpan_iff] at hin
    by_cases hown : t ∈ n.descendantTokens
    · exact .inl hown
    · refine .inr ⟨hown, ?_⟩
      have := PlacedNode.apart_of_not_mem hfilled hn ht hown
      omega
  · rintro (hown | ⟨-, hend⟩)
    · exact PlacedNode.containsSpan_of_mem hfilled hown
    · rw [Span.containsSpan_iff]
      have := n.span.ordered
      omega

/-- Every lack that a document reports is that of exactly one token. The diagnostics of a node tell it
if the token is under the node, and else only if the token stands right at one of the two ends of the
node. So of two nodes neither of which is above the other, both tell it only if it stands at an end
of one that it is not under. -/
theorem scopes_parse (ho : o.dialect ∈ Dialect.bundled) (text : Text)
    (hx : x ∈ (parse o text).diagnostics) (hk : x.problem = .missingToken k) :
    ∃ t ∈ (parse o text).root.descendantTokens, t.LacksBy x ∧
      (∀ u ∈ (parse o text).root.descendantTokens, u.LacksBy x → u = t) ∧
      (∀ n ∈ (parse o text).root.descendants,
        x ∈ (parse o text).diagnosticsIn n ↔ t ∈ n.descendantTokens ∨ t.Abuts n) ∧
      ∀ n ∈ (parse o text).root.descendants, ∀ m ∈ (parse o text).root.descendants,
        n ≠ m → n ∉ m.ancestors → m ∉ n.ancestors →
        x ∈ (parse o text).diagnosticsIn n → x ∈ (parse o text).diagnosticsIn m →
        t.Abuts n ∨ t.Abuts m := by
  obtain ⟨t, ht, hxt⟩ := List.mem_flatMap.1 ((mem_diagnostics_iff ho text x).1 hx)
  have hlack := PlacedToken.lacksBy_of_mem_diagnostics hxt hk
  have hscope : ∀ n ∈ (parse o text).root.descendants,
      x ∈ (parse o text).diagnosticsIn n ↔ t ∈ n.descendantTokens ∨ t.Abuts n :=
    fun n hn => mem_diagnosticsIn_iff ho hx ht hlack hn
  refine ⟨t, ht, hlack, fun u hu hlacku => ?_, hscope, ?_⟩
  · exact eq_of_mem_diagnostics ho hu ht (mem_diagnostics_of_lacksBy ho hx hlacku _) hxt
  · intro n hn m hm hne hnm hmn hxn hxm
    rcases (hscope n hn).1 hxn with hown | habut
    · refine .inr (((hscope m hm).1 hxm).resolve_left fun hown' => ?_)
      rcases PlacedNode.mem_ancestors_of_mem_descendantTokens hown hown' with h | h | h
      · exact hne h
      · exact hnm h
      · exact hmn h
    · exact .inl habut

/-- The text of the step of the first scenario is lacking where the second begins. -/
theorem scopes_parse_scenarios :
    let f := parse .default "Feature: f\nScenario: a\nGiven\nScenario: b\nGiven ok\n".toList
    let x : Diagnostic := .missingToken 29 .literalToken
    Options.default.dialect ∈ Dialect.bundled ∧ x ∈ f.diagnostics ∧
      x.problem = .missingToken .literalToken ∧
      ∃ t ∈ f.root.descendantTokens, t.LacksBy x ∧
        (∀ u ∈ f.root.descendantTokens, u.LacksBy x → u = t) ∧
        (∀ n ∈ f.root.descendants, x ∈ f.diagnosticsIn n ↔ t ∈ n.descendantTokens ∨ t.Abuts n) ∧
        ∀ n ∈ f.root.descendants, ∀ m ∈ f.root.descendants,
          n ≠ m → n ∉ m.ancestors → m ∉ n.ancestors →
          x ∈ f.diagnosticsIn n → x ∈ f.diagnosticsIn m → t.Abuts n ∨ t.Abuts m := by
  intro f x
  have hx : x ∈ f.diagnostics := by
    have : f.diagnostics = [x] := by
      dsimp only [f]
      rw [Options.default_eq]
      cbv
    simp [this]
  exact ⟨Dialect.english_mem_bundled, hx, rfl, scopes_parse Dialect.english_mem_bundled _ hx rfl⟩

/-- A node may tell that a token is lacking that is not under it: of two scenarios, both tell that the
step of the first has no text. -/
theorem lack_told_next_door :
    let f := parse .default "Feature: f\nScenario: a\nGiven\nScenario: b\nGiven ok\n".toList
    (¬∀ x ∈ f.diagnostics, ∀ t ∈ f.root.descendantTokens, t.LacksBy x →
      ∀ n ∈ f.root.descendants, x ∈ f.diagnosticsIn n ↔ t ∈ n.descendantTokens) ∧
      (f.root.descendants.filter (·.kind == .scenario)).map f.diagnosticsIn =
        [[.missingToken 29 .literalToken], [.missingToken 29 .literalToken]] := by
  intro f
  -- one evaluation of the document gives all that is needed of it
  have hfacts : (f.diagnostics == [.missingToken 29 .literalToken] &&
      (f.root.descendantTokens.any fun t =>
        t.token.missing && t.kind == .literalToken && t.span == .empty 29) &&
      (f.root.descendants.any fun n =>
        f.diagnosticsIn n == f.diagnostics && n.descendantTokens.all (!·.token.missing)) &&
      (f.root.descendants.filter (·.kind == .scenario)).map f.diagnosticsIn ==
        [[.missingToken 29 .literalToken], [.missingToken 29 .literalToken]]) = true := by
    dsimp only [f]
    rw [Options.default_eq]
    cbv
  simp only [Bool.and_eq_true, beq_iff_eq, List.any_eq_true, List.all_eq_true,
    Bool.not_eq_true'] at hfacts
  obtain ⟨⟨⟨hx, t, ht, ⟨hmissing, hkind⟩, hspan⟩, n, hn, hin, hfound⟩, hscenarios⟩ := hfacts
  refine ⟨fun h => ?_, hscenarios⟩
  have hown := (h (.missingToken 29 .literalToken) (by simp [hx]) t ht
    ⟨hmissing, hspan.symm, by rw [hkind]; rfl⟩ n hn).1 (by simp [hin, hx])
  rw [hfound t hown] at hmissing
  cases hmissing

end FeatureFile

end GherkinTree
