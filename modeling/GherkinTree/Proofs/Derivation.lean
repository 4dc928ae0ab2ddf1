import GherkinTree.Proofs.Anatomy
import Mathlib.Computability.RegularExpressions

/-!
The grammar of trees. Each kind of node has a production, a regular expression over the kinds of
its children, and a tree is derivable if the children of each of its nodes match the production of
the node. Main statement: the tree of every document is derivable.
-/

namespace GherkinTree

namespace Kind

open RegularExpression (char star)

/-- Something that may be absent. -/
def maybe (p : RegularExpression Kind) : RegularExpression Kind := 1 + p

/-- Something that occurs at least once. -/
def repeated (p : RegularExpression Kind) : RegularExpression Kind := p * star p

/-- One of several kinds. -/
def oneOf : List Kind → RegularExpression Kind
  | [] => 0
  | k :: ks => char k + oneOf ks

/-- What the header of a section holds from its keyword on. -/
def title (keyword : RegularExpression Kind) : RegularExpression Kind :=
  keyword * char colonToken * maybe (char literalText) * maybe (char description)

/-- The children of nodes of a kind, in order. A leaf has none to derive. -/
def production : Kind → RegularExpression Kind
  | document => maybe (char feature) * char endOfFileToken
  | feature =>
    maybe (char tags) * title (char featureKeyword) * maybe (char background) *
      star (char scenario) * star (char rule)
  | rule =>
    maybe (char tags) * title (char ruleKeyword) * maybe (char background) * star (char scenario)
  | background => title (char backgroundKeyword) * star (char step)
  | scenario =>
    maybe (char tags) * title (oneOf [scenarioKeyword, scenarioOutlineKeyword]) *
      star (char step) * star (char examples)
  | examples => maybe (char tags) * title (char examplesKeyword) * maybe (char table)
  | step =>
    oneOf (tokens.filter isStepKeyword) * oneOf [literalText, interpolatedText] *
      maybe (oneOf [table, docString])
  | table => repeated (char tableRow)
  | tableRow => char verticalBarToken * star (char tableCell * char verticalBarToken)
  | tableCell => oneOf [tableLiteralToken, interpolatedText]
  | docString =>
    char docStringDelimiterToken * maybe (char docStringContentType) *
      maybe (oneOf [literalText, interpolatedText]) * char docStringDelimiterToken
  | docStringContentType => char docStringContentTypeToken
  | tags => repeated (char tagToken)
  | description => repeated (char literalToken)
  | literalText => oneOf [literalToken, docStringContentToken]
  | interpolatedText =>
    repeated (oneOf [literalToken, tableLiteralToken, docStringContentToken, interpolation])
  | interpolation => char lessThanToken * char identifierToken * char greaterThanToken
  | _ => 0

/-- Kinds that match a production, one behind the other. -/
def Matches (p : RegularExpression Kind) (ks : List Kind) : Prop := ks ∈ p.matches'

namespace Matches

variable {p q : RegularExpression Kind} {ks ls : List Kind} {k : Kind}

theorem char (k : Kind) : Matches (.char k) [k] := rfl

theorem append (hk : Matches p ks) (hl : Matches q ls) : Matches (p * q) (ks ++ ls) :=
  Language.append_mem_mul hk hl

theorem oneOf (h : k ∈ ks) : Matches (oneOf ks) [k] := by
  induction ks with
  | nil => cases h
  | cons l ks ih =>
    rcases List.mem_cons.1 h with rfl | h
    · exact Or.inl rfl
    · exact Or.inr (ih h)

theorem absent : Matches (maybe p) [] := Or.inl rfl

theorem present (h : Matches p ks) : Matches (maybe p) ks := Or.inr h

theorem star {kss : List (List Kind)} (h : ∀ ks ∈ kss, Matches p ks) :
    Matches (.star p) kss.flatten := Language.join_mem_kstar h

/-- Single kinds that match a production repeat it. -/
theorem star_singletons (h : ∀ k ∈ ks, Matches p [k]) : Matches (.star p) ks := by
  rw [← List.flatMap_singleton' ks, List.flatMap_def]
  refine star fun ls hl => ?_
  obtain ⟨k, hk, rfl⟩ := List.mem_map.1 hl
  exact h k hk

theorem repeated (hne : ks ≠ []) (h : ∀ k ∈ ks, Matches p [k]) : Matches (repeated p) ks := by
  cases ks with
  | nil => exact absurd rfl hne
  | cons k ks =>
    rw [List.forall_mem_cons] at h
    have hcons := append h.1 (star_singletons h.2)
    exact hcons

end Matches

end Kind

/-- A tree of the grammar. -/
inductive Element.Derivable : Element → Prop where
  | token {t : Token} (h : t.kind.isToken = true) : Derivable (.token t)
  | node {k : Kind} {cs : List Element} (h : Kind.Matches k.production (cs.map Element.kind))
      (hs : ∀ c ∈ cs, Derivable c) : Derivable (.node k cs)

open Kind

namespace Node

/-- A node whose children match the production of the node, the leaves among them being leaves. -/
structure Produced (n : Node) : Prop where
  children : Matches n.kind.production (n.children.map Element.kind)
  leaves : ∀ t, Element.token t ∈ n.children → t.kind.isToken = true

theorem matches_optional {p : RegularExpression Kind} {n : Option Node}
    (h : ∀ m ∈ n, Matches p [m.kind]) : Matches (maybe p) ((optional n).map Element.kind) := by
  cases n with
  | none => exact .absent
  | some m => exact .present (h m rfl)

theorem matches_nodes {k : Kind} {ns : List Node} (h : ∀ n ∈ ns, n.kind = k) :
    Matches (.star (.char k)) ((ns.map toElement).map Element.kind) := by
  refine .star_singletons fun l hl => ?_
  obtain ⟨n, hn, rfl⟩ : ∃ n ∈ ns, n.kind = l := by simpa [toElement, Element.kind] using hl
  rw [h n hn]
  exact .char k

end Node

namespace Header

variable {h : Header} {k : Kind} {p : RegularExpression Kind}

theorem Plain.matches_title (hp : h.Plain) (hk : Matches p [h.keyword.kind])
    (hc : h.colon.kind = .colonToken) :
    Matches (title p) ([h.keyword.kind, h.colon.kind] ++ (Node.optional h.name).map Element.kind ++
      (Node.optional h.description).map Element.kind) := by
  have hkey := hk.append (.char .colonToken)
  rw [hc]
  refine .append (.append hkey ?_) ?_
  · refine Node.matches_optional fun n hn => ?_
    rw [(hp.name n hn).kind_eq]
    exact .char _
  · refine Node.matches_optional fun n hn => ?_
    rw [(hp.description n hn).kind_eq]
    exact .char _

theorem Plain.matches_elements (hp : h.Plain) (ht : ∀ n ∈ h.tags, n.IsTags)
    (hk : Matches p [h.keyword.kind]) (hc : h.colon.kind = .colonToken) :
    Matches (maybe (.char .tags) * title p) (h.elements.map Element.kind) := by
  have htags : Matches (maybe (.char .tags)) ((Node.optional h.tags).map Element.kind) := by
    refine Node.matches_optional fun n hn => ?_
    rw [(ht n hn).kind_eq]
    exact .char _
  simpa [elements, Element.kind] using htags.append (hp.matches_title hk hc)

theorem Plain.matches_untagged (hp : h.Plain) (ht : h.tags = none)
    (hk : Matches p [h.keyword.kind]) (hc : h.colon.kind = .colonToken) :
    Matches (title p) (h.elements.map Element.kind) := by
  simpa [elements, Element.kind, ht, Node.optional] using hp.matches_title hk hc

theorem IsOf.matches_elements (hh : h.IsOf k) (hk : Matches p [k]) :
    Matches (maybe (.char .tags) * title p) (h.elements.map Element.kind) :=
  hh.toPlain.matches_elements hh.tags (hh.keyword.kind ▸ hk) hh.colon.kind

/-- The leaves of a header are its keyword and its colon. -/
theorem isToken_of_mem_elements (hk : h.keyword.kind.isToken = true)
    (hc : h.colon.kind.isToken = true) (t : Token) (ht : .token t ∈ h.elements) :
    t.kind.isToken = true := by
  have ht : t = h.keyword ∨ t = h.colon := by
    simpa [elements] using ht
  rcases ht with rfl | rfl
  · exact hk
  · exact hc

theorem IsOf.isToken (hh : h.IsOf k) (hk : k.isToken = true) (t : Token)
    (ht : .token t ∈ h.elements) : t.kind.isToken = true :=
  isToken_of_mem_elements (hh.keyword.kind ▸ hk) (by rw [hh.colon.kind]; rfl) t ht

end Header

namespace Node

variable {n : Node} {k : Kind} {outline : Bool} {above : Option Kind}

/-- A node whose children are leaves. -/
theorem Produced.of_tokens (ts : List Token) (h : Matches k.production (ts.map Token.kind))
    (ht : ∀ t ∈ ts, t.kind.isToken = true) : Produced ⟨k, ts.map .token⟩ where
  children := by simpa [Function.comp_def, Element.kind] using h
  leaves := by simpa using ht

/-- A node whose children are leaves of one kind, at least one. -/
theorem Produced.of_repeated {l : Kind} {ts : List Token} (hp : k.production = repeated (.char l))
    (hl : l.isToken = true) (hne : ts ≠ []) (hts : ∀ t ∈ ts, t.kind = l) :
    Produced ⟨k, ts.map .token⟩ := by
  refine .of_tokens ts (hp ▸ .repeated (by simpa using hne) fun m hm => ?_) fun t ht => hts t ht ▸ hl
  obtain ⟨t, ht, rfl⟩ := List.mem_map.1 hm
  rw [hts t ht]
  exact .char l

theorem IsPlaceholder.produced (h : n.IsPlaceholder) : n.Produced := by
  cases h with
  | @mk less name greater hless hname hgreater =>
    refine .of_tokens (k := .interpolation) [less, name, greater] ?_ ?_
    · simp only [List.map, hless.kind, hname.kind, hgreater.kind]
      exact .append (.append (.char _) (.char _)) (.char _)
    · simp only [List.forall_mem_cons, hless.kind, hname.kind, hgreater.kind]
      exact ⟨rfl, rfl, rfl, List.forall_mem_nil _⟩

theorem isToken_of_isLiteral (h : k.isLiteral = true) : k.isToken = true := by
  cases k <;> first | rfl | cases h

theorem IsText.produced (h : n.IsText k outline) (hk : k.isLiteral = true)
    (hcell : k = .tableLiteralToken → outline = true) : n.Produced := by
  cases h with
  | @plain t ht =>
    refine .of_tokens (k := .literalText) [t] (.oneOf ?_) ?_
    · rw [ht.kind]
      cases k <;> first | decide | cases hcell rfl | cases hk
    · simpa [ht.kind] using isToken_of_isLiteral hk
  | @pieces ps hne hps =>
    refine ⟨.repeated (by simpa [ofParts] using hne) fun l hl => ?_, fun t ht => ?_⟩
    · obtain ⟨p, hp, rfl⟩ := List.mem_map.1 hl
      refine .oneOf ?_
      cases hps p hp with
      | @run t ht =>
        rw [Element.kind, ht.kind]
        cases k <;> first | decide | cases hk
      | placeholder hn =>
        rw [toElement, Element.kind, hn.kind_eq]
        decide
    · generalize he : Element.token t = e at ht
      cases hps e ht with
      | run hrun =>
        cases he
        rw [hrun.kind]
        exact isToken_of_isLiteral hk
      | placeholder => cases he

theorem IsCell.produced (h : n.IsCell outline) : n.Produced := by
  have htoken (t : Token) (ht : t.kind = .tableLiteralToken) : Produced (ofCell (.token t)) := by
    refine .of_tokens (k := .tableCell) [t] (.oneOf ?_) ?_
    · rw [ht]
      decide
    · simpa [ht] using isToken_of_isLiteral (k := .tableLiteralToken) rfl
  cases h with
  | empty ht => exact htoken _ ht.kind
  | plain ht => exact htoken _ ht.kind
  | @pieces n hn =>
    refine ⟨.oneOf ?_, by simp [ofCell, toElement]⟩
    rw [toElement, Element.kind, hn.kind_eq]
    decide

theorem IsRow.produced (h : n.IsRow outline) : n.Produced := by
  cases h with
  | @mk bar cells hbar hcells hbars hinner =>
    refine ⟨?_, fun t ht => ?_⟩
    · have hpairs : Matches (.star (.char .tableCell * .char .verticalBarToken))
          (cells.map fun c => [c.1.kind, c.2.kind]).flatten := by
        refine .star fun ks hks => ?_
        obtain ⟨c, hc, rfl⟩ := List.mem_map.1 hks
        rw [(hcells c hc).kind_eq, hbars c hc]
        exact .append (.char _) (.char _)
      simpa [production, ofRow, List.flatMap_def, List.map_flatten, Function.comp_def, toElement,
        Element.kind, hbar.kind] using (Matches.char .verticalBarToken).append hpairs
    · have ht : t = bar ∨ ∃ c ∈ cells, t = c.2 := by
        simpa [ofRow, toElement] using ht
      rcases ht with rfl | ⟨c, hc, rfl⟩
      · rw [hbar.kind]
        rfl
      · rw [hbars c hc]
        rfl

theorem IsTable.produced (h : n.IsTable outline) : n.Produced := by
  cases h with
  | @mk rows hne hrows =>
    refine ⟨.repeated (by simpa [ofTable] using hne) fun k hk => ?_,
      fun t ht => absurd ht (by simp [ofTable])⟩
    obtain ⟨r, hr, rfl⟩ : ∃ r ∈ rows, r.kind = k := by
      simpa [ofTable, toElement, Element.kind] using hk
    rw [(hrows r hr).kind_eq]
    exact .char _

theorem IsContentType.produced (h : n.IsContentType) : n.Produced := by
  cases h with
  | @mk t ht =>
    refine .of_tokens (k := .docStringContentType) [t] ?_ ?_
    · rw [List.map_singleton, ht.kind]
      exact .char _
    · rw [List.forall_mem_singleton, ht.kind]
      rfl

theorem matches_text {n : Node} (h : n.kind = .literalText ∨ n.kind = .interpolatedText) :
    Matches (oneOf [.literalText, .interpolatedText]) [n.kind] := by
  refine .oneOf ?_
  rcases h with h | h <;> simp [h]

theorem IsText.kind_eq_or (h : n.IsText k outline) :
    n.kind = .literalText ∨ n.kind = .interpolatedText := by
  cases h with
  | plain => exact .inl rfl
  | pieces => exact .inr rfl

theorem IsDocString.produced (h : n.IsDocString outline) : n.Produced := by
  cases h with
  | @mk first last contentType content hfirst htype hcontent hlast =>
    refine ⟨?_, fun t ht => ?_⟩
    · have htype : Matches (maybe (.char .docStringContentType))
          ((optional contentType).map Element.kind) := by
        refine matches_optional fun m hm => ?_
        rw [(htype m hm).kind_eq]
        exact .char _
      have hcontent : Matches (maybe (oneOf [.literalText, .interpolatedText]))
          ((optional content).map Element.kind) :=
        matches_optional fun m hm => matches_text (hcontent m hm).kind_eq_or
      have hdoc := (((Matches.char .docStringDelimiterToken).append htype).append hcontent).append
        (.char .docStringDelimiterToken)
      simpa [production, ofDocString, Element.kind, hfirst.kind, hlast] using hdoc
    · have ht : t = first ∨ t = last := by
        simpa [ofDocString] using ht
      rcases ht with rfl | rfl
      · rw [hfirst.kind]
        rfl
      · rw [hlast]
        rfl

theorem IsStepText.produced (h : n.IsStepText outline) : n.Produced := by
  cases h with
  | @lacking t ht =>
    refine .of_tokens (k := .literalText) [t] (.oneOf ?_) ?_
    · rw [ht.kind]
      decide
    · simpa [ht.kind] using isToken_of_isLiteral (k := .literalToken) rfl
  | found hn => exact hn.produced rfl nofun

theorem isToken_of_isStepKeyword (h : k.isStepKeyword = true) : k.isToken = true := by
  cases k <;> first | rfl | cases h

theorem IsStep.produced (h : n.IsStep outline) : n.Produced := by
  cases h with
  | @mk k keyword text argument hk hkeyword htext hargument =>
    refine ⟨?_, fun t ht => ?_⟩
    · have hkey : Matches (oneOf (Kind.tokens.filter isStepKeyword)) [k] := by
        refine .oneOf (List.mem_filter.2 ⟨?_, hk⟩)
        simpa [isToken] using isToken_of_isStepKeyword hk
      have hargument : Matches (maybe (oneOf [.table, .docString]))
          ((optional argument).map Element.kind) := by
        refine matches_optional fun m hm => .oneOf ?_
        rcases hargument m hm with h | h <;> simp [h.kind_eq]
      rw [← hkeyword.kind] at hkey
      exact (hkey.append (matches_text htext.kind_eq)).append hargument
    · have ht : t = keyword := by
        simpa [ofStep, toElement] using ht
      rw [ht, hkeyword.kind]
      exact isToken_of_isStepKeyword hk

theorem IsTags.produced (h : n.IsTags) : n.Produced := by
  cases h with
  | mk hne hts => exact .of_repeated (l := .tagToken) rfl rfl hne fun t ht => (hts t ht).kind

theorem IsDescription.produced (h : n.IsDescription) : n.Produced := by
  cases h with
  | mk hne hts => exact .of_repeated (l := .literalToken) rfl rfl hne fun t ht => (hts t ht).kind

theorem IsBackground.produced (h : n.IsBackground) : n.Produced := by
  cases h with
  | @mk h steps hh ht hsteps =>
    refine ⟨?_, fun t ht => ?_⟩
    · have hkey : Matches (.char .backgroundKeyword) [h.keyword.kind] := hh.keyword.kind ▸ .char _
      simpa [production, ofBackground] using
        (hh.toPlain.matches_untagged ht hkey hh.colon.kind).append
          (matches_nodes fun m hm => (hsteps m hm).kind_eq)
    · have ht : Element.token t ∈ h.elements := by simpa [ofBackground] using ht
      exact hh.isToken rfl t ht

theorem IsExamples.produced (h : n.IsExamples) : n.Produced := by
  cases h with
  | @mk h table hh htable =>
    refine ⟨?_, fun t ht => ?_⟩
    · have htable : Matches (maybe (.char .table)) ((optional table).map Element.kind) := by
        refine matches_optional fun m hm => ?_
        rw [(htable m hm).kind_eq]
        exact .char _
      simpa [production, ofExamples] using (hh.matches_elements (.char _)).append htable
    · have ht : Element.token t ∈ h.elements := by simpa [ofExamples] using ht
      exact hh.isToken rfl t ht

theorem IsScenario.produced (h : n.IsScenario) : n.Produced := by
  cases h with
  | @mk outline r h steps examples hr hh houtline hsteps hexamples =>
    refine ⟨?_, fun t ht => ?_⟩
    · have hkey : Matches (oneOf [.scenarioKeyword, .scenarioOutlineKeyword]) [.ofRole r] := by
        refine .oneOf ?_
        rcases Role.eq_of_isScenario hr with rfl | rfl <;> decide
      simpa [production, ofScenario] using ((hh.matches_elements hkey).append
        (matches_nodes fun m hm => (hsteps m hm).kind_eq)).append
        (matches_nodes fun m hm => (hexamples m hm).kind_eq)
    · have ht : Element.token t ∈ h.elements := by simpa [ofScenario] using ht
      refine hh.isToken ?_ t ht
      rcases Role.eq_of_isScenario hr with rfl | rfl <;> rfl

theorem matches_background {n : Option Node} (h : ∀ m ∈ n, m.IsBackground) :
    Matches (maybe (.char .background)) ((optional n).map Element.kind) := by
  refine matches_optional fun m hm => ?_
  rw [(h m hm).kind_eq]
  exact .char _

theorem IsRule.produced (h : n.IsRule) : n.Produced := by
  cases h with
  | @mk h background scenarios hh hbackground hscenarios =>
    refine ⟨?_, fun t ht => ?_⟩
    · simpa [production, ofRule] using ((hh.matches_elements (.char _)).append
        (matches_background hbackground)).append
        (matches_nodes fun m hm => (hscenarios m hm).kind_eq)
    · have ht : Element.token t ∈ h.elements := by simpa [ofRule] using ht
      exact hh.isToken rfl t ht

theorem IsFeature.produced (h : n.IsFeature) : n.Produced := by
  cases h with
  | @mk h background scenarios rules hh hbackground hscenarios hrules =>
    -- the header is the same whether the source has it or not
    have hkeyword : h.keyword.kind = .featureKeyword :=
      hh.elim (fun hh => hh.keyword.kind) fun hh => hh.keyword.kind
    have hcolon : h.colon.kind = .colonToken :=
      hh.elim (fun hh => hh.colon.kind) fun hh => hh.colon.kind
    refine ⟨?_, fun t ht => ?_⟩
    · have hheader : Matches (maybe (.char .tags) * title (.char .featureKeyword))
          (h.elements.map Element.kind) := by
        rcases hh with hh | hh
        · exact hh.matches_elements (.char _)
        · exact hh.toPlain.matches_elements (by simp [hh.tags]) (hkeyword ▸ .char _) hcolon
      simpa [production, ofFeature] using ((hheader.append (matches_background hbackground)).append
        (matches_nodes fun m hm => (hscenarios m hm).kind_eq)).append
        (matches_nodes fun m hm => (hrules m hm).kind_eq)
    · have ht : Element.token t ∈ h.elements := by simpa [ofFeature] using ht
      exact Header.isToken_of_mem_elements (hkeyword ▸ rfl) (hcolon ▸ rfl) t ht

theorem Form.produced (h : n.Form above) : n.Produced := by
  cases h with
  | placeholder h => exact h.produced
  | text h hk hcell => exact h.produced hk hcell
  | cell h => exact h.produced
  | row h => exact h.produced
  | table h => exact h.produced
  | contentType h => exact h.produced
  | docString h => exact h.produced
  | stepText h => exact h.produced
  | step h => exact h.produced
  | tags h => exact h.produced
  | description h => exact h.produced
  | background h => exact h.produced
  | examples h => exact h.produced
  | scenario h => exact h.produced
  | rule h => exact h.produced
  | feature h => exact h.produced
  | document h =>
    cases h with
    | @mk feature eof hfeature heof =>
      refine ⟨?_, fun t ht => ?_⟩
      · have hfeature : Matches (maybe (.char .feature)) ((optional feature).map Element.kind) := by
          refine matches_optional fun m hm => ?_
          rw [(hfeature m hm).kind_eq]
          exact .char _
        simpa [production, ofDocument, Element.kind, heof.kind] using
          hfeature.append (.char .endOfFileToken)
      · have ht : t = eof := by simpa [ofDocument] using ht
        rw [ht, heof.kind]
        rfl

end Node

namespace Element

variable {P : Option Kind → Nat → Node → Prop}

mutual

/-- A tree is derivable if each of its nodes is produced. -/
theorem derivable_of_everywhere (hP : ∀ above o n, P above o n → n.Produced) :
    (e : Element) → (above : Option Kind) → (o : Nat) → (∀ t, e = .token t → t.kind.isToken = true) →
      e.Everywhere P above o → e.Derivable
  | token t, _, _, ht, _ => .token (ht t rfl)
  | node k cs, above, o, _, h => by
    rw [everywhere_node] at h
    have hn := hP _ _ _ h.1
    exact .node hn.children (derivable_of_everywhereAll hP cs (some k) o hn.leaves h.2)

theorem derivable_of_everywhereAll (hP : ∀ above o n, P above o n → n.Produced) :
    (es : List Element) → (above : Option Kind) → (o : Nat) →
      (∀ t, .token t ∈ es → t.kind.isToken = true) → EverywhereAll P above o es →
      ∀ e ∈ es, e.Derivable
  | [], _, _, _, _ => List.forall_mem_nil _
  | e :: es, above, o, ht, h => by
    rw [everywhereAll_cons] at h
    refine List.forall_mem_cons.2 ⟨derivable_of_everywhere hP e above o
      (fun t he => ht t (he ▸ List.mem_cons_self)) h.1, ?_⟩
    exact derivable_of_everywhereAll hP es above _ (fun t he => ht t (List.mem_cons_of_mem e he)) h.2

end

end Element

/-- The tree of a document is a tree of the grammar. -/
theorem derivable_parse (d : Dialect) (text : Text) :
    (parse d text).root.toElement.Derivable :=
  Element.derivable_of_everywhere (fun _ _ _ => Node.Form.produced) _ none 0 nofun
    ((isDocument_parse d text).formed 0)

end GherkinTree
