import GherkinTree.Proofs.Leaf

/-!
What a tree says about its document. Skipped lines and directives with unknown languages stand in
front of tokens, skipped text stands behind tags, and a token may be lacking; each of them is worth
a diagnostic, in the order of the tree. Main statement: the diagnostics of a run of tokens depend on
the tokens and on the offset of the first of them only.
-/

namespace GherkinTree

namespace Trivia

/-- What is wrong with a piece in front of a token. -/
def problem? (d : Dialect) (p : Trivia) : Option Problem :=
  match p.kind with
  | .skippedText => some (.unexpectedContent (d.classify p.text).describe)
  | .languageDirective =>
    p.language?.bind fun code =>
      if Dialect.bundled.any (·.code == String.ofList code) then none
      else some (.unknownLanguage (String.ofList code))
  | _ => none

/-- What is wrong with a piece behind a token. -/
def problemBehind? (p : Trivia) : Option Problem :=
  if p.kind = .skippedText then some (.unexpectedContent "text after tags") else none

/-- The problems of pieces, each at the span of its piece. -/
def located (problem : Trivia → Option Problem) (ps : List Trivia) (spans : List Span) :
    List Diagnostic :=
  (ps.zip spans).filterMap fun p => (problem p.1).map fun x => ⟨p.2, x⟩

/-- The problems of pieces that stand one behind the other from an offset on. -/
def reports (problem : Trivia → Option Problem) (offset : Nat) (ps : List Trivia) :
    List Diagnostic := located problem ps (PlacedToken.triviaSpans offset ps)

@[simp] theorem reports_nil (f : Trivia → Option Problem) (o : Nat) : reports f o [] = [] := rfl

theorem reports_cons (f : Trivia → Option Problem) (o : Nat) (p : Trivia) (ps : List Trivia) :
    reports f o (p :: ps) =
      ((f p).map fun x => (⟨.ofWidth o p.width, x⟩ : Diagnostic)).toList ++
        reports f (o + p.width) ps := by
  cases hp : f p <;>
    simp [reports, located, PlacedToken.triviaSpans, hp]

theorem reports_append (f : Trivia → Option Problem) (o : Nat) (ps qs : List Trivia) :
    reports f o (ps ++ qs) = reports f o ps ++ reports f (o + widthOf ps) qs := by
  induction ps generalizing o with
  | nil => simp
  | cons p ps ih => simp [reports_cons, ih, Nat.add_assoc]

theorem reports_eq_nil {f : Trivia → Option Problem} {ps : List Trivia}
    (h : ∀ p ∈ ps, f p = none) (o : Nat) : reports f o ps = [] := by
  induction ps generalizing o with
  | nil => rfl
  | cons p ps ih =>
    rw [reports_cons, h p List.mem_cons_self, ih fun q hq => h q (List.mem_cons_of_mem p hq)]
    rfl

/-- Pieces of the kinds that are always in order. -/
def Quiet (ps : List Trivia) : Prop :=
  ∀ p ∈ ps, p.kind ≠ .skippedText ∧ p.kind ≠ .languageDirective

theorem quiet_nil : Quiet [] := fun _ h => nomatch h

theorem Quiet.append {ps qs : List Trivia} (hp : Quiet ps) (hq : Quiet qs) : Quiet (ps ++ qs) := by
  intro p h
  rcases List.mem_append.1 h with h | h
  · exact hp p h
  · exact hq p h

theorem quiet_piece {k : TriviaKind} (h : k ≠ .skippedText ∧ k ≠ .languageDirective) (t : Text) :
    Quiet (piece k t) := by
  intro p hp
  unfold piece at hp
  split at hp
  · cases hp
  · cases List.mem_singleton.1 hp
    exact h

theorem quiet_blanks (t : Text) : Quiet (piece .whitespace t) := quiet_piece (by decide) t

theorem quiet_lineEnd (t e : Text) : Quiet (lineEnd t e) :=
  (quiet_blanks t).append (quiet_piece (by decide) e)

/-- Pieces none of which is a directive. -/
def Undirected (ps : List Trivia) : Prop := ∀ p ∈ ps, p.kind ≠ .languageDirective

theorem undirected_nil : Undirected [] := List.forall_mem_nil _

theorem Undirected.append {ps qs : List Trivia} (hp : Undirected ps) (hq : Undirected qs) :
    Undirected (ps ++ qs) := List.forall_mem_append.2 ⟨hp, hq⟩

theorem Quiet.undirected {ps : List Trivia} (h : Quiet ps) : Undirected ps :=
  fun p hp => (h p hp).2

theorem undirected_piece {k : TriviaKind} (h : k ≠ .languageDirective) (t : Text) :
    Undirected (piece k t) := by
  unfold piece
  split
  · exact undirected_nil
  · exact List.forall_mem_singleton.2 h

theorem Quiet.shows_nothing {ps : List Trivia} (h : Quiet ps) (d : Dialect) (o : Nat) :
    reports (problem? d) o ps = [] := by
  refine reports_eq_nil (fun p hp => ?_) o
  obtain ⟨hs, hl⟩ := h p hp
  unfold problem?
  split <;> simp_all

theorem Quiet.shows_nothing_behind {ps : List Trivia} (h : Quiet ps) (o : Nat) :
    reports problemBehind? o ps = [] :=
  reports_eq_nil (fun p hp => by simp [problemBehind?, (h p hp).1]) o

end Trivia

namespace Token

/-- Whether the lack of a token is reported. The colon of an implied feature and the text of an
empty cell are lacking without being a fault. -/
def isReported (t : Token) : Bool :=
  t.missing && t.kind != .colonToken && t.kind != .tableLiteralToken

/-- The diagnostics of a token that begins at an offset. -/
def diagnosticsAt (d : Dialect) (offset : Nat) (t : Token) : List Diagnostic :=
  Trivia.reports (Trivia.problem? d) offset t.leading ++
    (if t.isReported then
      [⟨.ofWidth (offset + t.leadingWidth) t.width, .missingToken t.kind⟩] else []) ++
    Trivia.reports Trivia.problemBehind? (offset + t.leadingWidth + t.width) t.trailing

/-- The diagnostics of tokens that stand one behind the other from an offset on. -/
def diagnosticsAll (d : Dialect) (offset : Nat) (ts : List Token) : List Diagnostic :=
  (sites offset ts).flatMap fun x => x.2.diagnosticsAt d x.1

@[simp] theorem diagnosticsAll_nil (d : Dialect) (o : Nat) : diagnosticsAll d o [] = [] := rfl
@[simp] theorem diagnosticsAll_cons (d : Dialect) (o : Nat) (t : Token) (ts : List Token) :
    diagnosticsAll d o (t :: ts) =
      t.diagnosticsAt d o ++ diagnosticsAll d (o + t.fullWidth) ts := rfl

theorem diagnosticsAll_append (d : Dialect) (o : Nat) (ts us : List Token) :
    diagnosticsAll d o (ts ++ us) =
      diagnosticsAll d o ts ++ diagnosticsAll d (o + widthAll ts) us := by
  simp [diagnosticsAll, sites_append]

/-- A token that nothing is wrong with. -/
structure Quiet (t : Token) : Prop where
  leading : Trivia.Quiet t.leading
  trailing : Trivia.Quiet t.trailing
  present : t.isReported = false

theorem Quiet.diagnosticsAt {t : Token} (h : t.Quiet) (d : Dialect) (o : Nat) :
    t.diagnosticsAt d o = [] := by
  simp [Token.diagnosticsAt, h.leading.shows_nothing, h.trailing.shows_nothing_behind, h.present]

theorem diagnosticsAll_eq_nil {ts : List Token} (h : ∀ t ∈ ts, t.Quiet) (d : Dialect) (o : Nat) :
    diagnosticsAll d o ts = [] := by
  rw [diagnosticsAll, List.flatMap_eq_nil_iff]
  exact fun x hx => (h x.2 (mem_of_mem_sites hx)).diagnosticsAt d x.1

/-- A present token with nothing wrong behind it shows what the trivia in front of it shows. -/
theorem diagnosticsAt_of_trailing {t : Token} (ht : Trivia.Quiet t.trailing)
    (hr : t.isReported = false) (d : Dialect) (o : Nat) :
    t.diagnosticsAt d o = Trivia.reports (Trivia.problem? d) o t.leading := by
  simp [diagnosticsAt, ht.shows_nothing_behind, hr]

end Token

namespace PlacedToken

/-- The diagnostics that a token and its trivia show: what stands in front of it, whether it is
lacking itself, and what stands behind it. -/
def diagnostics (d : Dialect) (t : PlacedToken) : List Diagnostic :=
  Trivia.located (Trivia.problem? d) t.token.leading t.leadingSpans ++
    (if t.token.isReported then [⟨t.span, .missingToken t.kind⟩] else []) ++
    Trivia.located Trivia.problemBehind? t.token.trailing t.trailingSpans

end PlacedToken

/-- The diagnostics that the tree of a document shows, in the order of its tokens. -/
def FeatureFile.shownDiagnostics (f : FeatureFile) : List Diagnostic :=
  f.root.descendantTokens.flatMap (PlacedToken.diagnostics f.dialect)

theorem FeatureFile.shownDiagnostics_eq (f : FeatureFile) :
    f.shownDiagnostics =
      Token.diagnosticsAll f.dialect 0 (Leaf.tokensAll f.tree.leaves) := by
  have h := f.root.sites_descendantTokens
  have ht : Leaf.tokensAll f.tree.leaves = Element.tokensAll f.tree.children := by
    rw [Node.leaves, Element.tokensAll_leaves, Node.toElement, Element.tokens_node]
  rw [ht, Token.diagnosticsAll]
  change _ = (Token.sites f.root.offset (Element.tokensAll f.root.node.children)).flatMap _
  rw [← h, List.flatMap_map]
  rfl

end GherkinTree
