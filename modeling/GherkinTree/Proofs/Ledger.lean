import GherkinTree.Proofs.SourceLine

/-!
What becomes of each line of a document. A ledger enters every line that a run passes with its
verdict: it is trivia, it is kept or skipped, or it belongs to the body of a doc string. Main
statement: every run has a ledger, in which the tokens of the run lie in kept lines and in bodies, and
the reports of unexpected content in skipped lines and behind tags.
-/

namespace GherkinTree

/-- What became of a line. -/
inductive Verdict where
  | trivia
  | kept
  | skipped
  /-- The line stands between the fences of a doc string. -/
  | content
  deriving DecidableEq, Repr

namespace Verdict

/-- Whether the line is kept or skipped. -/
def isSignificant : Verdict → Bool
  | kept | skipped => true
  | _ => false

theorem ne_content {v : Verdict} (h : v.isSignificant = true) : v ≠ content := by
  rintro rfl
  cases h

end Verdict

/-- A line and what became of it. -/
structure Entry where
  line : SourceLine
  verdict : Verdict
  deriving DecidableEq, Repr

namespace Entry

/-- The fate of a line that is kept or skipped. -/
def fate (e : Entry) : Fate := ⟨e.line.start, e.line.cut, e.verdict == .kept⟩

theorem verdict_of_mem {e : Entry} {l : SourceLine} {v : Verdict} (h : e ∈ [Entry.mk l v]) :
    e.verdict = v := by rw [List.mem_singleton.1 h]

/-- Trivia and content have no fates. -/
theorem fates_eq_nil {es : List Entry} (h : ∀ e ∈ es, e.verdict.isSignificant = false) :
    (es.filter (·.verdict.isSignificant)).map fate = [] := by
  rw [List.map_eq_nil_iff, List.filter_eq_nil_iff]
  intro e he
  simp [h e he]

end Entry

/-- The span of a line without the blanks at both ends. -/
def SourceLine.trimmedSpan (l : SourceLine) : Span :=
  .ofWidth l.start (Text.width (Text.trimEnd l.body))

/-- Whether a report is about content that fits nowhere. -/
def Diagnostic.IsUnexpected (x : Diagnostic) : Prop := ∃ found, x.problem = .unexpectedContent found

theorem Diagnostic.not_isUnexpected_missingToken (o : Nat) (k : Kind) :
    ¬(missingToken o k).IsUnexpected := by
  rintro ⟨found, hfound⟩
  cases hfound

/-- The text of a token that begins at an offset lies in a range. -/
def Token.LiesIn (x : Nat × Token) (start stop : Nat) : Prop :=
  start ≤ x.1 + x.2.leadingWidth ∧ x.1 + x.2.leadingWidth + x.2.width ≤ stop

/-- The tokens of a kept line lie behind the blanks at its start. -/
theorem Kept.liesIn {d : Dialect} {b : Nat} {a : Ahead} {ts : List Token} {es : List Event}
    (h : Kept d a ts es) (hb : a.cursor.StartsAt b) {x : Nat × Token} (hx : x ∈ Token.sites b ts) :
    Token.LiesIn x a.cursor.offset (a.cursor.offset + a.line.width) := by
  obtain ⟨t, us, rfl, hlead, -, -⟩ := h.first
  have hw := congrArg Text.width h.render
  rw [Text.width_append, Trivia.width_render] at hw
  change Token.widthAll (t :: us) = _ + a.line.width at hw
  have hin := Token.bounds_of_mem_sites hx
  have hoff : a.cursor.offset = b + t.leadingWidth := by rw [Token.leadingWidth, hlead]; exact hb
  have hlw : t.leadingWidth = Trivia.widthOf a.cursor.pending := by rw [Token.leadingWidth, hlead]
  have hfull : x.2.fullWidth = x.2.leadingWidth + x.2.width + x.2.trailingWidth := rfl
  refine ⟨?_, by omega⟩
  rcases List.mem_cons.1 hx with rfl | hx
  · exact Nat.le_of_eq hoff
  · have := (Token.bounds_of_mem_sites hx).1
    have hfull' : t.fullWidth = t.leadingWidth + t.width + t.trailingWidth := rfl
    omega

/-- The entries of the lines that a run passes. The run begins with the offset `b`, gains the leaves
`ls` and reports `ds`. -/
structure Ledger (d : Dialect) (b : Nat) (ls : List Leaf) (fs : List Fate) (ds : List Diagnostic)
    (es : List Entry) : Prop where
  fates : fs = (es.filter (·.verdict.isSignificant)).map Entry.fate
  trivia : ∀ e ∈ es, e.verdict ≠ .content → (e.verdict = .trivia ↔ e.line.isTrivial = true)
  /-- A body is some lines that follow one another. -/
  bodies : ∀ sp ∈ Leaf.bodies b ls, ∃ es₁ bs es₂, es = es₁ ++ bs ++ es₂ ∧
    (∀ e ∈ bs, e.verdict = .content) ∧
    ∃ y ∈ bs, ∃ z ∈ bs, sp.start = y.line.offset ∧ sp.stop = z.line.stop
  contents : ∀ e ∈ es, e.verdict = .content →
    ∃ sp ∈ Leaf.bodies b ls, sp.start ≤ e.line.offset ∧ e.line.stop ≤ sp.stop
  /-- A token with some text lies in a kept line or in a body. -/
  tokens : ∀ x ∈ Token.sites b (Leaf.tokensAll ls), x.2.text ≠ [] →
    (∃ e ∈ es, e.verdict = .kept ∧ Token.LiesIn x e.line.start e.line.stop) ∨
      ∃ sp ∈ Leaf.bodies b ls, Token.LiesIn x sp.start sp.stop
  solid : ∀ t ∈ Leaf.tokensAll ls, t.missing = false → t.text ≠ []
  /-- A kept line opens with the token that its kind tells. -/
  opens : ∀ e ∈ es, e.verdict = .kept → ∃ x ∈ Token.sites b (Leaf.tokensAll ls),
    x.2.missing = false ∧ x.1 + x.2.leadingWidth = e.line.start ∧
      (d.classify e.line.body).Opens e.line.body x.2
  skips : ∀ e ∈ es, e.verdict = .skipped →
    ∃ x ∈ ds, x.IsUnexpected ∧ x.span = e.line.trimmedSpan
  unexpected : ∀ x ∈ ds, x.IsUnexpected →
    (∃ e ∈ es, e.verdict = .skipped ∧ x.span = e.line.trimmedSpan) ∨
      ∃ e ∈ es, e.verdict = .kept ∧ e.line.start < x.span.start ∧ x.span.start < e.line.stop

namespace Ledger

variable {d : Dialect} {b : Nat} {ls ls' : List Leaf} {fs fs' : List Fate}
  {ds ds' : List Diagnostic} {es es' : List Entry}

theorem append (h : Ledger d b ls fs ds es)
    (h' : Ledger d (b + Token.widthAll (Leaf.tokensAll ls)) ls' fs' ds' es') :
    Ledger d b (ls ++ ls') (fs ++ fs') (ds ++ ds') (es ++ es') where
  fates := by rw [h.fates, h'.fates, List.filter_append, List.map_append]
  trivia e he := (List.mem_append.1 he).elim (h.trivia e) (h'.trivia e)
  bodies sp hsp := by
    rw [Leaf.bodies_append, List.mem_append] at hsp
    rcases hsp with hsp | hsp
    · obtain ⟨es₁, bs, es₂, rfl, hbs⟩ := h.bodies sp hsp
      exact ⟨es₁, bs, es₂ ++ es', by simp, hbs⟩
    · obtain ⟨es₁, bs, es₂, rfl, hbs⟩ := h'.bodies sp hsp
      exact ⟨es ++ es₁, bs, es₂, by simp, hbs⟩
  contents e he hv := by
    simp only [Leaf.bodies_append, List.mem_append]
    rcases List.mem_append.1 he with he | he
    · obtain ⟨sp, hsp, hin⟩ := h.contents e he hv
      exact ⟨sp, .inl hsp, hin⟩
    · obtain ⟨sp, hsp, hin⟩ := h'.contents e he hv
      exact ⟨sp, .inr hsp, hin⟩
  tokens x hx ht := by
    rw [Leaf.tokensAll_append, Token.sites_append, List.mem_append] at hx
    simp only [Leaf.bodies_append, List.mem_append]
    rcases hx with hx | hx
    · rcases h.tokens x hx ht with ⟨e, he, hin⟩ | ⟨sp, hsp, hin⟩
      · exact .inl ⟨e, .inl he, hin⟩
      · exact .inr ⟨sp, .inl hsp, hin⟩
    · rcases h'.tokens x hx ht with ⟨e, he, hin⟩ | ⟨sp, hsp, hin⟩
      · exact .inl ⟨e, .inr he, hin⟩
      · exact .inr ⟨sp, .inr hsp, hin⟩
  solid t ht := by
    rw [Leaf.tokensAll_append, List.mem_append] at ht
    exact ht.elim (h.solid t) (h'.solid t)
  opens e he hv := by
    simp only [Leaf.tokensAll_append, Token.sites_append, List.mem_append]
    rcases List.mem_append.1 he with he | he
    · obtain ⟨x, hx, ho⟩ := h.opens e he hv
      exact ⟨x, .inl hx, ho⟩
    · obtain ⟨x, hx, ho⟩ := h'.opens e he hv
      exact ⟨x, .inr hx, ho⟩
  skips e he hv := by
    simp only [List.mem_append]
    rcases List.mem_append.1 he with he | he
    · obtain ⟨x, hx, ho⟩ := h.skips e he hv
      exact ⟨x, .inl hx, ho⟩
    · obtain ⟨x, hx, ho⟩ := h'.skips e he hv
      exact ⟨x, .inr hx, ho⟩
  unexpected x hx hu := by
    simp only [List.mem_append]
    rcases List.mem_append.1 hx with hx | hx
    · rcases h.unexpected x hx hu with ⟨e, he, hin⟩ | ⟨e, he, hin⟩
      · exact .inl ⟨e, .inl he, hin⟩
      · exact .inr ⟨e, .inl he, hin⟩
    · rcases h'.unexpected x hx hu with ⟨e, he, hin⟩ | ⟨e, he, hin⟩
      · exact .inl ⟨e, .inr he, hin⟩
      · exact .inr ⟨e, .inr he, hin⟩

/-- Lines that are passed as trivia. -/
def triviaOf (ts : List SourceLine) : List Entry := ts.map fun l => ⟨l, .trivia⟩

theorem of_preamble (d : Dialect) (b : Nat) {ts : List SourceLine} {ds : List Diagnostic}
    (h : ∀ t ∈ ts, t.isTrivial = true) (hx : ∀ x ∈ ds, ¬x.IsUnexpected) :
    Ledger d b [] [] ds (triviaOf ts) := by
  have hv : ∀ e ∈ triviaOf ts, e.verdict = .trivia ∧ e.line.isTrivial = true := by
    intro e he
    obtain ⟨l, hl, rfl⟩ := List.mem_map.1 he
    exact ⟨rfl, h l hl⟩
  constructor
  case fates => exact (Entry.fates_eq_nil fun e he => by rw [(hv e he).1]; rfl).symm
  case trivia => exact fun e he _ => ⟨fun _ => (hv e he).2, fun _ => (hv e he).1⟩
  case bodies => exact nofun
  case contents => exact fun e he hc => nomatch (hv e he).1.symm.trans hc
  case tokens => exact nofun
  case solid => exact nofun
  case opens => exact fun e he hc => nomatch (hv e he).1.symm.trans hc
  case skips => exact fun e he hc => nomatch (hv e he).1.symm.trans hc
  case unexpected => exact fun x hm hu => absurd hu (hx x hm)

theorem of_trivia (d : Dialect) (b : Nat) {ts : List SourceLine}
    (h : ∀ t ∈ ts, t.isTrivial = true) : Ledger d b [] [] [] (triviaOf ts) :=
  of_preamble d b h nofun

theorem nil (d : Dialect) (b : Nat) : Ledger d b [] [] [] [] :=
  of_trivia d b (fun _ h => absurd h List.not_mem_nil)

/-- No lines are passed, and no token with some text is gained. -/
theorem of_absent (d : Dialect) (b : Nat) (ts : List Token) {x : Diagnostic}
    (ht : ∀ t ∈ ts, t.missing = true ∧ t.text = []) (hx : ¬x.IsUnexpected) :
    Ledger d b (ts.map .token) [] [x] [] where
  fates := rfl
  trivia := nofun
  bodies := by rw [Leaf.bodies_map_token]; nofun
  contents := nofun
  tokens y hy hn := by
    rw [Leaf.tokensAll_map_token] at hy
    exact absurd (ht y.2 (Token.mem_of_mem_sites hy)).2 hn
  solid t hm hp := by
    rw [Leaf.tokensAll_map_token] at hm
    rw [(ht t hm).1] at hp
    cases hp
  opens := nofun
  skips := nofun
  unexpected y hy hu := by
    rw [List.mem_singleton.1 hy] at hu
    exact absurd hu hx

theorem of_skip (d : Dialect) (b : Nat) {l : SourceLine} (h : l.isTrivial = false)
    (found : String) :
    Ledger d b [] [⟨l.start, l.cut, false⟩] [.unexpectedContent l.trimmedSpan found]
      [⟨l, .skipped⟩] where
  fates := rfl
  trivia e he _ := by
    rw [List.mem_singleton.1 he]
    simp [h]
  bodies := nofun
  contents e he hv := nomatch (Entry.verdict_of_mem he).symm.trans hv
  tokens := nofun
  solid := nofun
  opens e he hv := nomatch (Entry.verdict_of_mem he).symm.trans hv
  skips e he _ := by
    rw [List.mem_singleton.1 he]
    exact ⟨_, List.mem_singleton_self _, ⟨found, rfl⟩, rfl⟩
  unexpected x hx _ := by
    rw [List.mem_singleton.1 hx]
    exact .inl ⟨_, List.mem_singleton_self _, rfl, rfl⟩

theorem of_keep {a : Ahead} {ts : List Token} {evs : List Event} {l : SourceLine}
    (hd : d.Proper) (h : Kept d a ts evs) (hk : a.kind = d.classify a.line.content)
    (hb : a.cursor.StartsAt b) (hl : l.isTrivial = false) (ho : a.cursor.offset = l.start)
    (hc : a.line = l.cut) :
    Ledger d b (ts.map .token) [a.fate true] (evs.filterMap Event.diagnostic?) [⟨l, .kept⟩] where
  fates := by
    rw [Ahead.fate, ho, hc]
    rfl
  trivia e he _ := by
    rw [List.mem_singleton.1 he]
    simp [hl]
  bodies := by
    rw [Leaf.bodies_map_token]
    nofun
  contents e he hv := nomatch (Entry.verdict_of_mem he).symm.trans hv
  tokens x hx _ := by
    rw [Leaf.tokensAll_map_token] at hx
    have hin := h.liesIn hb hx
    rw [ho, hc, l.start_add_width] at hin
    exact .inl ⟨_, List.mem_singleton_self _, rfl, hin⟩
  solid t ht hm := by
    rw [Leaf.tokensAll_map_token] at ht
    exact h.solid hd t ht hm
  opens e he _ := by
    obtain ⟨t, us, rfl, hlead, hpresent, hopens⟩ := h.first
    rw [List.mem_singleton.1 he, Leaf.tokensAll_map_token]
    refine ⟨(b, t), List.mem_cons_self, hpresent, ?_, ?_⟩
    · rw [Token.leadingWidth, hlead, ← ho]
      exact hb.symm
    · rw [hk, hc] at hopens
      exact hopens
  skips e he hv := nomatch (Entry.verdict_of_mem he).symm.trans hv
  unexpected x hx hu := by
    obtain ⟨found, hu⟩ := hu
    rcases h.brief with rfl | ⟨e, y, rfl, hy, hlt, hstop, hsolid, -⟩
    · cases hx
    · rw [List.filterMap_cons, hy] at hx
      cases List.mem_singleton.1 hx
      have hsolid : x.span.start < x.span.stop := by
        rcases hsolid with hs | ⟨k, hk⟩
        · exact hs
        · rw [hu] at hk
          cases hk
      rw [ho, hc, l.start_add_width] at hstop
      exact .inr ⟨_, List.mem_singleton_self _, rfl, ho ▸ hlt, Nat.lt_of_lt_of_le hsolid hstop⟩

/-- Lines between the fences of a doc string. -/
def contentOf (ts : List SourceLine) : List Entry := ts.map fun l => ⟨l, .content⟩

theorem of_content (d : Dialect) {e : Element} {body : List Line} (h : Content e (Line.join body))
    (o : Nat) : Ledger d o [.content e] [] [] (contentOf (SourceLine.listFrom o body)) := by
  have hw : e.fullWidth = Text.width (Line.join body) := by rw [← h.render, Element.width_render]
  have hv : ∀ y ∈ contentOf (SourceLine.listFrom o body), y.verdict = .content ∧
      y.line ∈ SourceLine.listFrom o body := by
    intro y hy
    obtain ⟨l, hl, rfl⟩ := List.mem_map.1 hy
    exact ⟨rfl, hl⟩
  have hspan : Leaf.bodies o [.content e] = [.ofWidth o (Text.width (Line.join body))] := by
    simp [Leaf.bodies, h.bodies, hw]
  constructor
  case fates => exact (Entry.fates_eq_nil fun y hy => by rw [(hv y hy).1]; rfl).symm
  case trivia => exact fun y hy hc => absurd (hv y hy).1 hc
  case bodies =>
    intro sp hsp
    rw [hspan, List.mem_singleton] at hsp
    have hne : body ≠ [] := by
      rintro rfl
      exact h.nonempty rfl
    obtain ⟨y, hy, z, hz, hstart, hstop⟩ := SourceLine.exists_ends hne o
    refine ⟨[], _, [], by simp, fun y hy => (hv y hy).1, ⟨y, .content⟩, List.mem_map_of_mem hy,
      ⟨z, .content⟩, List.mem_map_of_mem hz, ?_, ?_⟩
    · rw [hsp]
      exact hstart.symm
    · rw [hsp]
      exact hstop.symm
  case contents =>
    intro y hy _
    have hin := SourceLine.bounds_of_mem_listFrom (hv y hy).2
    exact ⟨_, by rw [hspan]; exact List.mem_singleton_self _, hin⟩
  case tokens =>
    intro x hx _
    rw [hspan]
    refine .inr ⟨_, List.mem_singleton_self _, ?_⟩
    have hin := Token.bounds_of_mem_sites hx
    have htok : Leaf.tokensAll [.content e] = e.tokens := by simp [Leaf.tokens]
    rw [htok, Element.widthAll_tokens, hw] at hin
    have hfull : x.2.fullWidth = x.2.leadingWidth + x.2.width + x.2.trailingWidth := rfl
    simp only [Token.LiesIn, Span.start_ofWidth, Span.stop_ofWidth]
    omega
  case solid =>
    intro t ht _
    exact (h.tokens t (by simpa [Leaf.tokens] using ht)).2.2.2
  case opens => exact fun y hy hc => nomatch (hv y hy).1.symm.trans hc
  case skips => exact fun y hy hc => nomatch (hv y hy).1.symm.trans hc
  case unexpected => exact nofun

@[simp] theorem map_line_triviaOf (ts : List SourceLine) :
    (triviaOf ts).map Entry.line = ts := by simp [triviaOf, Function.comp_def]

@[simp] theorem map_line_contentOf (ts : List SourceLine) :
    (contentOf ts).map Entry.line = ts := by simp [contentOf, Function.comp_def]

end Ledger

section Moves

variable {d : Dialect} {s s' : Scope} {c c' : Cursor} {ls : List Leaf} {fs : List Fate} {b : Nat}
  {rs : List SourceLine}

/-- A move enters the lines that it passes. -/
theorem Move.ledger (hd : d.Proper) (h : Move d s c ls fs s' c') (hb : c.StartsAt b)
    (hf : Faces s.place.isFence rs c) (hpos : ∀ l ∈ rs, 0 < l.line.width) :
    ∃ es rs' ds, rs = es.map Entry.line ++ rs' ∧ Faces s'.place.isFence rs' c' ∧
      c'.reported = c.reported ++ ds ∧ Ledger d b ls fs ds es := by
  cases h with
  | advance =>
    obtain ⟨ts, rs', rfl, hts, hf'⟩ := hf.advance
    exact ⟨Ledger.triviaOf ts, rs', [], by simp, hf', by simp [Cursor.reported],
      .of_trivia d b hts⟩
  | @skip a ahead _ =>
    obtain ⟨ts, l, rfl, hts, hl, ho, hc⟩ := hf.ahead ahead
    have hstop : a.skip.offset = l.stop := by
      rw [← l.start_add_width, ← ho, ← hc]
      rfl
    refine ⟨Ledger.triviaOf ts ++ [⟨l, .skipped⟩], _,
      [.unexpectedContent l.trimmedSpan a.kind.describe], by simp, .of_offset _ hstop, ?_, ?_⟩
    · rw [← Dialect.reported_of_peek? ahead, SourceLine.trimmedSpan, ← ho]
      have hbody : l.body = a.line.content := by rw [hc]; rfl
      rw [hbody]
      exact List.filterMap_append
    · have hskip := Ledger.of_skip d b hl a.kind.describe
      rw [← ho, ← hc] at hskip
      exact (Ledger.of_trivia d b hts).append hskip
  | @keep a ts es ahead _ kept =>
    obtain ⟨us, l, rfl, hus, hl, ho, hc⟩ := hf.ahead ahead
    have hstop : (a.take es).offset = l.stop := by
      rw [← l.start_add_width, ← ho, ← hc]
      rfl
    have hkeep := Ledger.of_keep hd kept (Dialect.fits_of_peek? ahead).kind
      (Dialect.startsAt_of_peek? ahead hb) hl ho hc
    refine ⟨Ledger.triviaOf us ++ [⟨l, .kept⟩], _, es.filterMap Event.diagnostic?, by simp,
      .of_offset _ hstop, ?_, ?_⟩
    · rw [← Dialect.reported_of_peek? ahead]
      exact List.filterMap_append
    · exact (Ledger.of_trivia d b hus).append hkeep
  | imply place _ =>
    rw [place] at hf
    refine ⟨[], rs, [.missingToken c.offset .featureKeyword], rfl, ?_, List.filterMap_append, ?_⟩
    · rw [place]
      exact hf.of_eq rfl rfl
    · exact .of_absent d b [_, _] (by simp [Token.absent])
        (Diagnostic.not_isUnexpected_missingToken _ _)
  | @content f body rest _ place pending lines leaf =>
    rw [place] at hf
    have hoff : c.offset = b := by simpa [Cursor.StartsAt, pending] using hb
    cases hf with
    | inside _ _ _ hp => exact absurd pending (hp rfl)
    | between =>
      rw [lines, SourceLine.listFrom_append, hoff] at hpos ⊢
      refine ⟨Ledger.contentOf (SourceLine.listFrom b body), _, [], by rw [Ledger.map_line_contentOf],
        .of_offset _ rfl, by simp [Cursor.reported], ?_⟩
      rcases leaf with ⟨rfl, he⟩ | ⟨e, rfl, hc⟩
      · have hbody : body = [] := by
          cases body with
          | nil => rfl
          | cons l ls =>
            have hl : 0 < l.width := hpos ⟨b, l⟩ (by simp [SourceLine.listFrom])
            rw [Line.join_cons, List.append_eq_nil_iff] at he
            simp [Line.width, he.1] at hl
        rw [hbody]
        exact .nil d b
      · exact .of_content d hc b
  | unclosed place _ lines =>
    rw [hf.nil_of_lines lines]
    have hnone : SourceLine.listFrom c.offset c.lines = [] := by rw [lines]; rfl
    refine ⟨[], [], [.missingToken c.offset .docStringDelimiterToken], rfl, ?_,
      List.filterMap_append, ?_⟩
    · rw [← hnone]
      exact .between (c.report _)
    · exact .of_absent d b [_] (by simp [Token.absent])
        (Diagnostic.not_isUnexpected_missingToken _ _)

/-- A run enters the lines that it passes. -/
theorem Run.ledger (hd : d.Proper) (h : Run d s c ls fs s' c') (hb : c.StartsAt b)
    (hf : Faces s.place.isFence rs c) (hpos : ∀ l ∈ rs, 0 < l.line.width) :
    ∃ es rs' ds, rs = es.map Entry.line ++ rs' ∧ Faces s'.place.isFence rs' c' ∧
      c'.reported = c.reported ++ ds ∧ Ledger d b ls fs ds es := by
  induction h generalizing b rs with
  | done => exact ⟨[], rs, [], rfl, hf, by simp, .nil d b⟩
  | move first _ ih =>
    obtain ⟨es, rs₁, ds, rfl, hf₁, hds, hl⟩ := first.ledger hd hb hf hpos
    obtain ⟨es', rs₂, ds', rfl, hf₂, hds', hl'⟩ :=
      ih (first.startsAt hb) hf₁ fun l hl => hpos l (List.mem_append_right _ hl)
    refine ⟨es ++ es', rs₂, ds ++ ds', by simp, hf₂, ?_, hl.append hl'⟩
    rw [hds', hds, List.append_assoc]

end Moves

end GherkinTree
