import GherkinTree.Proofs.RoundTrip

/-!
The diagnostics of a document and its tree. What the reader reports while it runs is what the tokens
and their trivia show, token by token, and every report lies behind the one before it, so that
sorting by position changes nothing. Main statement: what is reported while a document is read is
what its tree shows, and its spans strictly increase.
-/

namespace GherkinTree

variable {d : Dialect} {s s' : Scope} {c c' : Cursor} {ls : List Leaf} {fs : List Fate} {b : Nat}

/-- The pending trivia begins at an offset. -/
def Cursor.StartsAt (c : Cursor) (b : Nat) : Prop := c.offset = b + Trivia.widthOf c.pending

/-- What has been reported so far. -/
def Cursor.reported (c : Cursor) : List Diagnostic := c.events.filterMap Event.diagnostic?

/-- No move changes where the document ends. -/
theorem Move.offset_add_width (h : Move d s c ls fs s' c') :
    c'.offset + Text.width (Line.join c'.lines) = c.offset + Text.width (Line.join c.lines) := by
  have hadv : c.advance.offset + Text.width (Line.join c.advance.lines) =
      c.offset + Text.width (Line.join c.lines) := by
    have := congrArg Text.width (Cursor.render_cutTrivia c.lines)
    rw [Text.width_append, Trivia.width_render] at this
    rw [Cursor.offset_advance, Cursor.lines_advance]
    omega
  have htail {a : Ahead} (ha : d.peek? c = some a) :
      a.cursor.offset + a.line.width + Text.width (Line.join a.cursor.lines.tail) =
        c.offset + Text.width (Line.join c.lines) := by
    have hf := Dialect.fits_of_peek? ha
    rw [← hadv, ← hf.cursor, hf.lines, Line.join_cons, Text.width_append, List.tail_cons,
      Nat.add_assoc]
    rfl
  cases h with
  | advance => exact hadv
  | skip ahead => exact htail ahead
  | keep ahead => exact htail ahead
  | imply => rfl
  | content _ _ lines =>
    rw [lines, Line.join_append, Text.width_append]
    dsimp only
    omega
  | unclosed => rfl

theorem Move.startsAt (h : Move d s c ls fs s' c') (hb : c.StartsAt b) :
    c'.StartsAt (b + Token.widthAll (Leaf.tokensAll ls)) := by
  have hw := congrArg Text.width h.render
  have ho := h.offset_add_width
  simp only [Cursor.text, Text.width_append, Trivia.width_render] at hw
  unfold Cursor.StartsAt Token.widthAll at *
  omega

theorem Cursor.quiet_cutTrivia (ls : List Line) : Trivia.Quiet (cutTrivia ls).1 := by
  fun_induction cutTrivia ls with
  | case1 => exact Trivia.quiet_nil
  | case2 l ls h ts rest hc ih =>
    rw [hc] at ih
    exact (((Trivia.quiet_blanks _).append (Trivia.quiet_piece (by decide) _)).append
      (Trivia.quiet_lineEnd _ _)).append ih
  | case3 l ls h => exact Trivia.quiet_blanks _

/-- The line ahead begins where the pending trivia ends. -/
theorem Dialect.startsAt_of_peek? {a : Ahead} (h : d.peek? c = some a) (hb : c.StartsAt b) :
    a.cursor.StartsAt b := by
  have := (Move.advance (d := d) .initial c).startsAt hb
  rw [(fits_of_peek? h).cursor]
  simpa using this

/-- Nothing is reported on the way to the line ahead. -/
theorem Dialect.reported_of_peek? {a : Ahead} (h : d.peek? c = some a) :
    a.cursor.reported = c.reported := by
  rw [(fits_of_peek? h).cursor]
  rfl

/-- Blank lines and comments on the way to the line ahead show nothing. -/
theorem Dialect.reports_of_peek? {a : Ahead} (h : d.peek? c = some a) (b : Nat) :
    Trivia.reports (Trivia.problem? d) b a.cursor.pending =
      Trivia.reports (Trivia.problem? d) b c.pending := by
  rw [(fits_of_peek? h).cursor, Cursor.pending_advance, Trivia.reports_append,
    (Cursor.quiet_cutTrivia c.lines).shows_nothing, List.append_nil]

/-- A skipped line shows what it is reported as. -/
theorem Ahead.reports_skip {a : Ahead} (hd : d.Proper) (hf : a.Fits d c) :
    Trivia.reports (Trivia.problem? d) a.cursor.offset (a.line.pieces .skippedText) =
      [.unexpectedContent (.ofWidth a.cursor.offset (Text.width (Text.trimEnd a.line.content)))
        a.kind.describe] := by
  rw [Trivia.reports_pieces, hf.begins.leadingBlanks, Text.trim, hf.begins.trimStart, Trivia.piece,
    if_neg (by simpa using hf.begins.trimEnd_ne_nil), Trivia.reports_cons, Trivia.problem?,
    hd.describe_trimEnd hf.begins, hf.kind]
  rfl

/-- A move reports what the tokens it gains and the trivia it leaves pending show. -/
theorem Move.shows (hd : d.Proper) (h : Move d s c ls fs s' c') (hb : c.StartsAt b)
    (old : List Diagnostic)
    (he : c.reported = old ++ Trivia.reports (Trivia.problem? d) b c.pending) :
    c'.reported = old ++ Token.diagnosticsAll d b (Leaf.tokensAll ls) ++
      Trivia.reports (Trivia.problem? d) (b + Token.widthAll (Leaf.tokensAll ls)) c'.pending := by
  cases h with
  | advance =>
    rw [Leaf.tokensAll_nil, Token.widthAll_nil, Token.diagnosticsAll_nil, List.append_nil,
      Cursor.pending_advance, Trivia.reports_append, (Cursor.quiet_cutTrivia c.lines).shows_nothing,
      List.append_nil]
    exact he
  | @skip a ahead _ =>
    have hf := Dialect.fits_of_peek? ahead
    have hstart : a.cursor.StartsAt b := Dialect.startsAt_of_peek? ahead hb
    have hev := Dialect.reported_of_peek? ahead
    change (a.cursor.events ++ [_]).filterMap _ = _
    rw [List.filterMap_append, Leaf.tokensAll_nil, Token.widthAll_nil, Token.diagnosticsAll_nil,
      List.append_nil, Nat.add_zero]
    change a.cursor.reported ++ _ = old ++ Trivia.reports _ b (a.cursor.pending ++ _)
    rw [Trivia.reports_append, ← hstart, Ahead.reports_skip hd hf, Dialect.reports_of_peek? ahead,
      hev, he, List.append_assoc]
    rfl
  | @keep a ts es ahead _ kept =>
    have hf := Dialect.fits_of_peek? ahead
    have hstart : a.cursor.StartsAt b := Dialect.startsAt_of_peek? ahead hb
    have hev := Dialect.reported_of_peek? ahead
    rw [Leaf.tokensAll_map_token, kept.shows b hstart.symm, Dialect.reports_of_peek? ahead]
    change (a.cursor.events ++ es).filterMap _ = _
    rw [List.filterMap_append]
    change a.cursor.reported ++ _ = _
    rw [hev, he]
    simp
  | imply =>
    change (c.events ++ [_]).filterMap _ = _
    rw [List.filterMap_append]
    change c.reported ++ [.missingToken c.offset .featureKeyword] = _
    rw [he]
    have ho : c.offset = b + Trivia.widthOf c.pending := hb
    simp [Leaf.tokens, Token.diagnosticsAt, Token.absent, Token.isReported, Token.leadingWidth,
      Token.width, Diagnostic.missingToken, Span.empty, Span.ofWidth, ho]
  | content _ pending _ leaf =>
    have hq : ∀ t ∈ Leaf.tokensAll ls, t.Quiet := by
      rcases leaf with ⟨rfl, -⟩ | ⟨e, rfl, hc⟩
      · intro t ht
        cases ht
      · intro t ht
        obtain ⟨hl, hr, hm, -⟩ := hc.tokens t (by simpa [Leaf.tokens] using ht)
        exact ⟨hl ▸ Trivia.quiet_nil, hr ▸ Trivia.quiet_nil, by simp [Token.isReported, hm]⟩
    rw [Token.diagnosticsAll_eq_nil hq, List.append_nil]
    change c.reported = old ++ Trivia.reports _ _ c.pending
    rw [he, pending]
    rfl
  | unclosed _ pending =>
    change (c.events ++ [_]).filterMap _ = _
    rw [List.filterMap_append]
    change c.reported ++ [.missingToken c.offset .docStringDelimiterToken] = _
    have ho : c.offset = b := by simpa [Cursor.StartsAt, pending] using hb
    rw [he]
    simp [Leaf.tokens, Token.diagnosticsAt, Token.absent, Token.isReported, Token.leadingWidth,
      Token.width, Diagnostic.missingToken, Span.empty, Span.ofWidth, ho, pending]

theorem Run.shows (hd : d.Proper) (h : Run d s c ls fs s' c') (hb : c.StartsAt b)
    (old : List Diagnostic)
    (he : c.reported = old ++ Trivia.reports (Trivia.problem? d) b c.pending) :
    c'.reported = old ++ Token.diagnosticsAll d b (Leaf.tokensAll ls) ++
      Trivia.reports (Trivia.problem? d) (b + Token.widthAll (Leaf.tokensAll ls)) c'.pending := by
  induction h generalizing b old with
  | done => simpa using he
  | move first _ ih =>
    rw [ih (first.startsAt hb) _ (first.shows hd hb old he), Leaf.tokensAll_append,
      Token.diagnosticsAll_append, Token.widthAll_append, Nat.add_assoc]
    simp

/-- The reports so far are in order and lie in front of the offset, where only an empty span may
still stand. -/
structure Cursor.Ordered (c : Cursor) : Prop where
  sorted : c.reported.Pairwise fun x y => x.span.Before y.span
  bound : ∀ x ∈ c.reported,
    x.span.start < c.offset ∨ (x.span.start = c.offset ∧ x.span.stop = c.offset)

namespace Cursor.Ordered

theorem of_reported_eq (h : c.Ordered) (hr : c'.reported = c.reported)
    (ho : c.offset ≤ c'.offset) : c'.Ordered where
  sorted := hr ▸ h.sorted
  bound x hx := by
    have := h.bound x (hr ▸ hx)
    omega

theorem concat (h : c.Ordered) {y : Diagnostic} (hr : c'.reported = c.reported ++ [y])
    (ho : c.offset ≤ c'.offset) (hy : ∀ x ∈ c.reported, x.span.Before y.span)
    (hb : y.span.start < c'.offset ∨ (y.span.start = c'.offset ∧ y.span.stop = c'.offset)) :
    c'.Ordered where
  sorted := by
    rw [hr, List.pairwise_append]
    exact ⟨h.sorted, List.pairwise_singleton _ _, fun x hx z hz =>
      List.mem_singleton.1 hz ▸ hy x hx⟩
  bound x hx := by
    rw [hr, List.mem_append, List.mem_singleton] at hx
    rcases hx with hx | rfl
    · have := h.bound x hx
      omega
    · exact hb

end Cursor.Ordered

/-- The line ahead is not behind. -/
theorem Dialect.offset_le_of_peek? {a : Ahead} (h : d.peek? c = some a) :
    c.offset ≤ a.cursor.offset := by
  rw [(fits_of_peek? h).cursor, Cursor.offset_advance]
  omega

/-- A skipped line is reported behind all that has been reported. -/
theorem Ahead.ordered_skip {a : Ahead} (ha : d.peek? c = some a) (hc : c.Ordered) :
    a.skip.Ordered := by
  have hf := Dialect.fits_of_peek? ha
  have hle := Dialect.offset_le_of_peek? ha
  have hpos := hf.begins.width_pos
  have hw : 0 < Text.width (Text.trimEnd a.line.content) :=
    Nat.pos_of_ne_zero fun h => hf.begins.trimEnd_ne_nil ((Text.width_eq_zero_iff _).1 h)
  refine hc.concat (y := .unexpectedContent (.ofWidth a.cursor.offset
    (Text.width (Text.trimEnd a.line.content))) a.kind.describe) ?_ ?_ ?_ (.inl ?_)
  · rw [← Dialect.reported_of_peek? ha]
    exact List.filterMap_append
  · change c.offset ≤ a.cursor.offset + a.line.width
    omega
  · intro x hx
    have hb := hc.bound x hx
    unfold Span.Before
    change _ < a.cursor.offset ∨ (_ = a.cursor.offset ∧ _ < a.cursor.offset + _)
    omega
  · change a.cursor.offset < a.cursor.offset + a.line.width
    omega

/-- What is reported on a kept line lies behind all that has been reported, and nothing is on a line
with a fence. -/
theorem Kept.ordered_take {a : Ahead} {ts : List Token} {es : List Event} (h : Kept d a ts es)
    (ha : d.peek? c = some a) (hc : c.Ordered) :
    (a.take es).Ordered ∧ ((∃ f, a.kind = .docString f) → (a.take es).Unreported) := by
  have hle := Dialect.offset_le_of_peek? ha
  have hpos := (Dialect.fits_of_peek? ha).begins.width_pos
  have hrep : (a.take es).reported = c.reported ++ es.filterMap Event.diagnostic? := by
    rw [← Dialect.reported_of_peek? ha]
    exact List.filterMap_append
  have ho : (a.take es).offset = a.cursor.offset + a.line.width := rfl
  rcases h.brief with rfl | ⟨e, y, rfl, hy, hlt, hstop, -, hnone⟩
  · refine ⟨hc.of_reported_eq (by simpa using hrep) (by omega), fun _ x hx => ?_⟩
    change x ∈ (a.take []).reported at hx
    rw [hrep, List.filterMap_nil, List.append_nil] at hx
    have := hc.bound x hx
    omega
  · rw [List.filterMap_cons, hy, List.filterMap_nil] at hrep
    refine ⟨hc.concat hrep (by omega) (fun x hx => .inl ?_) ?_, ?_⟩
    · have := hc.bound x hx
      omega
    · have := y.span.ordered
      omega
    · rintro ⟨f, hf⟩
      exact absurd hf (hnone f)

/-- A move reports behind all that has been reported, and nothing on the first line of a doc
string. -/
theorem Move.ordered (h : Move d s c ls fs s' c') (hc : c.Ordered)
    (hf : s.place.isFence = true → c.Unreported) :
    c'.Ordered ∧ (s'.place.isFence = true → c'.Unreported) := by
  cases h with
  | advance =>
    refine ⟨hc.of_reported_eq rfl ?_, fun hp => Grammar.unreported_advance (hf hp)⟩
    rw [Cursor.offset_advance]
    omega
  | @skip a ahead _ =>
    refine ⟨Ahead.ordered_skip ahead hc, fun hp => ?_⟩
    rcases s.place_next_false a.kind with he | he <;> rw [he] at hp <;> cases hp
  | keep ahead _ kept =>
    obtain ⟨hordered, hfresh⟩ := kept.ordered_take ahead hc
    exact ⟨hordered, fun hp => hfresh ((Scope.isFence_next _ _ _).1 hp).2.2⟩
  | imply place fresh =>
    refine ⟨hc.concat (y := .missingToken c.offset .featureKeyword) List.filterMap_append
      (Nat.le_refl _) (fun x hx => .inl (fresh x hx)) (.inr ⟨rfl, rfl⟩), fun hp => ?_⟩
    rw [place] at hp
    cases hp
  | content =>
    refine ⟨hc.of_reported_eq rfl (Nat.le_add_right _ _), fun hp x hx => ?_⟩
    exact Nat.lt_of_lt_of_le (hf hp x hx) (Nat.le_add_right _ _)
  | unclosed place =>
    refine ⟨hc.concat (y := .missingToken c.offset .docStringDelimiterToken) List.filterMap_append
      (Nat.le_refl _) (fun x hx => .inl (hf (by rw [place]; rfl) x hx)) (.inr ⟨rfl, rfl⟩), nofun⟩

theorem Run.ordered (h : Run d s c ls fs s' c') (hc : c.Ordered)
    (hf : s.place.isFence = true → c.Unreported) : c'.Ordered := by
  induction h with
  | done => exact hc
  | move first _ ih => exact ih (first.ordered hc hf).1 (first.ordered hc hf).2

theorem Preamble.ordered_cursor (d : Dialect) (ls : List Line) : (read d 0 ls).cursor.Ordered := by
  refine ⟨?_, fun x hx => .inl (unreported_cursor d ls x hx)⟩
  change ((read d 0 ls).events.filterMap Event.diagnostic?).Pairwise _
  rw [diagnostics_read d d]
  exact Trivia.pairwise_reports (solid_read d 0 ls) 0

theorem Span.le_iff (s t : Span) :
    s.le t = true ↔ s.start < t.start ∨ (s.start = t.start ∧ s.stop ≤ t.stop) := by
  unfold le compare
  rcases Nat.lt_trichotomy s.start t.start with h | h | h
  · simp [Nat.compare_eq_lt.2 h, h, Ordering.then]
  · rw [h, Nat.compare_eq_eq.2 rfl]
    simp [Nat.isLE_compare]
  · simp [Nat.compare_eq_gt.2 h, Ordering.then]
    omega

theorem Span.le_of_before {s t : Span} (h : s.Before t) : s.le t = true := by
  unfold Before at h
  rw [le_iff]
  omega

/-- Reports that are in order are not moved. -/
theorem Diagnostic.sortByPosition_of_pairwise {ds : List Diagnostic}
    (h : ds.Pairwise fun x y => x.span.Before y.span) : sortByPosition ds = ds :=
  List.mergeSort_of_pairwise (h.imp fun hxy => Span.le_of_before hxy)

/-- What is wrong is met in the order of the spans. -/
theorem pairwise_reported (d : Dialect) (source : Text) :
    ((parse d source).events.filterMap Event.diagnostic?).Pairwise
      fun x y => x.span.Before y.span := by
  obtain ⟨ls, fs, s, c, hrun, -, hevents, -⟩ := exists_run d source
  rw [hevents]
  exact (hrun.ordered (Preamble.ordered_cursor d _) fun hf => absurd hf (by decide)).sorted

/-- What is reported while a document is read is what its tree shows, in the order of the tree. -/
theorem reported_parse {d : Dialect} (hd : d ∈ Dialect.bundled) (source : Text) :
    (parse d source).events.filterMap Event.diagnostic? =
        Token.diagnosticsAll (parse d source).dialect 0
          (Leaf.tokensAll (parse d source).root.leaves) ∧
      ((parse d source).events.filterMap Event.diagnostic?).Pairwise
        fun x y => x.span.Before y.span := by
  obtain ⟨ls, fs, s, c, hrun, -, hevents, hleaves⟩ := exists_run d source
  have hd' := Dialect.proper_parse hd source
  have hstart : (Preamble.read d 0 (Line.split source)).cursor.StartsAt 0 := (Nat.zero_add _).symm
  have hshows := hrun.shows hd' hstart [] (Preamble.diagnostics_read d _ 0 _)
  refine ⟨?_, pairwise_reported d source⟩
  rw [hevents, hleaves, Leaf.tokensAll_append, Token.diagnosticsAll_append]
  change c.reported = _
  rw [hshows]
  simp [Leaf.tokens, Token.diagnosticsAt, Token.plain, Token.isReported]

theorem FeatureFile.shownDiagnostics_eq_reported {o : Options} (ho : o.dialect ∈ Dialect.bundled)
    (text : Text) :
    (parse o text).shownDiagnostics =
      (GherkinTree.parse o.dialect text).events.filterMap Event.diagnostic? := by
  rw [shownDiagnostics_eq, (reported_parse ho text).1]
  rfl

end GherkinTree
