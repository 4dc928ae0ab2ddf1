import GherkinTree.Proofs.Report
import GherkinTree.Proofs.Survey

/-!
Where directives stand and what they look like. Main statements: a comment names a language exactly
if it has the form of a directive; the comments in front of a document are directives exactly if
they have that form, and the last of them with a known language selects the dialect; the first token
of a document takes all of them, and there is no directive anywhere else.
-/

namespace GherkinTree

/-- Text of blank characters only. -/
def Text.Blank (t : Text) : Prop := ∀ c ∈ t, isBlank c = true

/-- A comment of the form `# language: code`. Blanks may stand around each part, and the code goes
up to the next blank. -/
inductive Text.Directs : Text → Text → Prop where
  | mk {b₁ b₂ b₃ code rest : Text} (mark : Blank b₁) (word : Blank b₂) (colon : Blank b₃)
      (nonempty : code ≠ []) (solid : ∀ c ∈ code, isBlank c = false)
      (stop : ∀ c ∈ rest.head?, isBlank c = true) :
      Directs
        (['#'] ++ (b₁ ++ ("language".toList ++ (b₂ ++ ([':'] ++ (b₃ ++ (code ++ rest))))))) code

namespace Text

theorem blank_leadingBlanks (t : Text) : Blank (leadingBlanks t) :=
  List.all_eq_true.1 List.all_takeWhile

/-- Blanks in front of a character that is none. -/
theorem trimStart_append_cons {b : Text} (hb : Blank b) {c : Char} (hc : isBlank c = false)
    (t : Text) : trimStart (b ++ c :: t) = c :: t := by
  rw [trimStart_append_of_blank hb, trimStart_cons_of_not_blank hc]

/-- A word goes up to the next blank. -/
theorem takeWhile_word {code rest : Text} (hc : ∀ c ∈ code, isBlank c = false)
    (hr : ∀ c ∈ rest.head?, isBlank c = true) :
    (code ++ rest).takeWhile (!isBlank ·) = code := by
  rw [List.takeWhile_append_of_pos (by simpa using hc)]
  cases rest with
  | nil => simp
  | cons c rest =>
    have hc : isBlank c = true := hr c rfl
    simp [hc]

theorem after?_append (p t : Text) : after? p (p ++ t) = some t := after?_eq_some_iff.2 rfl

/-- A comment names a language exactly if it has the form of a directive. -/
theorem languageCode?_eq_some_iff {t code : Text} :
    languageCode? t = some code ↔ Directs t code := by
  constructor
  · intro h
    simp only [languageCode?, Option.bind_eq_bind, Option.bind_eq_some_iff] at h
    obtain ⟨t₁, h₁, t₂, h₂, t₃, h₃, h⟩ := h
    rw [after?_eq_some_iff] at h₁ h₂ h₃
    split at h
    · cases h
    · rename_i hne
      cases h
      have hword : (trimStart t₃).takeWhile (!isBlank ·) ++ (trimStart t₃).dropWhile (!isBlank ·) =
          trimStart t₃ := List.takeWhile_append_dropWhile
      have ht : t = ['#'] ++ (leadingBlanks t₁ ++ ("language".toList ++ (leadingBlanks t₂ ++
          ([':'] ++ (leadingBlanks t₃ ++ ((trimStart t₃).takeWhile (!isBlank ·) ++
            (trimStart t₃).dropWhile (!isBlank ·))))))) := by
        rw [hword, leadingBlanks_append_trimStart, ← h₃, leadingBlanks_append_trimStart, ← h₂,
          leadingBlanks_append_trimStart, h₁]
      rw [ht]
      exact .mk (blank_leadingBlanks t₁) (blank_leadingBlanks t₂) (blank_leadingBlanks t₃)
        (by simpa using hne) (solid_word (trimStart t₃)) (blank_behind_word (trimStart t₃))
  · rintro ⟨mark, word, colon, nonempty, solid, stop⟩
    rename_i b₁ b₂ b₃ rest
    obtain ⟨c, cs, rfl⟩ := List.exists_cons_of_ne_nil nonempty
    have hcode : trimStart (b₃ ++ (c :: cs ++ rest)) = c :: cs ++ rest :=
      trimStart_append_cons colon (solid c List.mem_cons_self) (cs ++ rest)
    have hcolon : trimStart (b₂ ++ ([':'] ++ (b₃ ++ (c :: cs ++ rest)))) = _ :=
      trimStart_append_cons word (by decide) _
    have hword : trimStart (b₁ ++ ("language".toList ++ (b₂ ++ ([':'] ++ (b₃ ++
        (c :: cs ++ rest)))))) = "language".toList ++ (b₂ ++ ([':'] ++ (b₃ ++ (c :: cs ++ rest)))) :=
      trimStart_append_cons mark (by decide) _
    simp only [languageCode?, after?_append, Option.bind_eq_bind, Option.bind_some, hword]
    rw [hcolon]
    change (after? [':'] ([':'] ++ _)).bind _ = _
    rw [after?_append, Option.bind_some, hcode, takeWhile_word solid stop]
    rfl

end Text

namespace Trivia

/-- The dialect of a directive, if its language is known. -/
def dialect? (p : Trivia) : Option Dialect :=
  p.language?.bind fun code => Dialect.bundled.find? (·.code == String.ofList code)

/-- What is wrong with a directive whose language is unknown. -/
def unknownLanguage? (p : Trivia) : Option Problem :=
  p.language?.bind fun code =>
    if Dialect.bundled.any (·.code == String.ofList code) then none
    else some (.unknownLanguage (String.ofList code))

theorem dialect?_of_undirected {p : Trivia} (h : p.kind ≠ .languageDirective) :
    p.dialect? = none := by simp [dialect?, language?, h]

theorem filterMap_dialect?_eq_nil {ps : List Trivia} (h : Undirected ps) :
    ps.filterMap dialect? = [] :=
  List.filterMap_eq_nil_iff.2 fun p hp => dialect?_of_undirected (h p hp)

end Trivia

namespace Line

/-- A line as trivia has one piece that is not quiet. -/
theorem mem_pieces {k : TriviaKind} {l : Line} {p : Trivia} (h : p ∈ l.pieces k) :
    p = ⟨k, Text.trim l.content⟩ ∨ p.kind = .whitespace ∨ p.kind = .newline := by
  have hpiece {k : TriviaKind} {t : Text} (h : p ∈ Trivia.piece k t) : p = ⟨k, t⟩ := by
    unfold Trivia.piece at h
    split at h
    · cases h
    · exact List.mem_singleton.1 h
  simp only [pieces, Trivia.lineEnd, List.mem_append] at h
  rcases h with (h | h) | h | h
  · exact .inr (.inl (by rw [hpiece h]))
  · exact .inl (hpiece h)
  · exact .inr (.inl (by rw [hpiece h]))
  · exact .inr (.inr (by rw [hpiece h]))

theorem undirected_pieces {k : TriviaKind} (h : k ≠ .languageDirective) (l : Line) :
    Trivia.Undirected (l.pieces k) := by
  intro p hp
  rcases mem_pieces hp with rfl | hk | hk
  · exact h
  · simp [hk]
  · simp [hk]

/-- The dialect of a line that is a directive. -/
theorem filterMap_dialect?_pieces {l : Line} {code : Text}
    (h : languageCode? (Text.trim l.content) = some code) :
    (l.pieces .languageDirective).filterMap Trivia.dialect? =
      (Dialect.bundled.find? (·.code == String.ofList code)).toList := by
  have hne : Text.trim l.content ≠ [] := by
    intro he
    rw [he] at h
    cases h
  have hpiece : Trivia.dialect? ⟨.languageDirective, Text.trim l.content⟩ =
      Dialect.bundled.find? (·.code == String.ofList code) := by
    simp [Trivia.dialect?, Trivia.language?, h]
  rw [pieces, List.filterMap_append, List.filterMap_append,
    Trivia.filterMap_dialect?_eq_nil (Trivia.quiet_blanks _).undirected,
    Trivia.filterMap_dialect?_eq_nil (Trivia.quiet_lineEnd _ _).undirected, Trivia.piece,
    if_neg (by simpa using hne), List.filterMap_cons, hpiece]
  cases Dialect.bundled.find? (·.code == String.ofList code) <;> rfl

end Line

namespace Preamble

/-- The trivia in front of a document depends on the lines only. -/
theorem trivia_read (d d' : Dialect) (o o' : Nat) (ls : List Line) :
    (read d o ls).trivia = (read d' o' ls).trivia := by
  induction ls generalizing d d' o o' with
  | nil => rfl
  | cons l ls ih =>
    unfold read
    split
    · cases languageCode? (Text.trim l.content) with
      | none =>
        dsimp only
        rw [ih d d' _ (o' + l.width)]
      | some code =>
        dsimp only
        cases Dialect.find (String.ofList code) with
        | ok found =>
          dsimp only
          rw [ih found found _ (o' + l.width)]
        | error e =>
          dsimp only
          rw [ih d d' _ (o' + l.width)]
    · rfl

/-- The comments in front of a document are directives if they name a language. -/
theorem directive_iff_of_mem_read {d : Dialect} {o : Nat} {ls : List Line} {p : Trivia}
    (hp : p ∈ (read d o ls).trivia) (hc : p.isComment = true) :
    p.kind = .languageDirective ↔ ∃ code, languageCode? p.text = some code := by
  have hpieces {l : Line} {k : TriviaKind} (hp : p ∈ l.pieces k) :
      p = ⟨k, Text.trim l.content⟩ := by
    rcases Line.mem_pieces hp with h | h | h
    · exact h
    · simp [Trivia.isComment, h] at hc
    · simp [Trivia.isComment, h] at hc
  fun_induction read d o ls with
  | case1 => cases hp
  | case2 d o l ls h hn q ih =>
    rcases List.mem_append.1 hp with hp | hp
    · rw [hpieces hp]
      simp [hn]
    · exact ih hp
  | case3 d o l ls h code hcode trivia found hf q ih =>
    rcases List.mem_append.1 hp with hp | hp
    · rw [hpieces hp]
      simp [hcode]
    · exact ih hp
  | case4 d o l ls h code hcode trivia e hf span q ih =>
    rcases List.mem_append.1 hp with hp | hp
    · rw [hpieces hp]
      simp [hcode]
    · exact ih hp
  | case5 d o l ls h =>
    have hk : p.kind = .whitespace := by
      unfold Trivia.piece at hp
      split at hp
      · cases hp
      · rw [List.mem_singleton.1 hp]
    simp [Trivia.isComment, hk] at hc

/-- The last directive with a known language selects the dialect. -/
theorem dialect_read (d : Dialect) (o : Nat) (ls : List Line) :
    (read d o ls).dialect =
      ((read d o ls).trivia.filterMap Trivia.dialect?).getLast?.getD d := by
  fun_induction read d o ls with
  | case1 => rfl
  | case2 d o l ls h hn p ih =>
    have hnil := Trivia.filterMap_dialect?_eq_nil
      (Line.undirected_pieces (k := .comment) (by decide) l)
    rw [List.filterMap_append, hnil, List.nil_append]
    exact ih
  | case3 d o l ls h code hcode trivia found hf p ih =>
    have hfind : Dialect.bundled.find? (·.code == String.ofList code) = some found := by
      rw [← Dialect.toOption_find, hf]
      rfl
    rw [List.filterMap_append, Line.filterMap_dialect?_pieces hcode, hfind, Option.toList_some,
      List.singleton_append, List.getLast?_cons, Option.getD_some]
    exact ih
  | case4 d o l ls h code hcode trivia e hf span p ih =>
    have hfind : Dialect.bundled.find? (·.code == String.ofList code) = none := by
      rw [← Dialect.toOption_find, hf]
      rfl
    rw [List.filterMap_append, Line.filterMap_dialect?_pieces hcode, hfind, Option.toList_none,
      List.nil_append]
    exact ih
  | case5 d o l ls h =>
    rw [Trivia.filterMap_dialect?_eq_nil (Trivia.quiet_blanks _).undirected]
    rfl

/-- The first token finds nothing more in front of it than the preamble. -/
theorem pending_advance_cursor (d : Dialect) (o : Nat) (ls : List Line) :
    (read d o ls).cursor.advance.pending = (read d o ls).trivia := by
  have hnil : (Cursor.cutTrivia (read d o ls).lines).1 = [] := by
    rw [lines_read, Cursor.cutTrivia_cutTrivia]
  rw [Cursor.pending_advance, cursor, hnil, List.append_nil]

end Preamble

/-- On the way between two cursors, directives stand nowhere but in front of the first token. -/
structure DirectsFirst (c : Cursor) (ts : List Token) (c' : Cursor) : Prop where
  behind : ∀ t ∈ ts, Trivia.Undirected t.trailing
  inner : ∀ t ∈ ts.tail, Trivia.Undirected t.leading
  /-- Where none is pending, none is found. -/
  clean : Trivia.Undirected c.pending →
    (∀ t ∈ ts, Trivia.Undirected t.leading) ∧ Trivia.Undirected c'.pending
  taken : ts ≠ [] → Trivia.Undirected c'.pending

namespace DirectsFirst

variable {c c' c'' : Cursor} {ts us : List Token}

theorem nil (h : Trivia.Undirected c.pending → Trivia.Undirected c'.pending) :
    DirectsFirst c [] c' where
  behind := List.forall_mem_nil _
  inner := List.forall_mem_nil _
  clean hc := ⟨List.forall_mem_nil _, h hc⟩
  taken h := absurd rfl h

/-- Tokens the first of which takes what is pending. -/
theorem cons {t : Token} (hbehind : ∀ u ∈ t :: us, Trivia.Undirected u.trailing)
    (hinner : ∀ u ∈ us, Trivia.Undirected u.leading)
    (hfirst : Trivia.Undirected c.pending → Trivia.Undirected t.leading)
    (hc : c'.pending = []) : DirectsFirst c (t :: us) c' where
  behind := hbehind
  inner := hinner
  clean hp := ⟨List.forall_mem_cons.2 ⟨hfirst hp, hinner⟩, hc ▸ Trivia.undirected_nil⟩
  taken _ := hc ▸ Trivia.undirected_nil

theorem append (h : DirectsFirst c ts c') (h' : DirectsFirst c' us c'') :
    DirectsFirst c (ts ++ us) c'' where
  behind := List.forall_mem_append.2 ⟨h.behind, h'.behind⟩
  inner := by
    cases ts with
    | nil => exact h'.inner
    | cons t ts =>
      have hc := h.taken (List.cons_ne_nil t ts)
      exact List.forall_mem_append.2 ⟨h.inner, (h'.clean hc).1⟩
  clean hc :=
    ⟨List.forall_mem_append.2 ⟨(h.clean hc).1, (h'.clean (h.clean hc).2).1⟩,
      (h'.clean (h.clean hc).2).2⟩
  taken hne := by
    cases us with
    | nil => exact (h'.clean (h.taken (by simpa using hne))).2
    | cons u us => exact h'.taken (List.cons_ne_nil u us)

end DirectsFirst

section Moves

variable {d : Dialect} {s s' : Scope} {c c' : Cursor} {ls : List Leaf} {fs : List Fate}

theorem Dialect.undirected_of_peek? {a : Ahead} (h : d.peek? c = some a)
    (hc : Trivia.Undirected c.pending) : Trivia.Undirected a.cursor.pending := by
  rw [(fits_of_peek? h).cursor, Cursor.pending_advance]
  exact hc.append (Cursor.quiet_cutTrivia c.lines).undirected

theorem Move.directsFirst (h : Move d s c ls fs s' c') :
    DirectsFirst c (Leaf.tokensAll ls) c' := by
  cases h with
  | advance => exact .nil fun hc => hc.append (Cursor.quiet_cutTrivia c.lines).undirected
  | @skip a ahead _ =>
    exact .nil fun hc => (Dialect.undirected_of_peek? ahead hc).append
      (Line.undirected_pieces (by decide) a.line)
  | @keep a ts es ahead _ kept =>
    obtain ⟨t, us, rfl, hl, -⟩ := kept.first
    rw [Leaf.tokensAll_map_token]
    exact .cons kept.undirected.1 kept.undirected.2
      (fun hc => hl ▸ Dialect.undirected_of_peek? ahead hc) rfl
  | imply =>
    have hnil := Trivia.undirected_nil
    change DirectsFirst c [_, .absent .colonToken [] []] _
    exact .cons (by simp [Token.absent, hnil]) (by simp [Token.absent, hnil]) id rfl
  | content _ pending _ leaf =>
    rcases leaf with ⟨rfl, -⟩ | ⟨e, rfl, he⟩
    · exact .nil id
    · have htokens : Leaf.tokensAll [.content e] = e.tokens := by simp [Leaf.tokens]
      rw [htokens]
      have hbare (t : Token) (ht : t ∈ e.tokens) :
          Trivia.Undirected t.leading ∧ Trivia.Undirected t.trailing := by
        obtain ⟨hl, htr, -⟩ := he.tokens t ht
        rw [hl, htr]
        exact ⟨Trivia.undirected_nil, Trivia.undirected_nil⟩
      exact ⟨fun t ht => (hbare t ht).2, fun t ht => (hbare t (List.mem_of_mem_tail ht)).1,
        fun hc => ⟨fun t ht => (hbare t ht).1, hc⟩, fun _ => pending ▸ Trivia.undirected_nil⟩
  | unclosed _ pending _ =>
    have hnil := Trivia.undirected_nil
    change DirectsFirst c [.absent .docStringDelimiterToken [] []] _
    exact .cons (by simp [Token.absent, hnil]) (List.forall_mem_nil _) (fun _ => hnil) pending

theorem Run.directsFirst (h : Run d s c ls fs s' c') :
    DirectsFirst c (Leaf.tokensAll ls) c' := by
  induction h with
  | done => exact .nil id
  | move first _ ih =>
    rw [Leaf.tokensAll_append]
    exact first.directsFirst.append ih

end Moves

/-- Behind the first token of a document there are no directives. -/
theorem undirected_parse (d : Dialect) (source : Text) :
    (∀ t ∈ Leaf.tokensAll (parse d source).root.leaves, Trivia.Undirected t.trailing) ∧
      ∀ t ∈ (Leaf.tokensAll (parse d source).root.leaves).tail, Trivia.Undirected t.leading := by
  obtain ⟨ls, fs, s, c, hrun, -, -, hleaves⟩ := exists_run d source
  have heof : DirectsFirst c [.plain .endOfFileToken [] c.pending []] { c with pending := [] } :=
    .cons (by simp [Token.plain, Trivia.undirected_nil]) (List.forall_mem_nil _) id rfl
  have hall := hrun.directsFirst.append heof
  rw [hleaves, Leaf.tokensAll_append]
  exact ⟨hall.behind, hall.inner⟩

/-- The first token of some elements takes the trivia. -/
def Element.FirstTakes (ps : List Trivia) (es : List Element) : Prop :=
  ∃ t, (tokensAll es).head? = some t ∧ t.leading = ps

theorem Element.FirstTakes.append {ps : List Trivia} {es : List Element}
    (h : FirstTakes ps es) (fs : List Element) : FirstTakes ps (es ++ fs) := by
  obtain ⟨t, ht, hl⟩ := h
  exact ⟨t, by rw [tokensAll_append, List.head?_append, ht, Option.some_or], hl⟩

theorem Element.FirstTakes.node {ps : List Trivia} {es : List Element} (h : FirstTakes ps es)
    (k : Kind) : FirstTakes ps [.node k es] := by
  obtain ⟨t, ht, hl⟩ := h
  exact ⟨t, by simpa using ht, hl⟩

open Element (FirstTakes)

namespace Grammar

variable {d : Dialect} {c : Cursor} {a : Ahead}

theorem firstTakes_header {role r : Role} (hr : d.nextRole? c = some r)
    (ho : opens role r = true) : FirstTakes c.advance.pending (header d role c).1.elements := by
  obtain ⟨a, ha⟩ := Dialect.exists_peek? hr
  have hcursor := (Dialect.fits_of_peek? ha).cursor
  by_cases hk : a.kind = .tags
  · obtain ⟨ts, es, hkept, heq⟩ := tagLine?_eq ha hk
    obtain ⟨t, us, rfl, hl, -⟩ := hkept.first
    have htags : (tags d c).1 =
        some (.ofTags (t :: (us ++ ((a.take es).collect (tagLine? d)).1))) := by
      rw [tags, Cursor.collect_of_some heq (headway_tagLine? d _ _ _ heq).1]
      rfl
    refine ⟨t, ?_, hl.trans (by rw [hcursor])⟩
    simp [header, Header.elements, htags, Node.ofTags, Node.optional, Node.toElement]
  · have htags : tags d c = (none, c) := by
      have hnone : tagLine? d c = none := tagLine?_eq_none fun a' ha' => by
        rw [ha] at ha'
        cases ha'
        exact hk
      rw [tags, Cursor.collect_of_none hnone]
      rfl
    have hrole := Dialect.nextRole?_of_not_tags ha hk
    rw [hr] at hrole
    cases hkind : a.kind with
    | keyword m =>
      rw [hkind] at hrole
      cases hrole
      have hlead : (titleLine m a).1.keyword.leading = c.advance.pending := by
        rw [← hcursor]
        unfold titleLine
        dsimp only
        split <;> rfl
      refine ⟨(titleLine m a).1.keyword, ?_, hlead⟩
      simp [header, Header.elements, htags, title_eq ha hkind ho, Node.optional]
    | _ =>
      rw [hkind] at hrole
      cases hrole

theorem firstTakes_impliedHeader (d : Dialect) (c : Cursor) :
    FirstTakes c.advance.pending (impliedHeader d c).1.elements := by
  refine ⟨.absent .featureKeyword c.advance.pending [], ?_, rfl⟩
  simp [impliedHeader, Header.elements, Node.optional]

theorem firstTakes_featureHeader (d : Dialect) (c : Cursor) :
    FirstTakes c.advance.pending (featureHeader d c).1.elements := by
  cases ha : d.peek? c with
  | none =>
    simp only [featureHeader, ha]
    exact firstTakes_impliedHeader d c
  | some a =>
    simp only [featureHeader, ha, Dialect.roleAhead_eq ha]
    split
    · rename_i hr
      have hcursor : a.cursor.advance.pending = c.advance.pending := by
        rw [(Dialect.fits_of_peek? ha).cursor, Cursor.advance_advance]
      rw [← hcursor]
      rw [← Dialect.nextRole?_cursor ha] at hr
      exact firstTakes_header hr rfl
    · exact firstTakes_impliedHeader d c

/-- The first token of a document takes all trivia in front of it. -/
theorem firstTakes_document (d : Dialect) (c : Cursor) :
    FirstTakes c.advance.pending [(document d c).1.toElement] := by
  cases ha : d.peek? c with
  | none =>
    refine ⟨.plain .endOfFileToken [] c.advance.pending [], ?_, rfl⟩
    simp [document, feature?, ha, Node.ofDocument, Node.toElement, Node.optional]
  | some a =>
    have hcursor : a.cursor.advance.pending = c.advance.pending := by
      rw [(Dialect.fits_of_peek? ha).cursor, Cursor.advance_advance]
    have hheader := firstTakes_featureHeader d a.cursor
    rw [hcursor] at hheader
    have hfeature : FirstTakes c.advance.pending [(feature d a.cursor).1.toElement] := by
      refine .node ?_ .feature
      simpa [feature, Node.ofFeature] using hheader.append _
    refine .node ?_ .document
    simpa [document, feature?, ha, Node.ofDocument, Node.optional] using hfeature.append _

end Grammar

end GherkinTree
