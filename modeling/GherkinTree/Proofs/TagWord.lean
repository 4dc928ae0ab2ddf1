import GherkinTree.Proofs.CutLine
import GherkinTree.Proofs.Directive

/-!
The words of a line of tags. A word is a run of characters that are no blanks, as long as it goes;
the tags are the words up to the first that does not begin with `@`, whatever else they hold. Main
statement: a line of tags is read as a token for each of these words, the last of which takes what
is left of the line as a comment or as skipped text.
-/

namespace GherkinTree

namespace Text

variable {b t w : Text}

/-- The words of a text: what is left between its blanks. -/
def words (t : Text) : List Text := (t.splitOnP isBlank).filter (· ≠ [])

/-- Whether a word is a tag. -/
def isTag (w : Text) : Bool := w.head? == some '@'

theorem words_cons_of_blank {c : Char} (hc : isBlank c = true) (t : Text) :
    words (c :: t) = words t := by
  rw [words, List.splitOnP_cons_eq_if_modifyHead, if_pos hc]
  rfl

theorem words_append_of_blank (hb : Blank b) (t : Text) : words (b ++ t) = words t := by
  induction b with
  | nil => rfl
  | cons c b ih =>
    obtain ⟨hc, hb⟩ := List.forall_mem_cons.1 hb
    rw [List.cons_append, words_cons_of_blank hc, ih hb]

/-- A word that a blank or nothing follows is the first. -/
theorem words_append (hne : w ≠ []) (hw : ∀ c ∈ w, isBlank c = false)
    (ht : ∀ c ∈ t.head?, isBlank c = true) : words (w ++ t) = w :: words t := by
  cases t with
  | nil =>
    rw [List.append_nil, words, List.splitOnP_eq_singleton hw,
      List.filter_cons_of_pos (by simpa using hne)]
    rfl
  | cons c u =>
    have hc : isBlank c = true := ht c rfl
    rw [words_cons_of_blank hc, words, List.splitOnP_append_cons_of_forall_mem hw c hc,
      List.filter_cons_of_pos (by simpa using hne)]
    rfl

theorem words_trimStart (t : Text) : words (trimStart t) = words t := by
  nth_rewrite 2 [← leadingBlanks_append_trimStart t]
  rw [words_append_of_blank (blank_leadingBlanks t)]

/-- The first word of a text that begins with one. -/
theorem words_cons {c : Char} (hc : isBlank c = false) (t : Text) :
    words (c :: t) = (c :: t.takeWhile (!isBlank ·)) :: words (t.dropWhile (!isBlank ·)) := by
  have hword : ∀ x ∈ c :: t.takeWhile (!isBlank ·), isBlank x = false :=
    List.forall_mem_cons.2 ⟨hc, solid_word t⟩
  rw [← words_append (List.cons_ne_nil _ _) hword (blank_behind_word t), List.cons_append,
    List.takeWhile_append_dropWhile]

end Text

namespace TagLine

variable {t : Text}

/-- Behind a tag stands a blank or no other tag. -/
theorem blank_behind_tag {behind : Text} (h : ∀ c ∈ behind.head?, Text.isBlank c = true) :
    ∀ c ∈ (Text.leadingBlanks behind ++ (split (Text.trimStart behind)).tagText).head?,
      Text.isBlank c = true := by
  cases behind with
  | nil =>
    have hnil : split [] = ⟨[], []⟩ := by
      rw [split]
      intro u hu
      cases hu
    rw [Text.trimStart_nil, hnil]
    intro c hc
    cases hc
  | cons c u =>
    have hc : Text.isBlank c = true := h c rfl
    rw [Text.leadingBlanks, List.takeWhile_cons_of_pos hc]
    rintro x ⟨⟩
    exact hc

/-- Tags are cut off as long as the words are tags. -/
theorem words_split (ht : Text.trimStart t = t) :
    (split t).tags.map Prod.fst = (Text.words t).takeWhile Text.isTag ∧
      Text.words (split t).tagText = (Text.words t).takeWhile Text.isTag ∧
      Text.words (split t).rest = (Text.words t).dropWhile Text.isTag := by
  fun_induction split t with
  | case1 u behind line ih =>
    obtain ⟨htags, htext, hrest⟩ := ih (Text.trimStart_trimStart behind)
    have hwords := Text.words_cons (c := '@') (by decide) u
    rw [← Text.words_trimStart (u.dropWhile _)] at hwords
    have hfirst : Text.isTag ('@' :: u.takeWhile (!Text.isBlank ·)) = true := rfl
    rw [hwords, List.takeWhile_cons_of_pos hfirst, List.dropWhile_cons_of_pos hfirst]
    refine ⟨congrArg (List.cons _) htags, ?_, hrest⟩
    have hword : ∀ x ∈ '@' :: u.takeWhile (!Text.isBlank ·), Text.isBlank x = false :=
      List.forall_mem_cons.2 ⟨by decide, Text.solid_word u⟩
    have htag : tagText ⟨('@' :: u.takeWhile (!Text.isBlank ·), Text.leadingBlanks behind) ::
        line.tags, line.rest⟩ = ('@' :: u.takeWhile (!Text.isBlank ·)) ++
          (Text.leadingBlanks behind ++ line.tagText) := by simp [tagText]
    rw [htag, Text.words_append (List.cons_ne_nil _ _) hword
      (blank_behind_tag (Text.blank_behind_word u)),
      Text.words_append_of_blank (Text.blank_leadingBlanks behind), htext]
  | case2 t h =>
    cases t with
    | nil => exact ⟨rfl, rfl, rfl⟩
    | cons c u =>
      have hc : Text.isBlank c = false := Text.isBlank_of_trimStart_eq ht
      have hfirst : ¬ Text.isTag (c :: u.takeWhile (!Text.isBlank ·)) = true := by
        simpa [Text.isTag] using fun hat => h u (by rw [hat])
      rw [Text.words_cons hc, List.takeWhile_cons_of_neg hfirst, List.dropWhile_cons_of_neg hfirst]
      exact ⟨rfl, rfl, rfl⟩

variable {pending behind : List Trivia} {tags : List (Text × Text)}

theorem map_text_tokens : (tokens pending behind tags).map (·.text) = tags.map Prod.fst := by
  fun_induction tokens pending behind tags with
  | case1 => rfl
  | case2 => rfl
  | case3 leading tag blanks tags ht ih => rw [List.map_cons, List.map_cons, ih]; rfl

/-- The tokens of a line of tags: what is pending stands in front of the first, and what is left of
the line behind the last. -/
structure Spaced (pending behind : List Trivia) (ts : List Token) : Prop where
  tags : ∀ t ∈ ts, t.kind = .tagToken ∧ t.missing = false
  first : ts.head?.map (·.leading) = some pending
  next : ∀ t ∈ ts.tail, t.leading = []
  inner : ∀ t ∈ ts.dropLast, ∃ b, Text.Blank b ∧ t.trailing = Trivia.piece .whitespace b
  last : ∃ b, Text.Blank b ∧
    ts.getLast?.map (·.trailing) = some (Trivia.piece .whitespace b ++ behind)

theorem spaced_tokens (hne : tags ≠ []) (hb : ∀ p ∈ tags, Text.Blank p.2) :
    Spaced pending behind (tokens pending behind tags) := by
  fun_induction tokens pending behind tags with
  | case1 => exact absurd rfl hne
  | case2 pending tag blanks =>
    refine ⟨List.forall_mem_singleton.2 ⟨rfl, rfl⟩, rfl, List.forall_mem_nil _,
      List.forall_mem_nil _, blanks, ?_, rfl⟩
    exact hb _ List.mem_cons_self
  | case3 pending tag blanks tags ht ih =>
    obtain ⟨hblank, hb⟩ := List.forall_mem_cons.1 hb
    have ht : tags ≠ [] := by simpa using ht
    have ih := ih ht hb
    obtain ⟨t, us, heq, hlead, -⟩ := tokens_eq_cons [] behind ht
    rw [heq] at ih ⊢
    refine ⟨List.forall_mem_cons.2 ⟨⟨rfl, rfl⟩, ih.tags⟩, rfl, ?_, ?_, ?_⟩
    · exact List.forall_mem_cons.2 ⟨hlead, ih.next⟩
    · exact List.forall_mem_cons.2 ⟨⟨blanks, hblank, rfl⟩, ih.inner⟩
    · rw [List.getLast?_cons_cons]
      exact ih.last

/-- What is reported on a line of tags that begins at an offset: what is left of it behind the tags,
unless that is a comment. -/
theorem diagnostics_events (l : TagLine) (offset : Nat) :
    (l.events offset).filterMap Event.diagnostic? =
      if l.rest = [] ∨ l.rest.head? = some '#' then []
      else [.unexpectedContent
        (.ofWidth (offset + Text.width l.tagText) (Text.width (Text.trimEnd l.rest)))
        "text after tags"] := by
  have hif : (l.rest.isEmpty || l.restIsComment) = true ↔
      l.rest = [] ∨ l.rest.head? = some '#' := by simp [restIsComment]
  simp only [events, hif]
  split <;> rfl

end TagLine

namespace Grammar

/-- A line that begins with `@` is read as a token for each of its first words that are tags. If
another word follows, the line from this word on is trivia of the last tag: a comment if the word
begins with `#`, and otherwise skipped and reported. -/
theorem tagLine?_of_at (d : Dialect) (t ending : Text) (below : List Line) (offset : Nat)
    (pending : List Trivia) (events : List Event) :
    let line := '@' :: t
    ∃ front rest ts es, front ++ rest = line ∧
      Text.words front = (Text.words line).takeWhile Text.isTag ∧
      Text.words rest = (Text.words line).dropWhile Text.isTag ∧
      (∀ c ∈ rest.head?, Text.isBlank c = false) ∧
      ts.map (·.text) = (Text.words line).takeWhile Text.isTag ∧
      TagLine.Spaced pending
        (Trivia.piece (if rest.head? = some '#' then .comment else .skippedText)
          (Text.trimEnd rest) ++ Trivia.lineEnd (Text.trailingBlanks rest) ending) ts ∧
      Token.renderAll ts = Trivia.render pending ++ line ++ ending ∧
      es.filterMap Event.diagnostic? = (if rest = [] ∨ rest.head? = some '#' then []
        else [.unexpectedContent
          (.ofWidth (offset + Text.width front) (Text.width (Text.trimEnd rest)))
          "text after tags"]) ∧
      tagLine? d ⟨⟨line, ending⟩ :: below, offset, pending, events⟩ =
        some (ts, ⟨below, offset + Text.width (line ++ ending), [], events ++ es⟩) := by
  intro line
  have hbegins : Line.Begins ⟨line, ending⟩ := ⟨'@', t, rfl, by decide, by decide⟩
  have hstart : Text.trimStart line = line := hbegins.trimStart
  have hpeek : d.peek? ⟨⟨line, ending⟩ :: below, offset, pending, events⟩ = some
      ⟨⟨⟨line, ending⟩ :: below, offset, pending, events⟩, ⟨line, ending⟩, .tags⟩ :=
    Dialect.peek?_of_begins hbegins rfl
  have hne : (TagLine.split line).tags ≠ [] := by
    rw [TagLine.split]
    exact List.cons_ne_nil _ _
  obtain ⟨htags, hfront, hrest⟩ := TagLine.words_split hstart
  have hcut := TagLine.tagText_append_rest line
  refine ⟨(TagLine.split line).tagText, (TagLine.split line).rest, _, _, hcut, hfront, hrest, ?_,
    ?_, ?_, ?_, ?_, tagLine?_of_tags hpeek rfl⟩
  · intro c hc
    obtain ⟨u, hu⟩ := List.head?_eq_some_iff.1 hc
    exact Text.isBlank_of_trimStart_eq ((TagLine.rest_solid hstart).trans hu)
  · rw [TagLine.map_text_tokens, htags]
  · have hspaced : TagLine.Spaced pending ((TagLine.split line).restTrivia ending) _ :=
      TagLine.spaced_tokens hne fun p hp => (TagLine.blanks_of_mem_split line p hp).2
    simpa [TagLine.restTrivia, TagLine.restIsComment] using hspaced
  · rw [TagLine.renderAll_tokens _ hne, TagLine.render_restTrivia]
    change Trivia.render pending ++ (TagLine.split line).tagText ++ _ = _
    rw [List.append_assoc, ← List.append_assoc (TagLine.tagText _), hcut, List.append_assoc]
  · exact TagLine.diagnostics_events _ _

end Grammar

end GherkinTree
