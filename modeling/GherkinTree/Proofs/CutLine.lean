import GherkinTree.Proofs.FenceEscape
import GherkinTree.Proofs.Lexeme

/-!
The tokens of each kind of line. A line of plain text, of tags, of cells, a title, a step and the
fences of a doc string are cut in their own ways. Main statements: whichever way a line is cut, its
tokens stand `Along` the line and are `Worded`.
-/

namespace GherkinTree

open Element Trivia Token

/-- What a line is cut into, some trivia being in front of it. -/
structure Lexed (lineBreak : Text) (leading : List Trivia) (above : Option Kind)
    (es : List Element) : Prop where
  along : Along lineBreak leading (tokensAll es)
  worded : WordedAll above es

section Plain

variable {above : Option Kind} {text : Text}

theorem Line.worded_textToken (hs : Text.trimStart text = text) (hne : text ≠ [])
    (hn : '\n' ∉ text) (ending : Text) (leading : List Trivia) :
    (textToken text ending leading).Worded above :=
  worded_plain (by decide) (Text.trimEnd_ne_nil hs hne) (fun h => hn (Text.mem_of_mem_trimEnd h))
    (Text.trimmed_trimEnd hs)

theorem Line.along_textToken (hn : '\n' ∉ text) (ending : Text) (leading : List Trivia) :
    Along ending leading [textToken text ending leading] :=
  .single rfl rfl (inline_blanks (Text.blanks_trailingBlanks hn))

/-- A line of plain text. -/
theorem Line.Begins.lexed_text {l : Line} (h : l.Begins) (hn : '\n' ∉ l.content)
    (pending : List Trivia) :
    Lexed l.ending pending above [.token (Line.textToken l.content l.ending pending)] where
  along := by simpa using Line.along_textToken hn l.ending pending
  worded := by
    obtain ⟨c, t, hl, -, -⟩ := id h
    exact .token (Line.worded_textToken h.trimStart (by simp [hl]) hn _ _)

end Plain

namespace TagLine

variable {t : Text} {leading inner : List Trivia}

/-- A tag holds no blanks, and nothing but blanks stand behind it. -/
theorem blanks_of_mem_split (t : Text) : ∀ p ∈ (split t).tags,
    (∀ c ∈ p.1, Text.isBlank c = false) ∧ ∀ c ∈ p.2, Text.isBlank c = true := by
  fun_induction split t with
  | case1 u behind line ih =>
    refine List.forall_mem_cons.2 ⟨⟨?_, List.all_eq_true.1 List.all_takeWhile⟩, ih⟩
    exact List.forall_mem_cons.2 ⟨by decide, Text.solid_word u⟩
  | case2 t h => exact List.forall_mem_nil _

theorem mem_of_mem_tag {p : Text × Text} (hp : p ∈ (split t).tags) {c : Char}
    (hc : c ∈ p.1 ∨ c ∈ p.2) : c ∈ t := by
  rw [← tagText_append_rest t]
  exact List.mem_append_left _ (List.mem_flatMap.2 ⟨p, hp, List.mem_append.2 hc⟩)

theorem mem_of_mem_rest {c : Char} (hc : c ∈ (split t).rest) : c ∈ t := by
  rw [← tagText_append_rest t]
  exact List.mem_append_right _ hc

theorem along_tokens (leading : List Trivia) (hi : Inline inner) (lineBreak : Text)
    {tags : List (Text × Text)} (h : tags ≠ []) (hb : ∀ p ∈ tags, p.2.Blanks) :
    Along lineBreak leading (tokens leading (inner ++ piece .newline lineBreak) tags) := by
  generalize hrest : inner ++ piece .newline lineBreak = rest
  fun_induction tokens leading rest tags with
  | case1 => exact absurd rfl h
  | case2 leading tag blanks =>
    have hblanks := inline_blanks (hb _ List.mem_cons_self)
    refine .single rfl ?_ (hblanks.append hi)
    rw [List.append_assoc, hrest]
    rfl
  | case3 leading tag blanks tags ht ih =>
    obtain ⟨hblanks, hb⟩ := List.forall_mem_cons.1 hb
    exact .cons rfl (inline_blanks hblanks) inline_nil (ih (by simpa using ht) hb)

theorem worded_tokens {above : Option Kind} {rest : List Trivia} {tags : List (Text × Text)}
    (h : ∀ p ∈ tags, p.1 ≠ [] ∧ '\n' ∉ p.1 ∧ p.1.Trimmed) :
    ∀ t ∈ tokens leading rest tags, t.Worded above := by
  have hword {p : Text × Text} (h : p.1 ≠ [] ∧ '\n' ∉ p.1 ∧ p.1.Trimmed)
      (leading trailing : List Trivia) :
      (Token.plain .tagToken p.1 leading trailing).Worded above :=
    worded_plain (by decide) h.1 h.2.1 h.2.2
  fun_induction tokens leading rest tags with
  | case1 => exact List.forall_mem_nil _
  | case2 leading tag blanks =>
    exact List.forall_mem_singleton.2 (hword (h _ List.mem_cons_self) _ _)
  | case3 leading tag blanks tags ht ih =>
    obtain ⟨htag, htags⟩ := List.forall_mem_cons.1 h
    exact List.forall_mem_cons.2 ⟨hword htag _ _, ih htags⟩

/-- What stands behind the tags of a line is a comment or skipped. -/
theorem restTrivia_eq (l : TagLine) (ending : Text) :
    l.restTrivia ending =
      (piece (if l.restIsComment then .comment else .skippedText) (Text.trimEnd l.rest) ++
        piece .whitespace (Text.trailingBlanks l.rest)) ++ piece .newline ending :=
  (List.append_assoc _ _ _).symm

theorem inline_rest {l : TagLine} (hs : Text.trimStart l.rest = l.rest) (hn : '\n' ∉ l.rest) :
    Inline (piece (if l.restIsComment then .comment else .skippedText) (Text.trimEnd l.rest)) := by
  have hline : '\n' ∉ Text.trimEnd l.rest := fun h => hn (Text.mem_of_mem_trimEnd h)
  split
  · rename_i hc
    obtain ⟨u, hu⟩ := List.head?_eq_some_iff.1 (beq_iff_eq.1 hc)
    refine inline_comment (.inl rfl) ?_ hline (Text.trimmed_trimEnd hs)
    rw [hu, Text.head?_trimEnd_of_not_blank (by decide)]
    rintro c ⟨⟩
    rfl
  · exact inline_skipped hline (Text.trimmed_trimEnd hs)

/-- A line of tags. -/
theorem lexed_split {above : Option Kind} (ht : (split t).tags ≠ [])
    (hs : Text.trimStart t = t) (hn : '\n' ∉ t) (pending : List Trivia) (ending : Text) :
    Lexed ending pending above
      ((tokens pending ((split t).restTrivia ending) (split t).tags).map .token) where
  along := by
    have hrest : '\n' ∉ (split t).rest := fun h => hn (mem_of_mem_rest h)
    rw [restTrivia_eq, tokensAll_map_token]
    refine along_tokens pending ((inline_rest (rest_solid hs) hrest).append ?_) ending ht ?_
    · exact inline_blanks (Text.blanks_trailingBlanks hrest)
    · intro p hp
      exact .of_forall (blanks_of_mem_split t p hp).2 fun h => hn (mem_of_mem_tag hp (.inr h))
  worded := .tokens (worded_tokens fun p hp =>
    ⟨tag_ne_nil t p hp, fun h => hn (mem_of_mem_tag hp (.inl h)),
      Text.trimmed_of_forall (blanks_of_mem_split t p hp).1⟩)

end TagLine

section Rows

variable {t : Text}

/-- A cell of one line that is cut off from the blanks around it. -/
structure Cell.Fair (c : Cell) : Prop where
  before : c.before.Blanks
  after : c.after.Blanks
  oneLine : '\n' ∉ c.raw
  trimmed : c.raw.Trimmed

theorem Cell.trimStart_cutBar (h : Text.trimStart t = t) :
    Text.trimStart (cutBar t).1 = (cutBar t).1 := by
  have happ := cutBar_append t
  cases hc : (cutBar t).1 with
  | nil => rfl
  | cons c u =>
    rw [hc, List.cons_append] at happ
    exact Text.trimStart_cons_of_not_blank (Text.isBlank_of_trimStart_eq (h.trans happ.symm)) u

theorem Cell.not_mem_cutBar (hn : '\n' ∉ t) :
    '\n' ∉ (cutBar (Text.trimStart t)).1 ∧ '\n' ∉ (cutBar (Text.trimStart t)).2 := by
  have hstart : '\n' ∉ Text.trimStart t := fun h => hn (Text.mem_of_mem_trimStart h)
  rw [← cutBar_append (Text.trimStart t), List.mem_append, not_or] at hstart
  exact hstart

theorem Cell.fair_of_cutBar (hn : '\n' ∉ t) : Cell.Fair ⟨Text.leadingBlanks t,
    Text.trimEnd (cutBar (Text.trimStart t)).1,
    Text.trailingBlanks (cutBar (Text.trimStart t)).1⟩ where
  before := Text.blanks_leadingBlanks hn
  after := Text.blanks_trailingBlanks (not_mem_cutBar hn).1
  oneLine h := (not_mem_cutBar hn).1 (Text.mem_of_mem_trimEnd h)
  trimmed := Text.trimmed_trimEnd (trimStart_cutBar (Text.trimStart_trimStart t))

/-- The cells of a row, and the blanks behind its last bar. -/
theorem Row.fair_of_mem_split (hn : '\n' ∉ t) :
    (∀ c ∈ (split t).cells, c.Fair) ∧ (split t).rest.Blanks := by
  fun_induction split t with
  | case1 t ht =>
    exact ⟨List.forall_mem_nil _, Text.blanks_of_trimStart_eq_nil (by simpa using ht) hn⟩
  | case2 t ht raw cell hc =>
    exact ⟨List.forall_mem_singleton.2 (Cell.fair_of_cutBar hn), List.forall_mem_nil _⟩
  | case3 t ht raw cell x r hc row ih =>
    have hr : '\n' ∉ r := by
      have hbar := (Cell.not_mem_cutBar hn).2
      rw [hc, List.mem_cons, not_or] at hbar
      exact hbar.2
    exact ⟨List.forall_mem_cons.2 ⟨Cell.fair_of_cutBar hn, (ih hr).1⟩, (ih hr).2⟩

variable (outline : Bool)

theorem Cell.Fair.inline_node {c : Cell} (h : c.Fair) :
    ∀ t ∈ (c.node outline).toElement.tokens, Inline t.leading ∧ Inline t.trailing := by
  have hbefore := inline_blanks h.before
  have hafter := inline_blanks h.after
  by_cases hr : c.raw = []
  · intro t ht
    have he : t = .absent .tableLiteralToken (piece .whitespace c.before)
        (piece .whitespace c.after) := by
      simpa [Cell.node, hr, Node.ofCell, Node.toElement] using ht
    rw [he]
    exact ⟨hbefore, hafter⟩
  · have hs : Spells (c.node outline).toElement.tokens (piece .whitespace c.before) c.raw
        (piece .whitespace c.after) := by
      cases outline with
      | true => simpa [Cell.node, hr, Node.ofCell, Node.toElement] using
          Reading.cell.spells_interpolated hr _ _
      | false => simpa [Cell.node, hr, Node.ofCell, Node.toElement] using
          Reading.cell.spells_token hr _ _
    intro t ht
    constructor
    · rcases hs.leading t ht with he | he <;> rw [he]
      · exact inline_nil
      · exact hbefore
    · rcases hs.trailing t ht with he | he <;> rw [he]
      · exact inline_nil
      · exact hafter

theorem Cell.Fair.worded_node {c : Cell} (h : c.Fair) {above : Option Kind} :
    WordedAll above [(c.node outline).toElement] := by
  refine .node ?_
  simp only [Cell.node, Node.ofCell]
  split
  · exact .token (worded_absent (by decide))
  · rename_i hr
    have hne : c.raw ≠ [] := by simpa using hr
    split
    · exact Reading.cell.worded_interpolated rfl fun hn => absurd hn h.oneLine
    · exact .token (Reading.cell.worded_token rfl hne (fun hn => absurd hn h.oneLine)
        fun _ => h.trimmed)

theorem Row.worded_bar {above : Option Kind} (leading trailing : List Trivia) :
    (bar leading trailing).Worded above := worded_mark (by decide) (by decide)

/-- The cells of a row and their bars, the last of which ends the line. -/
theorem Row.along_cells {last : Token} {inner : List Trivia} {lineBreak : Text}
    (hl : last.leading = []) (ht : last.trailing = inner ++ piece .newline lineBreak)
    (hi : Inline inner) {cs : List Cell} (hcs : ∀ c ∈ cs, c.Fair) (hne : cs ≠ []) :
    ∃ leading, Inline leading ∧
      Along lineBreak leading (tokensAll (elements (cellsWithBars outline last cs))) := by
  fun_induction cellsWithBars outline last cs with
  | case1 => exact absurd rfl hne
  | case2 c =>
    have hcell := (hcs c List.mem_cons_self).inline_node outline
    simpa [elements_cons, elements] using
      Along.append_inline hcell inline_nil (.single hl ht hi)
  | case3 c cs hcons ih =>
    obtain ⟨hc, hcs⟩ := List.forall_mem_cons.1 hcs
    obtain ⟨leading, hleading, hrest⟩ := ih hcs (by simpa using hcons)
    have hbar : Along lineBreak [] (bar [] [] ::
        tokensAll (elements (cellsWithBars outline last cs))) :=
      .cons rfl inline_nil hleading hrest
    simpa [elements_cons] using Along.append_inline (hc.inline_node outline) inline_nil hbar

theorem Row.worded_cells {above : Option Kind} {last : Token} (hlast : last.Worded above)
    {cs : List Cell} (hcs : ∀ c ∈ cs, c.Fair) :
    WordedAll above (elements (cellsWithBars outline last cs)) := by
  fun_induction cellsWithBars outline last cs with
  | case1 => exact .nil
  | case2 c => exact ((hcs c List.mem_cons_self).worded_node outline).append (.token hlast)
  | case3 c cs hcons ih =>
    obtain ⟨hc, hcs⟩ := List.forall_mem_cons.1 hcs
    exact (hc.worded_node outline).append (.append (.token (worded_bar [] [])) (ih hcs))

/-- A row of a table. -/
theorem Row.lexed_node {above : Option Kind} (hn : '\n' ∉ t) (pending : List Trivia)
    (ending : Text) :
    Lexed ending pending above
      [((split t).node outline pending (lineEnd (split t).rest ending)).toElement] := by
  obtain ⟨hcells, hrest⟩ := fair_of_mem_split hn
  have hi := inline_blanks hrest
  by_cases hc : (split t).cells = []
  · have hrow : (split t).node outline pending (lineEnd (split t).rest ending) =
        .ofRow (bar pending (lineEnd (split t).rest ending)) [] := by simp [node, hc]
    rw [hrow]
    have halong : Along ending pending [bar pending (lineEnd (split t).rest ending)] :=
      .single rfl rfl hi
    exact ⟨by simpa [Node.ofRow, Node.toElement] using halong, .node (.token (worded_bar _ _))⟩
  · have hlexed (last : Token) (hlead : last.leading = [])
        (htrail : last.trailing = lineEnd (split t).rest ending)
        (hworded : last.Worded (some .tableRow)) :
        Lexed ending pending above
          [(Node.ofRow (bar pending [])
            (cellsWithBars outline last (split t).cells)).toElement] := by
      obtain ⟨leading, hleading, hcut⟩ := along_cells outline hlead htrail hi hcells hc
      have halong : Along ending pending (bar pending [] ::
          tokensAll (elements (cellsWithBars outline last (split t).cells))) :=
        .cons rfl inline_nil hleading hcut
      exact ⟨by simpa [Node.ofRow, Node.toElement, elements] using halong,
        .node (.append (.token (worded_bar _ _)) (worded_cells outline hworded hcells))⟩
    have hrow : (split t).node outline pending (lineEnd (split t).rest ending) =
        .ofRow (bar pending []) (cellsWithBars outline
          (if (split t).closed then bar [] (lineEnd (split t).rest ending)
          else .absent .verticalBarToken [] (lineEnd (split t).rest ending)) (split t).cells) := by
      simp [node, hc]
    rw [hrow]
    split
    · exact hlexed _ rfl rfl (worded_bar _ _)
    · exact hlexed _ rfl rfl (worded_absent (by decide))

end Rows

section Keywords

open Grammar

variable {d : Dialect} {c : Cursor} {a : Ahead} {m : KeywordMatch} {above : Option Kind}

/-- A keyword is cut off from the blanks around it. -/
theorem Dialect.Proper.worded_keyword (hd : d.Proper) {l : Line} (hl : l.Begins)
    (hn : '\n' ∉ l.content) (hk : d.classify l.content = .keyword m)
    (leading trailing : List Trivia) : (keywordToken m leading trailing).Worded above := by
  have hne := hd.keyword_ne_nil hk
  have hcontent := append_of_classify hk
  have hend : Text.trimEnd m.text = m.text := by
    obtain ⟨s, hs, -, ht, -⟩ := exists_entry (classify_eq_keyword hk)
    exact ht ▸ hd.solid s hs
  have hstart : Text.trimStart m.text = m.text := by
    obtain ⟨x, u, hx⟩ := List.exists_cons_of_ne_nil hne
    have htrim := hl.trimStart
    rw [hcontent, hx, List.cons_append] at htrim
    rw [hx, Text.trimStart_cons_of_not_blank (Text.isBlank_of_trimStart_eq htrim)]
  refine worded_plain ?_ hne (fun h => hn ?_) (hend ▸ Text.trimmed_trimEnd hstart)
  · cases m.role <;> decide
  · rw [hcontent]
    exact List.mem_append_left m.rest h

/-- What follows a token is blank up to the end of the line, or blanks and some text. -/
theorem Line.cutToken_blanks {behind : Text} (hn : '\n' ∉ behind) (ending : Text) :
    (∃ blanks : Text, blanks.Blanks ∧ cutToken behind ending = (lineEnd blanks ending, [])) ∨
      ∃ blanks text : Text, blanks.Blanks ∧ text ≠ [] ∧ Text.trimStart text = text ∧
        '\n' ∉ text ∧ cutToken behind ending = (piece .whitespace blanks, text) := by
  have hblanks := Text.blanks_leadingBlanks hn
  by_cases ht : Text.trimStart behind = []
  · exact .inl ⟨_, hblanks, by simp [cutToken, ht]⟩
  · exact .inr ⟨_, _, hblanks, ht, Text.trimStart_trimStart behind,
      fun h => hn (Text.mem_of_mem_trimStart h), by simp [cutToken, ht]⟩

/-- The line of a section. -/
theorem Grammar.lexed_titleLine (hd : d.Proper) (hf : a.Fits d c) (hk : a.kind = .keyword m)
    (hm : m.role.isStructural = true) (hn : '\n' ∉ a.line.content) :
    Lexed a.line.ending a.cursor.pending above (titleLine m a).1.elements := by
  have hcl : d.classify a.line.content = .keyword m := hf.kind ▸ hk
  obtain ⟨u, hu⟩ := Dialect.colon_of_classify hcl hm
  have hcut : Line.cutToken m.rest a.line.ending = ([], ':' :: u) := by
    have hb : Text.isBlank ':' = false := by decide
    simp [Line.cutToken, hu, Text.trimStart_cons_of_not_blank hb,
      Text.leadingBlanks_cons_of_not_blank hb, piece]
  have hrest : '\n' ∉ u := by
    rw [Dialect.append_of_classify hcl, hu] at hn
    exact fun h => hn (List.mem_append_right _ (List.mem_cons_of_mem _ h))
  have hkeyword (trailing : List Trivia) :
      (keywordToken m a.cursor.pending trailing).Worded above :=
    hd.worded_keyword hf.begins hn hcl _ _
  have hcolon (trailing : List Trivia) :
      (Token.plain .colonToken [':'] [] trailing).Worded above :=
    worded_mark (by decide) (by decide)
  rcases Line.cutToken_blanks hrest a.line.ending with
    ⟨blanks, hblanks, hc⟩ | ⟨blanks, name, hblanks, hne, hname, hline, hc⟩
  · have helements : (titleLine m a).1.elements = [.token (keywordToken m a.cursor.pending []),
        .token (.plain .colonToken [':'] [] (lineEnd blanks a.line.ending))] := by
      simp [titleLine, hcut, hc, Title.elements, nameOf, Node.optional, keywordToken]
    have halong : Along a.line.ending a.cursor.pending [keywordToken m a.cursor.pending [],
        .plain .colonToken [':'] [] (lineEnd blanks a.line.ending)] :=
      .cons rfl inline_nil inline_nil (.single rfl rfl (inline_blanks hblanks))
    rw [helements]
    exact ⟨by simpa using halong, .append (.token (hkeyword _)) (.token (hcolon _))⟩
  · have helements : (titleLine m a).1.elements = [.token (keywordToken m a.cursor.pending []),
        .token (.plain .colonToken [':'] [] (piece .whitespace blanks)),
        .node .literalText [.token (Line.textToken name a.line.ending [])]] := by
      simp [titleLine, hcut, hc, hne, Title.elements, nameOf, Node.optional, keywordToken,
        Node.ofLiterals, Node.toElement]
    have halong : Along a.line.ending a.cursor.pending [keywordToken m a.cursor.pending [],
        .plain .colonToken [':'] [] (piece .whitespace blanks),
        Line.textToken name a.line.ending []] :=
      .cons rfl inline_nil inline_nil
        (.cons rfl (inline_blanks hblanks) inline_nil (Line.along_textToken hline _ []))
    rw [helements]
    exact ⟨by simpa using halong, .append (.token (hkeyword _)) (.append (.token (hcolon _))
      (.node (.token (Line.worded_textToken hname hne hline _ []))))⟩

/-- The line of a step. -/
theorem Grammar.lexed_stepLine (outline : Bool) (hd : d.Proper) (hf : a.Fits d c)
    (hk : a.kind = .keyword m) (hn : '\n' ∉ a.line.content) :
    Lexed a.line.ending a.cursor.pending above
      [.token (stepLine outline m a).1, (stepLine outline m a).2.1.toElement] := by
  have hcl : d.classify a.line.content = .keyword m := hf.kind ▸ hk
  have hrest : '\n' ∉ m.rest := by
    rw [Dialect.append_of_classify hcl] at hn
    exact fun h => hn (List.mem_append_right _ h)
  have hkeyword (trailing : List Trivia) :
      (keywordToken m a.cursor.pending trailing).Worded above :=
    hd.worded_keyword hf.begins hn hcl _ _
  rcases Line.cutToken_blanks hrest a.line.ending with
    ⟨blanks, hblanks, hc⟩ | ⟨blanks, text, hblanks, hne, htext, hline, hc⟩
  · have helements : [.token (stepLine outline m a).1, (stepLine outline m a).2.1.toElement] =
        [.token (keywordToken m a.cursor.pending (lineEnd blanks a.line.ending)),
          Element.node .literalText [.token (.absent .literalToken [] [])]] := by
      simp [stepLine, hc, Node.ofLiterals, Node.toElement, keywordToken]
    have halong : Along a.line.ending a.cursor.pending
        [keywordToken m a.cursor.pending (lineEnd blanks a.line.ending),
          .absent .literalToken [] []] :=
      .last rfl rfl (inline_blanks hblanks) (List.forall_mem_singleton.2 ⟨_, rfl⟩)
    rw [helements]
    exact ⟨by simpa using halong,
      .append (.token (hkeyword _)) (.node (.token (worded_absent (by decide))))⟩
  · have helements : [.token (stepLine outline m a).1, (stepLine outline m a).2.1.toElement] =
        [.token (keywordToken m a.cursor.pending (piece .whitespace blanks)),
          (Reading.stepText.text outline (Text.trimEnd text) []
            (lineEnd (Text.trailingBlanks text) a.line.ending)).toElement] := by
      simp [stepLine, hc, hne, keywordToken]
    have hwords := Text.trimEnd_ne_nil htext hne
    have halong := Reading.stepText.along_text outline hwords []
      (inline_blanks (Text.blanks_trailingBlanks hline)) a.line.ending
    have hone : '\n' ∉ Text.trimEnd text := fun h => hline (Text.mem_of_mem_trimEnd h)
    rw [helements]
    refine ⟨?_, .append (.token (hkeyword _)) (Reading.stepText.worded_text rfl outline hwords
      (fun h => absurd h hone) fun _ => Text.trimmed_trimEnd htext)⟩
    rw [tokensAll_cons, tokensAll_cons, tokensAll_nil, List.append_nil, tokens_token]
    exact .cons rfl (inline_blanks hblanks) inline_nil halong

end Keywords

section DocStrings

variable {f : Fence} {l : Line} {above : Option Kind}

theorem Fence.worded_text (f : Fence) (leading trailing : List Trivia) :
    (Token.plain .docStringDelimiterToken f.text leading trailing).Worded above := by
  have hmark : ∀ c ∈ f.text, c = f.mark := by simp [text]
  refine worded_plain (by decide) f.text_ne_nil (fun hn => ?_)
    (Text.trimmed_of_forall fun c hc => hmark c hc ▸ f.mark_not_blank)
  exact absurd f.mark_not_blank (by rw [← hmark _ hn]; decide)

/-- The line that opens a doc string. -/
theorem Fence.lexed_opening (f : Fence) (hn : '\n' ∉ l.content) (pending : List Trivia) :
    Lexed l.ending pending above
      (.token (f.first pending l) :: Node.optional (f.contentType? l)) := by
  have hbehind : '\n' ∉ l.content.drop f.text.length := fun h => hn (List.mem_of_mem_drop h)
  have hblanks := inline_blanks (Text.blanks_leadingBlanks hbehind)
  have hline : '\n' ∉ Text.trimStart (l.content.drop f.text.length) :=
    fun h => hbehind (Text.mem_of_mem_trimStart h)
  have hend := inline_blanks (Text.blanks_trailingBlanks hline)
  simp only [first, contentType?]
  by_cases hnamed : Text.trimStart (l.content.drop f.text.length) = []
  · rw [hnamed] at hend ⊢
    refine ⟨?_, .append (.token (f.worded_text _ _)) .nil⟩
    simp only [List.isEmpty_nil, if_true, Node.optional, Option.toList_none, List.map_nil,
      tokensAll_cons, tokens_token, tokensAll_nil, List.append_nil]
    exact .single rfl (List.append_assoc _ _ _).symm (hblanks.append hend)
  · have hsolid := Text.trimStart_trimStart (l.content.drop f.text.length)
    have htype : (Token.plain .docStringContentTypeToken
        (Text.trimEnd (Text.trimStart (l.content.drop f.text.length))) []
        (lineEnd (Text.trailingBlanks (Text.trimStart (l.content.drop f.text.length)))
          l.ending)).Worded (some .docStringContentType) :=
      worded_plain (by decide) (Text.trimEnd_ne_nil hsolid hnamed)
        (fun h => hline (Text.mem_of_mem_trimEnd h)) (Text.trimmed_trimEnd hsolid)
    rw [if_neg (by simpa using hnamed), if_neg (by simpa using hnamed)]
    refine ⟨?_, .append (.token (f.worded_text _ _)) (.node (.token htype))⟩
    simp only [Node.optional, Option.toList_some, List.map_cons, List.map_nil, Node.toElement,
      Node.ofContentType, tokensAll_cons, tokens_token, tokens_node, tokensAll_nil,
      List.append_nil, List.cons_append, List.nil_append]
    exact .cons rfl hblanks inline_nil (.single rfl rfl hend)

/-- The line that closes a doc string. -/
theorem Fence.lexed_closing (hc : f.closes l.content = true) (hn : '\n' ∉ l.content) :
    Lexed l.ending (piece .whitespace (Text.leadingBlanks l.content)) above
      [.token (closing l)] := by
  have ht : Text.trim l.content = f.text := beq_iff_eq.1 hc
  refine ⟨?_, .token (by rw [closing, ht]; exact f.worded_text _ _)⟩
  rw [tokensAll_cons, tokens_token, tokensAll_nil, List.append_nil]
  exact .single rfl rfl (inline_blanks (Text.blanks_trailingBlanks fun h =>
    hn (Text.mem_of_mem_trimStart h)))

theorem Fence.worded_content? (f : Fence) (outline : Bool) (body : List Line) :
    WordedAll above (Node.optional (f.content? outline body)) := by
  by_cases hb : Line.join body = []
  · simpa [content?, hb, Node.optional] using WordedAll.nil
  · have hwords : WordedAll above
        [((Reading.docString f).text outline (Line.join body) [] []).toElement] :=
      (Reading.docString f).worded_text rfl outline hb (fun _ => rfl) fun h => absurd rfl h
    simpa [content?, hb, Node.optional] using hwords

/-- The content of a doc string has no trivia. -/
theorem Fence.inline_content? (f : Fence) (outline : Bool) (body : List Line) :
    ∀ t ∈ tokensAll (Node.optional (f.content? outline body)),
      Inline t.leading ∧ Inline t.trailing := by
  by_cases hb : Line.join body = []
  · simp [content?, hb, Node.optional]
  · intro t ht
    simp only [content?, hb, Node.optional, List.isEmpty_iff, if_false, Option.toList_some,
      List.map_cons, List.map_nil, tokensAll_cons, tokensAll_nil, List.append_nil] at ht
    obtain ⟨hleading, htrailing⟩ := ((Reading.docString f).spells_text outline hb [] []).bare t ht
    rw [hleading, htrailing]
    exact ⟨inline_nil, inline_nil⟩

end DocStrings

end GherkinTree
