import GherkinTree.FeatureFile
import GherkinTree.Proofs.Directive
import GherkinTree.Proofs.Escape
import GherkinTree.Proofs.FenceEscape
import GherkinTree.Proofs.Line

/-!
Doc strings written from values. An escaped value can still hold a fence, as marks that are left over
join those of an escaped fence in front of them, but then no blank stands in front of it. So no line
of an escaped value is a fence alone. Main statement: an escaped value written between two fences is
read back as the content between them, whatever the indentation of the fences.
-/

namespace GherkinTree

namespace Fence

variable (f : Fence) {t v : Text}

/-- Whatever stands in front of a fence in the text ends with no blank. -/
def Shut (t : Text) : Prop :=
  ∀ p s, t = p ++ f.text ++ s → ∃ c, p.getLast? = some c ∧ Text.isBlank c = false

/-- An escaped value is shut: in front of a fence in it stands a part of an escaped fence, or a mark
that could not be escaped with the next two. -/
theorem shut_escape (v : Text) : f.Shut (f.escape v) := by
  have hescaped : ∀ c ∈ f.escaped, Text.isBlank c = false := fun c hc => by
    obtain rfl | rfl : c = '\\' ∨ c = f.mark := by
      simp only [escaped, List.mem_cons, List.not_mem_nil] at hc
      tauto
    · decide
    · exact f.mark_not_blank
  induction v using Text.replace_induction f.text_ne_nil with
  | nil =>
    intro p s h
    rw [escape, Text.replace_nil] at h
    simp [text] at h
  | found t ih =>
    intro p s h
    rw [escape_text_append, List.append_assoc] at h
    rcases List.append_eq_append_iff.1 h with ⟨q, rfl, hq⟩ | ⟨q, hp, hq⟩
    · obtain ⟨c, hc, hblank⟩ := ih q s (by rw [hq, List.append_assoc])
      exact ⟨c, by rw [List.getLast?_append, hc, Option.some_or], hblank⟩
    · rcases List.eq_nil_or_concat p with rfl | ⟨r, c, rfl⟩
      · -- an escaped fence begins with no mark
        rw [List.nil_append] at hp
        rw [← hp] at hq
        exact absurd (List.cons.inj hq).1 f.mark_ne_backslash
      · rw [List.concat_eq_append] at hp ⊢
        refine ⟨c, List.getLast?_concat, hescaped c ?_⟩
        rw [hp]
        simp
  | char c t hc ih =>
    intro p s h
    have hescape : f.escape (c :: t) = c :: f.escape t := Text.replace_cons hc
    rw [hescape] at h
    cases p with
    | nil =>
      -- the value itself would begin with a fence, which is escaped
      obtain ⟨rfl, h₁⟩ := List.cons.inj h
      rcases Text.cases_of_replace f.text_ne_nil h₁ with ⟨r, -, hr⟩ | ⟨t₁, rfl, h₂, -⟩
      · exact absurd (List.cons.inj hr).1 f.mark_ne_backslash.symm
      · rcases Text.cases_of_replace f.text_ne_nil h₂ with ⟨r, -, hr⟩ | ⟨t₂, rfl, -, -⟩
        · exact absurd (List.cons.inj hr).1 f.mark_ne_backslash.symm
        · exact absurd ⟨t₂, rfl⟩ hc
    | cons d p =>
      obtain ⟨x, hx, hblank⟩ := ih p s (List.cons.inj h).2
      refine ⟨x, ?_, hblank⟩
      rw [List.getLast?_cons, hx]
      rfl

/-- A line feed behind a text makes no fence. -/
theorem Shut.append_newline (h : f.Shut t) : f.Shut (t ++ ['\n']) := by
  intro p s hs
  rcases List.eq_nil_or_concat s with rfl | ⟨r, c, rfl⟩
  · have hlast := congrArg List.getLast? hs
    simp [text] at hlast
    exact absurd f.mark_not_blank (by rw [← hlast]; decide)
  · rw [List.concat_eq_append, ← List.append_assoc] at hs
    exact h p r (List.append_inj_left' hs rfl)

/-- No line of a shut text is a fence alone. -/
theorem Shut.not_closes (h : f.Shut t) : ∀ l ∈ Line.split t, f.closes l.content = false := by
  intro l hl
  by_contra hcloses
  obtain ⟨above, below, hsplit⟩ := List.append_of_mem hl
  have htrim : Text.trim l.content = f.text := by simpa [closes] using hcloses
  have hcontent : l.content = Text.leadingBlanks l.content ++ f.text ++
      Text.trailingBlanks (Text.trimStart l.content) := by
    rw [← htrim, List.append_assoc, Text.trim, Text.trimEnd_append_trailingBlanks,
      Text.leadingBlanks_append_trimStart]
  have htext : t = Line.join above ++ Text.leadingBlanks l.content ++ f.text ++
      (Text.trailingBlanks (Text.trimStart l.content) ++ l.ending ++ Line.join below) := by
    have hjoin := Line.join_split t
    rw [hsplit, Line.join_append, Line.join_cons, Line.full, hcontent] at hjoin
    rw [← hjoin]
    simp
  obtain ⟨c, hc, hblank⟩ := h _ _ htext
  -- what stands in front of the fence are the blanks of its line and the line break above
  rw [List.getLast?_append] at hc
  cases hlead : (Text.leadingBlanks l.content).getLast? with
  | some x =>
    rw [hlead, Option.some_or] at hc
    obtain rfl := Option.some.inj hc
    have hx := Text.blank_leadingBlanks l.content x (List.mem_of_getLast? hlead)
    rw [hblank] at hx
    cases hx
  | none =>
    rw [hlead, Option.none_or] at hc
    rcases Line.ends_above hsplit with rfl | habove
    · cases hc
    · rw [habove] at hc
      obtain rfl := Option.some.inj hc
      cases hblank

/-- The reader goes on behind the line of the last fence. -/
theorem cursor_of_closed {f : Fence} {a : Ahead} {m : Line} {ms : List Line} (outline : Bool)
    (h : f.behindBody a.consume.lines = m :: ms) :
    (f.docString outline a).2 = { a.consume with
      lines := ms
      offset := a.consume.offset + Text.width (Line.join (f.body a.consume.lines)) + m.width } := by
  rw [behindBody] at h
  unfold docString
  dsimp only
  rw [h]
  rfl

end Fence

/-- A value escaped for a fence and written between two of them, on lines of their own. -/
structure WrittenDocString where
  fence : Fence
  value : Text
  /-- What stands in front of the first fence. -/
  indent : Text
  /-- What stands in front of the last fence. -/
  lastIndent : Text
  /-- The line break behind the last fence. -/
  ending : Text
  below : Text
  blanks : ∀ c ∈ indent ++ lastIndent, Text.isBlank c = true ∧ c ≠ '\n'
  /-- The last fence may end the source. -/
  ends : ending = ['\n'] ∨ ending = ['\r', '\n'] ∨ (ending = [] ∧ below = [])

namespace WrittenDocString

variable (w : WrittenDocString)

/-- The escaped value, with a line break behind it if its last line lacks one. -/
def body : Text :=
  let raw := w.fence.escape w.value
  if raw = [] ∨ raw.getLast? = some '\n' then raw else raw ++ ['\n']

/-- The line of the first fence. -/
def firstLine : Line := ⟨w.indent ++ w.fence.text, ['\n']⟩

/-- The line of the last fence. -/
def lastLine : Line := ⟨w.lastIndent ++ w.fence.text, w.ending⟩

def text : Text := w.firstLine.full ++ (w.body ++ (w.lastLine.full ++ w.below))

theorem blank_indent : ∀ c ∈ w.indent, Text.isBlank c = true :=
  fun c hc => (w.blanks c (List.mem_append_left _ hc)).1

theorem blank_lastIndent : ∀ c ∈ w.lastIndent, Text.isBlank c = true :=
  fun c hc => (w.blanks c (List.mem_append_right _ hc)).1

theorem body_ends : w.body = [] ∨ w.body.getLast? = some '\n' := by
  unfold body
  dsimp only
  split
  · assumption
  · exact .inr List.getLast?_concat

/-- Nothing stands between the fences exactly if the value is empty. -/
theorem body_eq_nil_iff : w.body = [] ↔ w.value = [] := by
  unfold body
  dsimp only
  split
  · exact w.fence.escape_eq_nil_iff
  · rename_i h
    refine iff_of_false (by simp) fun hv => h (.inl ?_)
    exact w.fence.escape_eq_nil_iff.2 hv

theorem shut_body : w.fence.Shut w.body := by
  unfold body
  dsimp only
  split
  · exact w.fence.shut_escape w.value
  · exact (w.fence.shut_escape w.value).append_newline

theorem newline_not_mem {b : Text} (hb : ∀ c ∈ b, Text.isBlank c = true ∧ c ≠ '\n') :
    '\n' ∉ b ++ w.fence.text := by
  intro h
  rcases List.mem_append.1 h with h | h
  · exact (hb _ h).2 rfl
  · have hmark : '\n' = w.fence.mark := by simpa [Fence.text] using h
    exact absurd w.fence.mark_not_blank (by rw [← hmark]; decide)

/-- Each line with a fence is cut off, and what stands between them is cut into lines of its own. -/
theorem split_text : Line.split w.text =
    w.firstLine :: (Line.split w.body ++ w.lastLine :: Line.split w.below) := by
  have hlast (b : Text) : (b ++ w.fence.text).getLast? ≠ some '\r' := by
    cases w.fence <;> simp [Fence.text, Fence.mark]
  have hbelow : Line.split (w.lastLine.full ++ w.below) = w.lastLine :: Line.split w.below := by
    rw [Line.full, List.append_assoc]
    refine Line.split_content ?_ (hlast w.lastIndent) ?_
    · exact w.newline_not_mem fun c hc => w.blanks c (List.mem_append_right _ hc)
    · refine w.ends.imp_right (.imp_right fun h => ⟨h.1, h.2, ?_⟩)
      simp [lastLine, Fence.text]
  have hfirst : '\n' ∉ w.firstLine.content :=
    w.newline_not_mem fun c hc => w.blanks c (List.mem_append_left _ hc)
  have hbreak : w.firstLine.ending = ['\n'] := rfl
  rw [text, Line.full, List.append_assoc,
    Line.split_content hfirst (hlast w.indent) (.inl hbreak), Line.split_append w.body_ends, hbelow]

/-- A fence behind blanks is a line that opens or closes a doc string. -/
theorem cut_fence {b : Text} (hb : ∀ c ∈ b, Text.isBlank c = true) :
    Text.leadingBlanks (b ++ w.fence.text) = b ∧
      Text.trimStart (b ++ w.fence.text) = w.fence.text ∧
      w.fence.closes (b ++ w.fence.text) = true := by
  obtain ⟨hlead, hstart⟩ := Text.cut_blanks hb (t := w.fence.text) rfl w.fence.mark_not_blank
  refine ⟨hlead, hstart, ?_⟩
  rw [Fence.closes, Text.trim, hstart, beq_iff_eq]
  cases w.fence <;> decide

/-- The reader cuts the doc string at its two fences: between them stand the lines of the body. -/
theorem body_behindBody :
    w.fence.body (Line.split w.body ++ w.lastLine :: Line.split w.below) = Line.split w.body ∧
      w.fence.behindBody (Line.split w.body ++ w.lastLine :: Line.split w.below) =
        w.lastLine :: Line.split w.below := by
  have hopen : ∀ l ∈ Line.split w.body, (!w.fence.closes l.content) = true := by
    intro l hl
    rw [w.shut_body.not_closes _ l hl]
    rfl
  have hclose : w.fence.closes w.lastLine.content = true :=
    (w.cut_fence w.blank_lastIndent).2.2
  constructor
  · rw [Fence.body, List.takeWhile_append_of_pos hopen,
      List.takeWhile_cons_of_neg (by simp [hclose]), List.append_nil]
  · rw [Fence.behindBody, List.dropWhile_append_of_pos hopen,
      List.dropWhile_cons_of_neg (by simp [hclose])]

/-- The first fence as it is read behind some pending trivia. -/
def firstToken (pending : List Trivia) : Token :=
  .plain .docStringDelimiterToken w.fence.text (pending ++ Trivia.piece .whitespace w.indent)
    (Trivia.piece .newline ['\n'])

/-- The last fence as it is read. -/
def lastToken : Token :=
  .plain .docStringDelimiterToken w.fence.text (Trivia.piece .whitespace w.lastIndent)
    (Trivia.piece .newline w.ending)

/-- Whether a doc string is the fences with the body between them: there is content exactly if there
is a value, and its tokens make up the body. -/
def IsRead (outline : Bool) (pending : List Trivia) (n : Node) : Prop :=
  ∃ content, n = .ofDocString (w.firstToken pending) none content w.lastToken ∧
    (content = none ↔ w.value = []) ∧
    ∀ m ∈ content, m = (Reading.docString w.fence).text outline w.body [] [] ∧
      Token.renderAll m.toElement.tokens = w.body

theorem first_eq (pending : List Trivia) :
    w.fence.first (pending ++ Trivia.piece .whitespace w.indent) ⟨w.fence.text, ['\n']⟩ =
      w.firstToken pending := by
  simp [Fence.first, firstToken, Text.leadingBlanks, Text.trimStart, Text.trailingBlanks,
    Text.cutEnd, Trivia.lineEnd, Trivia.piece]

theorem contentType?_eq (e : Text) : w.fence.contentType? ⟨w.fence.text, e⟩ = none := by
  simp [Fence.contentType?, Text.trimStart]

theorem closing_eq : Fence.closing w.lastLine = w.lastToken := by
  obtain ⟨hlead, hstart, hcloses⟩ := w.cut_fence w.blank_lastIndent
  have htrim : Text.trim w.lastLine.content = w.fence.text := by
    simpa [Fence.closes, lastLine] using hcloses
  have htrail : Text.trailingBlanks w.fence.text = [] := by cases w.fence <;> decide
  rw [Fence.closing, htrim, lastLine, hlead, hstart, htrail]
  rfl

/-- With the lines of the body and the last fence ahead, the doc string is read. -/
theorem isRead_docString (outline : Bool) {a : Ahead} {pending : List Trivia}
    (hpending : a.cursor.pending = pending ++ Trivia.piece .whitespace w.indent)
    (hline : a.line = ⟨w.fence.text, ['\n']⟩)
    (hlines : a.consume.lines = Line.split w.body ++ w.lastLine :: Line.split w.below) :
    w.IsRead outline pending (w.fence.docString outline a).1 := by
  obtain ⟨hbody, hbehind⟩ := w.body_behindBody
  refine ⟨w.fence.content? outline (Line.split w.body), ?_, ?_, ?_⟩
  · rw [Fence.docString_eq, hlines, hbody, hbehind, hpending, hline, w.first_eq, w.contentType?_eq,
      Fence.last, w.closing_eq]
  · rw [← w.body_eq_nil_iff, Fence.content?, Line.join_split]
    simp
  · intro m hm
    rw [Fence.content?, Line.join_split] at hm
    split at hm
    · cases hm
    · rename_i hne
      obtain rfl := Option.some.inj hm
      have hspells := (Reading.docString w.fence).spells_text outline (by simpa using hne) [] []
      exact ⟨rfl, by simpa using hspells.render⟩

/-- An escaped value cannot close its doc string: no line of it is the fence alone, and between two
fences it is read as the content, up to the last fence. -/
theorem reads_escape (d : Dialect) (outline : Bool) {c : Cursor}
    (hc : c.lines = Line.split w.text) :
    (∀ l ∈ Line.split (w.fence.escape w.value), Text.trim l.content ≠ w.fence.text) ∧
      ∃ a, d.peek? c = some a ∧ a.kind = .docString w.fence ∧
        w.IsRead outline c.pending (w.fence.docString outline a).1 ∧
        (w.fence.docString outline a).2 = { c with
          lines := Line.split w.below
          offset := c.offset + Text.width (w.firstLine.full ++ w.body ++ w.lastLine.full)
          pending := [] } := by
  constructor
  · intro l hl htrim
    have hopen := (w.fence.shut_escape w.value).not_closes _ l hl
    rw [Fence.closes, htrim, beq_self_eq_true] at hopen
    cases hopen
  · obtain ⟨hlead, hstart, hcloses⟩ := w.cut_fence w.blank_indent
    rw [w.split_text] at hc
    obtain ⟨a, ha, hkind, hpending, hline, hlines, hoffset, hevents⟩ :=
      Fence.peek?_of_closes (d := d) hcloses hc
    rw [firstLine, hlead] at hpending hoffset
    rw [firstLine, hstart] at hline
    change a.consume.lines = _ at hlines
    refine ⟨a, ha, hkind, w.isRead_docString outline hpending hline hlines, ?_⟩
    obtain ⟨hbody, hbehind⟩ := w.body_behindBody
    rw [Fence.cursor_of_closed outline (by rw [hlines, hbehind]), hlines, hbody, Line.join_split,
      Ahead.consume, hoffset, hline, hevents]
    simp only [Line.width, Line.full, firstLine, Text.width_append, Nat.add_assoc]

/-- Of five marks the last two are left over, in front of a line that would be a fence. -/
theorem reads_escape_five_marks :
    let w : WrittenDocString := ⟨.quotes, "\"\"\"\"\"\n\"\"\"".toList, [' '], ['\t'], [], [],
      by simp [Text.isBlank], .inr (.inr ⟨rfl, rfl⟩)⟩
    let c : Cursor := ⟨Line.split w.text, 0, [], []⟩
    w.text = " \"\"\"\n\\\"\\\"\\\"\"\"\n\\\"\\\"\\\"\n\t\"\"\"".toList ∧
      ∃ a, Options.default.dialect.peek? c = some a ∧
        w.IsRead true [] (w.fence.docString true a).1 ∧
        (w.fence.docString true a).2.lines = [] := by
  intro w c
  have htext : w.text = " \"\"\"\n\\\"\\\"\\\"\"\"\n\\\"\\\"\\\"\n\t\"\"\"".toList := by cbv
  have hc : c.lines = Line.split w.text := rfl
  obtain ⟨-, a, ha, -, hread, hcursor⟩ := w.reads_escape Options.default.dialect true hc
  exact ⟨htext, a, ha, hread, by rw [hcursor]; rfl⟩

end WrittenDocString

end GherkinTree
