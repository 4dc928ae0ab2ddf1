import GherkinTree.Proofs.Accessor
import GherkinTree.Proofs.Insertion
import GherkinTree.Proofs.KeywordTable
import GherkinTree.Proofs.Lockstep
import Mathlib

/-!
Blank lines and comments are nothing but trivia. A document and the same document with such a line
put in are read in lockstep: both readers face the same line wherever they stand, and the line that
is put in is among what is pending. Only between the fences of a doc string it would be content.
Main statement: outside of doc strings, putting in a blank line or a comment changes neither the
tree, trivia left aside, nor the dialect.
-/

namespace GherkinTree

/-- The token without the trivia around it. -/
def Token.bare (t : Token) : Token := { t with leading := [], trailing := [] }

/-- The tree without its trivia: the kinds of all nodes and tokens, the texts and values of the
tokens and which of them are lacking. -/
def Element.bare (e : Element) : Element := e.mapTokens Token.bare

namespace Node

/-- Where the line behind the first fence of a doc string begins, if the doc string begins at an
offset: behind the type of the content, if there is one. -/
def bodyStart (offset : Nat) (n : Node) : Nat :=
  match n.children with
  | first :: .node .docStringContentType cs :: _ =>
    offset + (first.fullWidth + Element.fullWidthAll cs)
  | first :: _ => offset + first.fullWidth
  | [] => offset

/-- Where the line with the last fence of a doc string begins, or where the document ends if it is
lacking. -/
def bodyStop (offset : Nat) (n : Node) : Nat := offset + Element.fullWidthAll n.children.dropLast

/-- The line that opens a doc string ends behind the type of the content. -/
theorem bodyStart_ofDocString (o : Nat) (first last : Token) {contentType content : Option Node}
    (htype : ∀ n ∈ contentType, n.kind = .docStringContentType)
    (hcontent : ∀ n ∈ content, n.kind ≠ .docStringContentType) :
    (ofDocString first contentType content last).bodyStart o =
      o + Element.fullWidthAll (.token first :: optional contentType) := by
  cases contentType with
  | some n =>
    obtain ⟨k, cs⟩ := n
    cases htype _ rfl
    simp [ofDocString, bodyStart, optional, toElement]
  | none =>
    cases content with
    | none => simp [ofDocString, bodyStart, optional]
    | some n =>
      obtain ⟨k, cs⟩ := n
      have hk : k ≠ .docStringContentType := hcontent _ rfl
      unfold bodyStart
      split
      · rename_i h
        simp only [ofDocString, optional, toElement, Option.toList, List.map_cons, List.map_nil,
          List.cons_append, List.nil_append, List.cons.injEq, Element.node.injEq] at h
        exact absurd h.2.1.1 hk
      · rename_i h
        cases h
        simp [optional]
      · rename_i h
        cases h

end Node

/-- Whether an offset is between the fences of a doc string, both ends included. -/
def DocStringView.Encloses (d : DocStringView) (p : Nat) : Prop :=
  d.node.node.bodyStart d.node.offset ≤ p ∧ p ≤ d.node.node.bodyStop d.node.offset

instance (d : DocStringView) (p : Nat) : Decidable (d.Encloses p) :=
  inferInstanceAs (Decidable (_ ∧ _))

open Element Grammar

theorem Trivia.widthOf_append (ps qs : List Trivia) :
    widthOf (ps ++ qs) = widthOf ps + widthOf qs := by
  rw [← width_render, render_append, Text.width_append, width_render, width_render]

theorem Token.fullWidth_plain (k : Kind) (t : Text) (leading trailing : List Trivia) :
    (plain k t leading trailing).fullWidth =
      Trivia.widthOf leading + Text.width t + Trivia.widthOf trailing := rfl

theorem Token.fullWidth_absent (k : Kind) (leading trailing : List Trivia) :
    (absent k leading trailing).fullWidth = Trivia.widthOf leading + Trivia.widthOf trailing := rfl

section Bare

/-! The lines of a document without their trivia do not depend on what is pending. -/

variable {d : Dialect} {c n : Cursor} {a : Ahead} {ts : List Token}

@[simp] theorem Token.bare_plain (k : Kind) (t : Text) (leading trailing : List Trivia) :
    (plain k t leading trailing).bare = plain k t [] [] := rfl

@[simp] theorem Token.bare_absent (k : Kind) (leading trailing : List Trivia) :
    (absent k leading trailing).bare = absent k [] [] := rfl

theorem TagLine.bare_tokens (leading rest : List Trivia) (tags : List (Text × Text)) :
    (tokens leading rest tags).map Token.bare = tags.map fun p => .plain .tagToken p.1 [] [] := by
  fun_induction tokens leading rest tags with
  | case1 => rfl
  | case2 leading tag blanks => rfl
  | case3 leading tag blanks tags ht ih => rw [List.map_cons, ih, List.map_cons, Token.bare_plain]

theorem Grammar.bare_tagLine? (ha : d.peek? c = some a) (hk : a.kind = .tags)
    (h : tagLine? d c = some (ts, n)) :
    ts.map Token.bare =
      (TagLine.split a.line.content).tags.map fun p => .plain .tagToken p.1 [] [] := by
  obtain ⟨cur, l, k⟩ := a
  cases hk
  simp only [tagLine?, ha, Option.some.injEq, Prod.mk.injEq] at h
  rw [← h.1, TagLine.bare_tokens]

theorem Grammar.bare_textLine? (ha : d.peek? c = some a) (hk : a.kind = .text)
    (h : textLine? d c = some (ts, n)) :
    ts.map Token.bare = [.plain .literalToken (Text.trimEnd a.line.content) [] []] := by
  obtain ⟨cur, l, k⟩ := a
  cases hk
  simp only [textLine?, ha, Option.some.injEq, Prod.mk.injEq] at h
  rw [← h.1]
  rfl

theorem Row.bare_node (outline : Bool) (leading lineEnd : List Trivia) (r : Row) :
    (r.node outline leading lineEnd).toElement.bare =
      (r.node outline [] lineEnd).toElement.bare := by
  unfold node
  split
  · rfl
  · simp [Element.bare, Node.ofRow, Node.toElement, mapTokensAll, bar]

theorem Grammar.bare_row? {outline : Bool} {r : Node} (ha : d.peek? c = some a)
    (hk : a.kind = .tableRow) (h : row? d outline c = some ([r], n)) :
    let row := Row.split a.line.content.tail
    r.toElement.bare =
      (row.node outline [] (Trivia.lineEnd row.rest a.line.ending)).toElement.bare := by
  obtain ⟨cur, l, k⟩ := a
  cases hk
  simp only [row?, ha, Option.some.injEq, Prod.mk.injEq, List.cons.injEq, and_true] at h
  rw [← h.1, Row.bare_node]

theorem Grammar.Title.leavesAll_elements (t : Title) : leavesAll false t.elements = t.leaves := by
  simp [elements, leaves, Node.leavesAll_optional]

theorem Grammar.bare_titleLine (m : KeywordMatch) {a a' : Ahead} (h : a'.line = a.line) :
    mapTokensAll Token.bare (titleLine m a).1.elements =
      mapTokensAll Token.bare (titleLine m a').1.elements := by
  simp only [titleLine, h]
  split
  · simp [Title.elements, mapTokensAll]
  · simp [Title.elements, mapTokensAll]

theorem Grammar.bare_stepLine (outline : Bool) (m : KeywordMatch) {a a' : Ahead}
    (h : a'.line = a.line) :
    (stepLine outline m a).1.bare = (stepLine outline m a').1.bare ∧
      (stepLine outline m a).2.1 = (stepLine outline m a').2.1 := by
  simp only [stepLine, h]
  split
  · exact ⟨rfl, rfl⟩
  · exact ⟨rfl, rfl⟩

end Bare

namespace Fence

variable (f : Fence) (outline : Bool)

theorem fullWidthAll_content? (body : List Line) :
    fullWidthAll (Node.optional (f.content? outline body)) = Text.width (Line.join body) := by
  by_cases hb : Line.join body = []
  · simp [content?, hb, Node.optional]
  · have hs := ((Reading.docString f).spells_text outline hb [] []).render
    rw [renderAll_tokens] at hs
    simp [content?, hb, Node.optional, ← width_render, hs]

variable {f} {d : Dialect} {c : Cursor} {a : Ahead} {o : Nat}

/-- The first fence and the type of the content take the line that opens the doc string. -/
theorem fullWidthAll_opening (ha : a.Fits d c) (hk : a.kind = .docString f) :
    fullWidthAll
        (.token (f.first a.cursor.pending a.line) :: Node.optional (f.contentType? a.line)) =
      Trivia.widthOf a.cursor.pending + a.line.width := by
  have hr := congrArg Text.width (kept_opening ha hk).render
  rw [Text.width_append, Trivia.width_render] at hr
  rw [← widthAll_tokensAll, Line.width, ← hr, Token.widthAll]
  simp only [opening, first, contentType?]
  split
  · simp [Node.optional]
  · simp [Node.optional, Node.ofContentType, Node.toElement]

theorem bodyStart_docString (ha : a.Fits d c) (hk : a.kind = .docString f)
    (ho : o + Trivia.widthOf a.cursor.pending = a.cursor.offset) :
    (f.docString outline a).1.bodyStart o = a.cursor.offset + a.line.width := by
  have hcontent : ∀ n ∈ f.content? outline (f.body a.consume.lines),
      n.kind ≠ .docStringContentType := by
    intro n hn
    rcases f.kind_content? outline _ n hn with hk | hk
    · simp [hk]
    · simp [hk]
  rw [docString_eq, Node.bodyStart_ofDocString o _ _ (f.kind_contentType? a.line) hcontent,
    fullWidthAll_opening ha hk]
  omega

theorem bodyStop_docString (ha : a.Fits d c) (hk : a.kind = .docString f)
    (ho : o + Trivia.widthOf a.cursor.pending = a.cursor.offset) :
    (f.docString outline a).1.bodyStop o =
      a.cursor.offset + a.line.width + Text.width (Line.join (f.body a.consume.lines)) := by
  rw [docString_eq, Node.ofDocString, Node.bodyStop, List.dropLast_concat, fullWidthAll_append,
    fullWidthAll_opening ha hk, fullWidthAll_content?]
  omega

theorem fullWidth_docString (ha : a.Fits d c) (hk : a.kind = .docString f) :
    fullWidthAll [(f.docString outline a).1.toElement] =
      Trivia.widthOf a.cursor.pending + a.line.width +
        Text.width (Line.join (f.body a.consume.lines)) +
          (last (f.behindBody a.consume.lines)).fullWidth := by
  rw [docString_eq, Node.ofDocString, Node.toElement, fullWidthAll, fullWidth, fullWidthAll_append,
    fullWidthAll_append, fullWidthAll_opening ha hk, fullWidthAll_content?]
  simp

end Fence

namespace Twin

/-- A document and the same document with the line `l` put in at the offset `p`. -/
def inserting (p : Nat) (l : Line) : Twin where
  left := Token.bare
  right := Token.bare
  guard _ o n := n.kind = .docString → ¬(n.bodyStart o ≤ p ∧ p ≤ n.bodyStop o)
  At o c c' := o + Trivia.widthOf c.pending = c.offset ∧ l.Inserted p c.offset c.lines c'.lines

variable {p : Nat} {l : Line} {d : Dialect} {above : Option Kind} {o : Nat} {c c' : Cursor}
  {a a' : Ahead}

theorem same_tokens {ts ts' : List Token} (h : ts.map Token.bare = ts'.map Token.bare) :
    (inserting p l).Same (ts.map .token) (ts'.map .token) := by
  have hb (us : List Token) :
      mapTokensAll Token.bare (us.map .token) = (us.map Token.bare).map .token := by
    simp [mapTokensAll_eq]
  rw [Same, inserting, hb, hb, h]

variable (hl : Line.isTrivial (Text.trimStart l.content) = true)

include hl

theorem at_advance (h : (inserting p l).At o c c') :
    (inserting p l).At o c.advance c'.advance := by
  obtain ⟨hp, hi⟩ := h
  refine ⟨?_, hi.cutTrivia hl⟩
  rw [Cursor.pending_advance, Cursor.offset_advance, Trivia.widthOf_append, ← Nat.add_assoc, hp]

/-- Both readers face the same line. -/
theorem Faces.alike (h : (inserting p l).Faces d o c c' a a') :
    a'.line = a.line ∧ l.Inserted p (a.cursor.offset + a.line.width) a.cursor.lines.tail
      a'.cursor.lines.tail := by
  have hf := Dialect.fits_of_peek? h.left
  have hf' := Dialect.fits_of_peek? h.right
  have hi := h.cursors.2
  rw [hf.lines, hf'.lines] at hi
  have hne : a'.line ≠ l := hf'.begins.ne_of_trivial hl
  obtain ⟨hn, -⟩ | ⟨m, ms, ms', hm, hm', hi⟩ := hi.heads (by simpa using hne)
  · cases hn
  · obtain ⟨hline, htail⟩ := List.cons.inj hm
    obtain ⟨hline', htail'⟩ := List.cons.inj hm'
    rw [hline, hline', htail, htail']
    exact ⟨rfl, hi⟩

/-- A line of which the same is kept leads to places that belong together. -/
theorem Faces.gives_kept (h : (inserting p l).Faces d o c c' a a') {ts : List Token}
    {es es' : List Event} (hk : Kept d a ts es) {els els' : List Element}
    (hts : leavesAll false els = ts.map .token) (hs : (inserting p l).Same els els') :
    (inserting p l).Gives above o els els' (a.take es) (a'.take es') := by
  refine fun _ => ⟨hs, ?_, (h.alike hl).2⟩
  have hat := h.cursors.1
  have htokens : tokensAll els = ts := by
    rw [← tokensAll_leavesAll false, hts, Leaf.tokensAll_map_token]
  have hw := congrArg Text.width hk.render
  rw [Text.width_append, Trivia.width_render, ← htokens] at hw
  rw [← widthAll_tokensAll, Token.widthAll, hw, Ahead.pending_take, Ahead.offset_take, Line.width]
  simp only [Trivia.widthOf_nil]
  omega

/-- A doc string that the line is not put into is the same in both documents. -/
theorem Faces.gives_docString (h : (inserting p l).Faces d o c c' a a') (outline : Bool)
    {f : Fence} (hk : a.kind = .docString f) :
    (inserting p l).Gives above o [(f.docString outline a).1.toElement]
      [(f.docString outline a').1.toElement] (f.docString outline a).2
      (f.docString outline a').2 := by
  intro hguard
  obtain ⟨hline, hi⟩ := h.alike hl
  have hf := Dialect.fits_of_peek? h.left
  have ho := h.cursors.1
  have hstart := Fence.bodyStart_docString outline hf hk ho
  have hstop := Fence.bodyStop_docString outline hf hk ho
  have hout : ¬((f.docString outline a).1.bodyStart o ≤ p ∧
      p ≤ (f.docString outline a).1.bodyStop o) := by
    rw [everywhereAll_cons, Node.toElement, everywhere_node] at hguard
    exact hguard.1.1 (by rw [Fence.docString_eq]; rfl)
  rw [hstart, hstop] at hout
  obtain ⟨hbody, hrest⟩ := hi.body f hout
  obtain ⟨hlast, hbehind⟩ := hrest.last (f.head?_behindBody_ne hl _)
  obtain ⟨hlines, hoffset, hpending⟩ := f.cursor_docString outline a
  obtain ⟨hlines', -, -⟩ := f.cursor_docString outline a'
  refine ⟨?_, ?_, ?_⟩
  · have hfirst : (f.first a.cursor.pending a.line).bare =
        (f.first a'.cursor.pending a.line).bare := rfl
    rw [f.docString_eq, f.docString_eq, hline, Ahead.lines_consume, Ahead.lines_consume, hbody,
      hlast]
    simp [Same, inserting, Node.toElement, Node.ofDocString, mapTokensAll, hfirst]
  · rw [Fence.fullWidth_docString outline hf hk, hpending, hoffset, Ahead.offset_consume,
      Trivia.widthOf_nil]
    omega
  · rw [hlines, hlines', hoffset]
    exact hbehind

/-- Documents that differ in a blank line or a comment are read in lockstep. -/
theorem lockstep_inserting (d : Dialect) : (inserting p l).Lockstep d where
  peek {o c c'} h := by
    have hat := at_advance hl h
    have hne : c'.advance.lines.head? ≠ some l := by
      intro hhead
      obtain ⟨ms, hms⟩ := List.head?_eq_some_iff.1 hhead
      exact (Cursor.begins_of_cutTrivia hms).ne_of_trivial hl rfl
    obtain ⟨hn, hn'⟩ | ⟨m, ms, ms', hm, hm', -⟩ := hat.2.heads hne
    · exact .inl ⟨Dialect.peek?_eq_none_iff.2 hn, Dialect.peek?_eq_none_iff.2 hn'⟩
    · refine .inr ⟨⟨c.advance, m, d.classify m.content⟩, ⟨c'.advance, m, d.classify m.content⟩,
        ?_, ?_, rfl, hat⟩
      · rw [Dialect.peek?, hm]
      · rw [Dialect.peek?, hm']
  role {o c c'} h := by
    rcases h.2 with hc | ⟨xs, ys, hc, hc', -⟩
    · rw [Dialect.nextRole?, Dialect.nextRole?, hc]
    · rw [Dialect.nextRole?, Dialect.nextRole?, hc, hc', d.kindAfterTags?_insert hl]
  hasExamples {o c c'} h := by
    rcases h.2 with hc | ⟨xs, ys, hc, hc', -⟩
    · rw [hc]
    · rw [hc, hc', d.hasExamples_insert hl]
  skip {o c c' a a'} h := by
    refine ⟨?_, (h.alike hl).2⟩
    have ho := h.cursors.1
    change o + Trivia.widthOf (a.cursor.pending ++ a.line.pieces .skippedText) =
      a.cursor.offset + a.line.width
    rw [Trivia.widthOf_append, Trivia.widthOf_pieces]
    omega
  tagLine {o c c' a a'} h hk := by
    have hk' := h.kind.trans hk
    obtain ⟨ts, es, hkept, heq⟩ := tagLine?_eq h.left hk
    obtain ⟨ts', es', -, heq'⟩ := tagLine?_eq h.right hk'
    refine ⟨ts, _, ts', _, heq, heq',
      h.gives_kept hl hkept (leavesAll_map_token false ts) (same_tokens ?_)⟩
    rw [bare_tagLine? h.left hk heq, bare_tagLine? h.right hk' heq', (h.alike hl).1]
  textLine {above o c c' a a'} h hk := by
    have hk' := h.kind.trans hk
    obtain ⟨ts, hkept, heq⟩ := textLine?_eq h.left hk
    obtain ⟨ts', -, heq'⟩ := textLine?_eq h.right hk'
    refine ⟨ts, _, ts', _, heq, heq',
      h.gives_kept hl hkept (leavesAll_map_token false ts) (same_tokens ?_)⟩
    rw [bare_textLine? h.left hk heq, bare_textLine? h.right hk' heq', (h.alike hl).1]
  row {outline o c c' a a'} h hk := by
    have hk' := h.kind.trans hk
    obtain ⟨r, ts, es, hkept, hr, heq⟩ := row?_eq outline h.left hk
    obtain ⟨r', ts', es', -, -, heq'⟩ := row?_eq outline h.right hk'
    refine ⟨r, _, r', _, heq, heq', h.gives_kept hl hkept ?_ ?_⟩
    · simpa [Node.leaves] using hr
    · have hbare := bare_row? h.left hk heq
      rw [← (h.alike hl).1] at hbare
      exact congrArg (· :: []) (hbare.trans (bare_row? h.right hk' heq').symm)
  title {above o c c' a a' m} h hk hm := by
    obtain ⟨ts, hkept, hts, heq⟩ := titleLine_eq h.left hk hm
    obtain ⟨ts', -, -, heq'⟩ := titleLine_eq h.right (h.kind.trans hk) hm
    rw [heq, heq']
    refine h.gives_kept hl hkept ?_ (bare_titleLine m (h.alike hl).1)
    rw [Title.leavesAll_elements, hts]
  stepLine {outline o c c' a a' m} h hk _ := by
    obtain ⟨ts, es, hkept, hts, heq⟩ := stepLine_eq outline h.left hk
    obtain ⟨ts', es', -, -, heq'⟩ := stepLine_eq outline h.right (h.kind.trans hk)
    obtain ⟨hkeyword, htext⟩ := bare_stepLine outline m (h.alike hl).1
    rw [heq, heq']
    refine h.gives_kept hl hkept ?_ ?_
    · simpa [Node.leaves] using hts
    · simp only [Same, inserting, mapTokensAll, mapTokens_token, hkeyword, htext]
  docString h hk := h.gives_docString hl _ hk
  imply {above o c c'} h := by
    obtain ⟨ho, hi⟩ := at_advance hl h
    refine fun _ => ⟨rfl, ?_, hi⟩
    simpa [Token.fullWidth_absent, Token.fullWidth_plain, implied] using ho
  eof {above o c c'} h := by
    obtain ⟨ho, hi⟩ := at_advance hl h
    refine fun _ => ⟨rfl, ?_, hi⟩
    simpa [Token.fullWidth_absent, Token.fullWidth_plain, implied] using ho

end Twin

namespace FeatureFile

/-- A blank line or a comment that is put between two lines, not inside of a doc string. -/
theorem bare_parse_of_lines (o : Options) {text text' : Text} {l : Line} {xs ys : List Line}
    (hl : Line.isTrivial (Text.trimStart l.content) = true) (h : Line.split text = xs ++ ys)
    (h' : Line.split text' = xs ++ l :: ys)
    (houtside : ∀ d : DocStringView, d.node ∈ (parse o text).root.descendants →
      ¬d.Encloses (Text.width (Line.join xs)))
    (hdirective : languageCode? (Text.trim l.content) = none ∨
      ∃ x ∈ xs, Line.isTrivial (Text.trimStart x.content) = false) :
    (parse o text').tree.toElement.bare = (parse o text).tree.toElement.bare ∧
      (parse o text').dialect = (parse o text).dialect := by
  have hdialect : (parse o text').dialect = (parse o text).dialect := by
    change (Preamble.read o.dialect 0 _).dialect = (Preamble.read o.dialect 0 _).dialect
    rw [h, h']
    exact Preamble.dialect_read_insert hl o.dialect 0 0 xs ys hdirective
  refine ⟨?_, hdialect⟩
  have hat : (Twin.inserting (Text.width (Line.join xs)) l).At 0
      (Preamble.read o.dialect 0 (Line.split text)).cursor
      (Preamble.read o.dialect 0 (Line.split text')).cursor := by
    have hi : l.Inserted (Text.width (Line.join xs)) 0 (Line.split text) (Line.split text') :=
      .inr ⟨xs, ys, h, h', Nat.zero_add _⟩
    have hcut := hi.cutTrivia hl
    rw [Nat.zero_add, ← Preamble.widthOf_read o.dialect 0, ← Preamble.lines_read o.dialect 0,
      ← Preamble.lines_read o.dialect 0] at hcut
    exact ⟨Nat.zero_add _, hcut⟩
  have hguard : (parse o text).root.MeetsBelow
      (Twin.inserting (Text.width (Line.join xs)) l).guard := by
    refine (PlacedNode.forall_descendants_iff _).1 fun m hm hk => ?_
    exact houtside ⟨m, by rw [PlacedNode.kind, hk]; rfl⟩ hm
  have hgives : Twin.Gives _ none 0 _ _ _ _ :=
    (Twin.lockstep_inserting hl (parse o text).dialect).document hat
  have hsame := (hgives ((everywhereAll_cons _ _).2 ⟨hguard, everywhereAll_nil.2 trivial⟩)).1
  have htree : (parse o text').tree = (Grammar.document (parse o text).dialect
      (Preamble.read o.dialect 0 (Line.split text')).cursor).1 := by
    rw [← hdialect]
    rfl
  simp only [Twin.Same, Twin.inserting, mapTokensAll, List.cons.injEq, and_true] at hsame
  rw [Element.bare, Element.bare, htree, ← hsame]
  rfl

/-- A blank line or a comment may be put in front of any line, except between the fences of a doc
string: the tree stays the same, trivia left aside, and so does the dialect, unless the line is a
directive and only blank lines and comments stand above it. -/
theorem bare_parse_insert (o : Options) {above below blanks comment ending : Text}
    (habove : above = [] ∨ above.getLast? = some '\n')
    (hblanks : ∀ c ∈ blanks, Text.isBlank c = true ∧ c ≠ '\n')
    (hcomment : comment = [] ∨ comment.head? = some '#') (hline : '\n' ∉ comment)
    (hending : ending = ['\n'] ∨ ending = ['\r', '\n'])
    (houtside : ∀ d : DocStringView, d.node ∈ (parse o (above ++ below)).root.descendants →
      ¬d.Encloses (Text.width above))
    (hdirective : languageCode? comment = none ∨
      ∃ l ∈ Line.split above, Line.isTrivial (Text.trimStart l.content) = false) :
    let f := parse o (above ++ below)
    let g := parse o (above ++ (blanks ++ comment ++ ending) ++ below)
    g.tree.toElement.bare = f.tree.toElement.bare ∧ g.dialect = f.dialect := by
  obtain ⟨l, hl, htrivial, hcode⟩ := Line.split_trivial hblanks hcomment hline hending
  have hbreak : (blanks ++ comment ++ ending).getLast? = some '\n' := by
    rcases hending with rfl | rfl <;> simp
  have hlines' : Line.split (above ++ (blanks ++ comment ++ ending) ++ below) =
      Line.split above ++ l :: Line.split below := by
    rw [List.append_assoc, Line.split_append habove, Line.split_append (.inr hbreak), hl]
    rfl
  refine bare_parse_of_lines o htrivial (Line.split_append habove below) hlines' ?_ ?_
  · rwa [Line.join_split]
  · rwa [hcode]

/-- Below a doc string, between a step and its table, a directive is a comment like any other. -/
theorem bare_parse_insert_table :
    let above := "Scenario:\n* a\n\x22\x22\x22\n\x22\x22\x22\n* b\n".toList
    let below := "|d|\n".toList
    let f := parse .default (above ++ below)
    let g := parse .default (above ++ "\t# language: fr \r\n".toList ++ below)
    (∀ d : DocStringView, d.node ∈ f.root.descendants → ¬d.Encloses (Text.width above)) ∧
      (∃ d : DocStringView, d.node ∈ f.root.descendants ∧ d.Encloses 18) ∧
      g.tree.toElement.bare = f.tree.toElement.bare ∧ g.dialect = f.dialect := by
  intro above below f g
  have hfacts : ((f.root.descendants.filterMap (View.cast? .docString)).all
      (fun d : DocStringView => !decide (d.Encloses (Text.width above))) &&
        (f.root.descendants.filterMap (View.cast? .docString)).any
          fun d : DocStringView => decide (d.Encloses 18)) = true := by
    dsimp only [f, above, below]
    rw [Options.default_eq]
    cbv
  simp only [Bool.and_eq_true, List.all_eq_true, List.any_eq_true, Bool.not_eq_true',
    decide_eq_false_iff_not, decide_eq_true_eq] at hfacts
  obtain ⟨hall, d, hd, hbody⟩ := hfacts
  have houtside : ∀ d : DocStringView, d.node ∈ f.root.descendants →
      ¬d.Encloses (Text.width above) := fun d hd => hall d (View.mem_filterMap_cast? hd)
  have htab : ∀ c ∈ ['\t'], Text.isBlank c = true ∧ c ≠ '\n' := by
    simp only [List.mem_singleton, forall_eq]
    decide
  have hsame := @bare_parse_insert .default above below ['\t'] "# language: fr ".toList
    ['\r', '\n'] (.inr (by decide)) htab (.inr (by decide)) (by decide) (.inr rfl) houtside
    (.inr ⟨_, List.mem_cons_self, by decide⟩)
  exact ⟨houtside, ⟨d, View.mem_of_mem_filterMap_cast? hd, hbody⟩, hsame⟩

end FeatureFile

end GherkinTree
