import GherkinTree.Proofs.KeywordTable
import GherkinTree.Proofs.Layout
import GherkinTree.Proofs.Origin
import GherkinTree.Proofs.Value

/-!
What a doc string takes of its source. A fenced stretch of a source begins with a line that begins
with a fence and goes on to the next line that is the same fence, whatever the lines between them
hold, or to the end of the source. Main statement: each doc string of a document is read from a
fenced stretch of its source, as which its parts stand in the tree.
-/

namespace GherkinTree

open Element Grammar

/-- A stretch of a source from a line that begins with a fence on. The body is the lines below it up
to the next line that is the fence. -/
structure FencedText (source : Text) where
  fence : Fence
  above : List Line
  opening : Line
  /-- What stands behind the fence on the line that opens the stretch. -/
  behind : Text
  body : List Line
  /-- The lines from the closing one on. -/
  rest : List Line
  lines : Line.split source = above ++ opening :: (body ++ rest)
  opens : Text.trimStart opening.content = fence.text ++ behind
  inside : ∀ m ∈ body, Text.trim m.content ≠ fence.text
  closes : ∀ m ∈ rest.head?, Text.trim m.content = fence.text

namespace FencedText

variable {source : Text} (x : FencedText source)

/-- The offset of the fence that opens the stretch. -/
def start : Nat :=
  Text.width (Line.join x.above) + Text.width (Text.leadingBlanks x.opening.content)

/-- The end of the line that opens the stretch. -/
def bodyStart : Nat := Text.width (Line.join x.above) + x.opening.width

/-- The start of the line that closes the stretch, or the end of the source if none does. -/
def bodyStop : Nat := x.bodyStart + Text.width (Line.join x.body)

/-- The body is the source between the two offsets. -/
theorem source_eq : source =
    Line.join x.above ++ x.opening.full ++ Line.join x.body ++ Line.join x.rest := by
  nth_rewrite 1 [← Line.join_split source]
  rw [x.lines, Line.join_append, Line.join_cons, Line.join_append]
  simp only [List.append_assoc]

theorem bodyStop_add_width_rest :
    x.bodyStop + Text.width (Line.join x.rest) = Text.width source := by
  have h := congrArg Text.width x.source_eq
  rw [Text.width_append, Text.width_append, Text.width_append] at h
  exact h.symm

end FencedText

/-- The fences of a doc string. -/
def DocStringView.fences (d : DocStringView) : List PlacedToken :=
  d.node.childTokens.filter (·.kind == .docStringDelimiterToken)

/-- The fence that closes a stretch of a source, or the place where it is lacking. -/
structure FencedText.EndsWith {source : Text} (x : FencedText source) (d : DocStringView)
    (last : PlacedToken) : Prop where
  start : last.fullSpan.start = x.bodyStop
  closed : ∀ m ∈ x.rest.head?, last.token.missing = false ∧ last.token.text = x.fence.text ∧
    last.fullSpan.stop = x.bodyStop + m.width
  unclosed : x.rest = [] → last.token.missing = true ∧ last.token.text = [] ∧
    d.node.fullSpan.stop = Text.width source

/-- The doc string that a fenced stretch of a source is read into. -/
structure FencedText.IsReadAs {source : Text} (x : FencedText source) (d : DocStringView) :
    Prop where
  fence : d.fence? = some x.fence
  fences : ∃ first last, d.fences = [first, last] ∧ first.token.missing = false ∧
    first.token.text = x.fence.text ∧ first.span.start = x.start ∧ x.EndsWith d last
  isClosed : d.isClosed = true ↔ x.rest ≠ []
  contentType : d.contentType? =
    if Text.trim x.behind = [] then none else some (Text.trim x.behind)
  content : ∀ t, View.childOf? .text d.node = some t →
    t.node.text = Line.join x.body ∧ t.node.fullSpan.start = x.bodyStart ∧
      t.node.fullSpan.stop = x.bodyStop
  noContent : View.childOf? .text d.node = none ↔ x.bodyStart = x.bodyStop

section Reading

variable {source : Text} {x : FencedText source} {d : DocStringView} {outline : Bool} {a : Ahead}

/-- A stretch of a source begins with the line ahead and what is pending in front of it, which
begins at an offset. -/
structure FencedText.IsAhead (x : FencedText source) (o : Nat) (a : Ahead) : Prop where
  line : a.line.content = x.fence.text ++ x.behind
  body : x.fence.body a.consume.lines = x.body
  rest : x.fence.behindBody a.consume.lines = x.rest
  start : o + Trivia.widthOf a.cursor.pending = x.start
  bodyStart : o + fullWidthAll (.token (x.fence.first a.cursor.pending a.line) ::
    Node.optional (x.fence.contentType? a.line)) = x.bodyStart

/-- A line ahead that begins with a fence begins a stretch of the source. -/
theorem FencedText.exists_isAhead {dialect : Dialect} {f : Fence} {o : Nat}
    (h : a.cursor.OpensAt source o) (ha : dialect.peek? a.cursor = some a)
    (hk : a.kind = .docString f) : ∃ x : FencedText source, x.fence = f ∧ x.IsAhead o a := by
  have hfits := Dialect.fits_of_peek? ha
  have hstarts : a.cursor.offset = o + Trivia.widthOf a.cursor.pending := h.starts
  obtain ⟨above, l, hsplit, hoffset, hstart, hcut⟩ := h.placed.exists_above ha
  obtain ⟨behind, hbehind⟩ := Dialect.classify_eq_docString (hfits.kind ▸ hk)
  let x : FencedText source :=
    { fence := f
      above := above
      opening := l.line
      behind := behind
      body := f.body a.consume.lines
      rest := f.behindBody a.consume.lines
      lines := by
        rw [hsplit, f.body_append_behindBody, Ahead.lines_consume]
      opens := by
        rw [← hbehind, hcut]
        rfl
      inside := by
        intro m hm
        have hopen := f.not_closes_body hm
        simpa [Fence.closes] using hopen
      closes := fun m hm => beq_iff_eq.1 (f.closes_behindBody (Option.mem_def.1 hm)) }
  refine ⟨x, rfl, hbehind, rfl, rfl, ?_, ?_⟩
  · rw [← hstarts, hstart, SourceLine.start, hoffset]
    rfl
  · have hwidth := l.start_add_width
    rw [SourceLine.stop, hoffset, ← hstart, ← hcut] at hwidth
    rw [Fence.fullWidthAll_opening hfits hk]
    change _ = Text.width (Line.join above) + l.line.width
    omega

namespace FencedText.IsAhead

variable (h : x.IsAhead d.node.offset a) (hd : d.node.node = (x.fence.docString outline a).1)

include h hd

/-- The children of a doc string: the line that opens it, the body, and the last fence. -/
theorem children_eq : d.node.node.children =
    (.token (x.fence.first a.cursor.pending a.line) ::
        Node.optional (x.fence.contentType? a.line)) ++
      (Node.optional (x.fence.content? outline x.body) ++ [.token (Fence.last x.rest)]) := by
  rw [hd, x.fence.docString_eq, Node.ofDocString, h.body, h.rest, List.append_assoc]

theorem fullSpan_stop : d.node.fullSpan.stop = x.bodyStop + (Fence.last x.rest).fullWidth := by
  have hwidth : d.node.node.fullWidth = fullWidthAll d.node.node.children := rfl
  change d.node.offset + d.node.node.fullWidth = _
  rw [hwidth, h.children_eq hd, fullWidthAll_append, fullWidthAll_append,
    Fence.fullWidthAll_content?, ← Nat.add_assoc, h.bodyStart, bodyStop]
  simp [Nat.add_assoc]

/-- The fences stand at the start of the doc string and behind the body. -/
theorem fences_eq : ∃ i, d.fences =
    [⟨x.fence.first a.cursor.pending a.line, d.node.offset, 0, d.node⟩,
      ⟨Fence.last x.rest, x.bodyStop, i, d.node⟩] := by
  have htokens : ∃ i, d.node.childTokens =
      [⟨x.fence.first a.cursor.pending a.line, d.node.offset, 0, d.node⟩,
        ⟨Fence.last x.rest, x.bodyStop, i, d.node⟩] := by
    rw [PlacedNode.childTokens, PlacedNode.children, h.children_eq hd,
      PlacedNode.childrenFrom_append, PlacedNode.childrenFrom_append, h.bodyStart,
      Fence.fullWidthAll_content?, ← bodyStop, PlacedNode.childrenFrom, List.filterMap_append,
      List.filterMap_append, List.filterMap_cons, PlacedNode.token?_childrenFrom_optional,
      PlacedNode.token?_childrenFrom_optional]
    exact ⟨_, rfl⟩
  obtain ⟨i, hi⟩ := htokens
  have hfirst : (x.fence.first a.cursor.pending a.line).kind = .docStringDelimiterToken := rfl
  have hlast : (Fence.last x.rest).kind = .docStringDelimiterToken := by
    cases x.rest <;> rfl
  refine ⟨i, ?_⟩
  rw [DocStringView.fences, hi]
  simp [PlacedToken.kind, hfirst, hlast]

theorem endsWith {i : Nat} : x.EndsWith d ⟨Fence.last x.rest, x.bodyStop, i, d.node⟩ where
  start := rfl
  closed := by
    intro m hm
    obtain ⟨below, hrest⟩ := List.head?_eq_some_iff.1 hm
    rw [hrest]
    refine ⟨rfl, x.closes m hm, ?_⟩
    exact congrArg (x.bodyStop + ·) (Fence.fullWidth_closing m)
  unclosed := by
    intro hrest
    rw [h.fullSpan_stop hd, ← x.bodyStop_add_width_rest, hrest]
    exact ⟨rfl, rfl, rfl⟩

theorem isClosed : d.isClosed = true ↔ x.rest ≠ [] := by
  obtain ⟨i, hi⟩ := h.fences_eq hd
  rw [DocStringView.isClosed, ← DocStringView.fences, hi]
  cases x.rest with
  | nil => simp [Fence.last, Token.absent]
  | cons m below => simp [Fence.last, Fence.closing, Token.plain]

theorem contentType : d.contentType? =
    if Text.trim x.behind = [] then none else some (Text.trim x.behind) := by
  have hbehind : a.line.content.drop x.fence.text.length = x.behind := by
    rw [h.line, List.drop_left]
  have hcontent : (x.fence.content? outline x.body).toList.find?
      (·.kind == .docStringContentType) = none := by
    apply List.find?_eq_none.2
    intro n hn
    rcases x.fence.kind_content? outline x.body n (Option.mem_toList.1 hn) with hk | hk
    · simp [hk]
    · simp [hk]
  have htype := d.node.map_node_childNode? .docStringContentType
  rw [DocStringView.nodesOf_children hd, List.find?_append, h.body, hcontent, Option.or_none,
    Fence.contentType?, hbehind] at htype
  rw [DocStringView.contentType?]
  by_cases hblank : Text.trimStart x.behind = []
  · rw [if_pos (by simpa using hblank)] at htype
    have hnone : d.node.childNode? .docStringContentType = none := Option.map_eq_none_iff.1 htype
    rw [if_pos (by rw [Text.trim, hblank, Text.trimEnd_nil]), hnone]
    rfl
  · rw [if_neg (by simpa using hblank)] at htype
    obtain ⟨m, hm, hnode⟩ := Option.map_eq_some_iff.1 htype
    have hsolid : Text.trim x.behind ≠ [] :=
      Text.trimEnd_ne_nil (Text.trimStart_trimStart x.behind) hblank
    have hfirst := PlacedNode.firstToken?_of_token (congrArg Node.children hnode)
    rw [if_neg hsolid, hm, Option.bind_some, hfirst]
    rfl

/-- The content begins behind the line that opens the doc string. -/
theorem offset_content {t : TextView} (ht : View.childOf? .text d.node = some t) :
    t.node.offset = x.bodyStart := by
  have hnode := DocStringView.map_node_content hd
  rw [ht, Option.map_some, h.body] at hnode
  have hchildren := h.children_eq hd
  rw [← hnode] at hchildren
  have hopening : ∀ n ∈ nodesOf (.token (x.fence.first a.cursor.pending a.line) ::
      Node.optional (x.fence.contentType? a.line)), ViewType.text.accepts n.kind = false := by
    rw [nodesOf_token, nodesOf_optional]
    exact x.fence.not_accepts_contentType? a.line
  obtain ⟨u, hu, -, hoffset, -⟩ := View.childOf?_behind hchildren t.fits hopening
  rw [ht] at hu
  cases hu
  rw [hoffset, h.bodyStart]

theorem content {t : TextView} (ht : View.childOf? .text d.node = some t) (hf : d.node.Filled) :
    t.node.text = Line.join x.body ∧ t.node.fullSpan.start = x.bodyStart ∧
      t.node.fullSpan.stop = x.bodyStop := by
  have hoffset := h.offset_content hd ht
  have hreads := DocStringView.content_reads hd ht
  rw [h.body] at hreads
  have hnode := DocStringView.map_node_content hd
  rw [ht, Option.map_some, h.body] at hnode
  have hwidth := x.fence.fullWidthAll_content? outline x.body
  rw [← hnode] at hwidth
  have hfull : t.node.node.fullWidth = Text.width (Line.join x.body) := by
    simpa [Node.optional, Node.toElement, Node.fullWidth] using hwidth
  refine ⟨hreads.text_eq (View.filled_of_childOf? hf ht) rfl, hoffset, ?_⟩
  change t.node.offset + t.node.node.fullWidth = _
  rw [hoffset, hfull, bodyStop]

theorem noContent : View.childOf? .text d.node = none ↔ x.bodyStart = x.bodyStop := by
  rw [← Option.map_eq_none_iff, DocStringView.map_node_content hd, h.body, Fence.content?, bodyStop,
    Nat.left_eq_add, Text.width_eq_zero_iff]
  simp

/-- The doc string that the line ahead opens. -/
theorem isReadAs (hf : d.node.Filled) : x.IsReadAs d where
  fence := DocStringView.fence?_eq hd
  fences := by
    obtain ⟨i, hi⟩ := h.fences_eq hd
    exact ⟨_, _, hi, rfl, rfl, h.start, h.endsWith hd⟩
  isClosed := h.isClosed hd
  contentType := h.contentType hd
  content := fun _ ht => h.content hd ht hf
  noContent := h.noContent hd

end FencedText.IsAhead

end Reading

namespace FeatureFile

/-- Every doc string of a document is read from a fenced stretch of the source: the raw content is
the text between the line with the first fence and the first line below it that is the same fence,
or the end of the source. -/
theorem fenced_parse (o : Options) (text : Text) {d : DocStringView}
    (hd : d.node ∈ (parse o text).root.descendants) :
    ∃ x : FencedText text, x.IsReadAs d := by
  have hkind : d.node.node.kind = .docString := ViewType.eq_of_accepts d.fits rfl (by decide)
  obtain ⟨f, outline, a, hopens, ha, hk, hnode⟩ := (origin_of_mem_descendants hd).docString hkind
  obtain ⟨x, rfl, hx⟩ := FencedText.exists_isAhead hopens ha hk
  exact ⟨x, hx.isReadAs hnode ((filled_root o text).of_mem hd)⟩

/-- Neither the other fence nor a comment closes a doc string, and one may lack its last fence. -/
theorem fenced_parse_steps :
    let f := parse .default
      "Example:\n* a\n \x22\x22\x22 b\r\n```\n# c\n\x22\x22\x22\n* d\n```\n".toList
    ∃ d d' : DocStringView, d.node ∈ f.root.descendants ∧ d'.node ∈ f.root.descendants ∧
      d.rawContent = "```\n# c\n".toList ∧ d.contentType? = some ['b'] ∧ d.isClosed = true ∧
      d'.rawContent = [] ∧ d'.contentType? = none ∧ d'.isClosed = false ∧
      (∃ x : FencedText f.source.text, x.IsReadAs d) ∧
        ∃ x : FencedText f.source.text, x.IsReadAs d' := by
  intro f
  have hviews : (f.root.descendants.filterMap (View.cast? .docString)).map
      (fun d : DocStringView => (d.rawContent, d.contentType?, d.isClosed)) =
        [("```\n# c\n".toList, some ['b'], true), ([], none, false)] := by
    dsimp only [f]
    rw [Options.default_eq]
    cbv
  obtain ⟨d, ds, hlist, hvalues, hviews⟩ := List.map_eq_cons_iff.1 hviews
  obtain ⟨d', ds', hlist', hvalues', -⟩ := List.map_eq_cons_iff.1 hviews
  have hd : d.node ∈ f.root.descendants := by
    apply View.mem_of_mem_filterMap_cast?
    rw [hlist]
    exact List.mem_cons_self
  have hd' : d'.node ∈ f.root.descendants := by
    apply View.mem_of_mem_filterMap_cast?
    rw [hlist, hlist']
    exact List.mem_cons_of_mem d List.mem_cons_self
  obtain ⟨hraw, hvalues⟩ := Prod.mk.inj hvalues
  obtain ⟨htype, hclosed⟩ := Prod.mk.inj hvalues
  obtain ⟨hraw', hvalues'⟩ := Prod.mk.inj hvalues'
  obtain ⟨htype', hclosed'⟩ := Prod.mk.inj hvalues'
  exact ⟨d, d', hd, hd', hraw, htype, hclosed, hraw', htype', hclosed',
    fenced_parse .default _ hd, fenced_parse .default _ hd'⟩

end FeatureFile

end GherkinTree
