import GherkinTree.Proofs.Document
import GherkinTree.Proofs.Onward

/-!
The forms that the nodes of a parsed document have: which tokens are there, which may be lacking,
and where a text is cut at its placeholders. Main statement: each production of the grammar gives a
node of its form, whatever the document is.
-/

namespace GherkinTree

/-- A token of a kind that the source has. -/
structure Token.Present (k : Kind) (t : Token) : Prop where
  kind : t.kind = k
  found : t.missing = false

/-- A token of a kind that the source lacks. -/
structure Token.Lacking (k : Kind) (t : Token) : Prop where
  kind : t.kind = k
  lost : t.missing = true

namespace Node

inductive IsPlaceholder : Node → Prop where
  | mk {less name greater : Token} (hless : less.Present .lessThanToken)
      (hname : name.Present .identifierToken) (hgreater : greater.Present .greaterThanToken) :
      IsPlaceholder (ofPlaceholder less name greater)

/-- A piece of a text that is cut at its placeholders; its plain runs are tokens of kind `k`. -/
inductive IsPart (k : Kind) : Element → Prop where
  | run {t : Token} (ht : t.Present k) : IsPart k (.token t)
  | placeholder {n : Node} (hn : n.IsPlaceholder) : IsPart k n.toElement

/-- A text that the source has: one token, or the pieces of a text in an outline. -/
inductive IsText (k : Kind) : Bool → Node → Prop where
  | plain {t : Token} (ht : t.Present k) : IsText k false (ofLiterals [t])
  | pieces {ps : List Element} (hne : ps ≠ []) (hps : ∀ p ∈ ps, IsPart k p) :
      IsText k true (ofParts ps)

/-- A cell, whose text is lacking if the cell is empty. -/
inductive IsCell : Bool → Node → Prop where
  | empty {outline : Bool} {t : Token} (ht : t.Lacking .tableLiteralToken) :
      IsCell outline (ofCell (.token t))
  | plain {t : Token} (ht : t.Present .tableLiteralToken) : IsCell false (ofCell (.token t))
  | pieces {n : Node} (hn : n.IsText .tableLiteralToken true) : IsCell true (ofCell n.toElement)

/-- A row, which may lack the bar behind its last cell. -/
inductive IsRow (outline : Bool) : Node → Prop where
  | mk {bar : Token} {cells : List (Node × Token)} (hbar : bar.Present .verticalBarToken)
      (hcells : ∀ c ∈ cells, c.1.IsCell outline) (hbars : ∀ c ∈ cells, c.2.kind = .verticalBarToken)
      (hinner : ∀ c ∈ cells.dropLast, c.2.missing = false) : IsRow outline (ofRow bar cells)

inductive IsTable (outline : Bool) : Node → Prop where
  | mk {rows : List Node} (hne : rows ≠ []) (hrows : ∀ r ∈ rows, r.IsRow outline) :
      IsTable outline (ofTable rows)

inductive IsContentType : Node → Prop where
  | mk {t : Token} (ht : t.Present .docStringContentTypeToken) : IsContentType (ofContentType t)

/-- A doc string, which may lack its last fence. -/
inductive IsDocString (outline : Bool) : Node → Prop where
  | mk {first last : Token} {contentType content : Option Node}
      (hfirst : first.Present .docStringDelimiterToken)
      (htype : ∀ n ∈ contentType, n.IsContentType)
      (hcontent : ∀ n ∈ content, n.IsText .docStringContentToken outline)
      (hlast : last.kind = .docStringDelimiterToken) :
      IsDocString outline (ofDocString first contentType content last)

/-- The text of a step, which may be lacking. -/
inductive IsStepText : Bool → Node → Prop where
  | lacking {outline : Bool} {t : Token} (ht : t.Lacking .literalToken) :
      IsStepText outline (ofLiterals [t])
  | found {outline : Bool} {n : Node} (hn : n.IsText .literalToken outline) : IsStepText outline n

inductive IsStep (outline : Bool) : Node → Prop where
  | mk {k : Kind} {keyword : Token} {text : Node} {argument : Option Node}
      (hk : k.isStepKeyword = true) (hkeyword : keyword.Present k)
      (htext : text.IsStepText outline)
      (hargument : ∀ n ∈ argument, n.IsTable outline ∨ n.IsDocString outline) :
      IsStep outline (ofStep keyword text argument)

inductive IsTags : Node → Prop where
  | mk {ts : List Token} (hne : ts ≠ []) (hts : ∀ t ∈ ts, t.Present .tagToken) : IsTags (ofTags ts)

inductive IsDescription : Node → Prop where
  | mk {ts : List Token} (hne : ts ≠ []) (hts : ∀ t ∈ ts, t.Present .literalToken) :
      IsDescription (ofDescription ts)

end Node

/-- What may stand below the keyword of a section. -/
structure Header.Plain (h : Header) : Prop where
  name : ∀ n ∈ h.name, n.IsText .literalToken false
  description : ∀ n ∈ h.description, n.IsDescription

/-- The header of a section that the source has. -/
structure Header.IsOf (k : Kind) (h : Header) : Prop extends h.Plain where
  tags : ∀ n ∈ h.tags, n.IsTags
  keyword : h.keyword.Present k
  colon : h.colon.Present .colonToken

/-- The header of a feature without a feature line. -/
structure Header.IsImplied (h : Header) : Prop extends h.Plain where
  tags : h.tags = none
  keyword : h.keyword.Lacking .featureKeyword
  colon : h.colon.Lacking .colonToken

namespace Node

/-- A background, which has no tags and in which no text is cut. -/
inductive IsBackground : Node → Prop where
  | mk {h : Header} {steps : List Node} (hh : h.IsOf .backgroundKeyword) (ht : h.tags = none)
      (hsteps : ∀ n ∈ steps, n.IsStep false) : IsBackground (ofBackground h steps)

inductive IsExamples : Node → Prop where
  | mk {h : Header} {table : Option Node} (hh : h.IsOf .examplesKeyword)
      (htable : ∀ n ∈ table, n.IsTable false) : IsExamples (ofExamples h table)

/-- A scenario, whose texts are cut at their placeholders if its keyword says outline. -/
inductive IsScenario : Node → Prop where
  | mk {outline : Bool} {r : Role} {h : Header} {steps examples : List Node}
      (hr : r.isScenario = true) (hh : h.IsOf (.ofRole r))
      (houtline : r = .scenarioOutline → outline = true) (hsteps : ∀ n ∈ steps, n.IsStep outline)
      (hexamples : ∀ n ∈ examples, n.IsExamples) : IsScenario (ofScenario h steps examples)

inductive IsRule : Node → Prop where
  | mk {h : Header} {background : Option Node} {scenarios : List Node} (hh : h.IsOf .ruleKeyword)
      (hbackground : ∀ n ∈ background, n.IsBackground) (hscenarios : ∀ n ∈ scenarios, n.IsScenario) :
      IsRule (ofRule h background scenarios)

/-- A feature, whose title may be implied. -/
inductive IsFeature : Node → Prop where
  | mk {h : Header} {background : Option Node} {scenarios rules : List Node}
      (hh : h.IsOf .featureKeyword ∨ h.IsImplied)
      (hbackground : ∀ n ∈ background, n.IsBackground) (hscenarios : ∀ n ∈ scenarios, n.IsScenario)
      (hrules : ∀ n ∈ rules, n.IsRule) : IsFeature (ofFeature h background scenarios rules)

inductive IsDocument : Node → Prop where
  | mk {feature : Option Node} {eof : Token} (hfeature : ∀ n ∈ feature, n.IsFeature)
      (heof : eof.Present .endOfFileToken) : IsDocument (ofDocument feature eof)

end Node

namespace Node

variable {n : Node} {k : Kind} {outline : Bool}

theorem IsPlaceholder.kind_eq (h : n.IsPlaceholder) : n.kind = .interpolation := by cases h; rfl

theorem IsText.kind_eq (h : n.IsText k outline) :
    n.kind = if outline then .interpolatedText else .literalText := by cases h <;> rfl

theorem IsCell.kind_eq (h : n.IsCell outline) : n.kind = .tableCell := by cases h <;> rfl

theorem IsRow.kind_eq (h : n.IsRow outline) : n.kind = .tableRow := by cases h; rfl

theorem IsTable.kind_eq (h : n.IsTable outline) : n.kind = .table := by cases h; rfl

theorem IsContentType.kind_eq (h : n.IsContentType) : n.kind = .docStringContentType := by
  cases h
  rfl

theorem IsDocString.kind_eq (h : n.IsDocString outline) : n.kind = .docString := by cases h; rfl

theorem IsStepText.kind_eq (h : n.IsStepText outline) :
    n.kind = .literalText ∨ n.kind = .interpolatedText := by
  cases h with
  | lacking => exact .inl rfl
  | found hn =>
    rw [hn.kind_eq]
    cases outline
    · exact .inl rfl
    · exact .inr rfl

theorem IsStep.kind_eq (h : n.IsStep outline) : n.kind = .step := by cases h; rfl

theorem IsTags.kind_eq (h : n.IsTags) : n.kind = .tags := by cases h; rfl

theorem IsDescription.kind_eq (h : n.IsDescription) : n.kind = .description := by cases h; rfl

theorem IsBackground.kind_eq (h : n.IsBackground) : n.kind = .background := by cases h; rfl

theorem IsExamples.kind_eq (h : n.IsExamples) : n.kind = .examples := by cases h; rfl

theorem IsScenario.kind_eq (h : n.IsScenario) : n.kind = .scenario := by cases h; rfl

theorem IsRule.kind_eq (h : n.IsRule) : n.kind = .rule := by cases h; rfl

theorem IsFeature.kind_eq (h : n.IsFeature) : n.kind = .feature := by cases h; rfl

theorem IsDocument.kind_eq (h : n.IsDocument) : n.kind = .document := by cases h; rfl

@[simp] theorem token_mem_map_toElement {t : Token} {ns : List Node} :
    .token t ∈ ns.map toElement ↔ False := by simp [toElement]

@[simp] theorem token_mem_optional {t : Token} {n : Option Node} :
    .token t ∈ optional n ↔ False := token_mem_map_toElement

end Node

/-- What a loop collects are things that its rounds give. -/
theorem Headway.forall_mem_collect {α : Type} {step : Cursor → Option (List α × Cursor)}
    {P : α → Prop} (h : Headway step)
    (round : ∀ c xs c', step c = some (xs, c') → ∀ x ∈ xs, P x) (c : Cursor) :
    ∀ x ∈ (c.collect step).1, P x :=
  h.collect_induction (P := fun _ p => ∀ x ∈ p.1, P x) (fun _ _ => List.forall_mem_nil P)
    (fun c xs next hs ih => List.forall_mem_append.2 ⟨round c xs next hs, ih⟩) c

namespace Reading

variable (r : Reading)

theorem isPart_part (leading trailing : List Trivia) (p : Piece) :
    Node.IsPart r.kind (r.part leading trailing p) := by
  cases p with
  | literal t => exact .run ⟨rfl, rfl⟩
  | placeholder name => exact .placeholder (.mk ⟨rfl, rfl⟩ ⟨rfl, rfl⟩ ⟨rfl, rfl⟩)

theorem isPart_of_mem_parts {leading trailing : List Trivia} {ps : List Piece} :
    ∀ p ∈ r.parts leading trailing ps, Node.IsPart r.kind p := by
  fun_induction parts r leading trailing ps with
  | case1 => simp
  | case2 leading p => simpa using r.isPart_part leading trailing p
  | case3 leading p ps hps ih => simpa using ⟨r.isPart_part leading [] p, ih⟩

theorem parts_ne_nil (leading trailing : List Trivia) {ps : List Piece} (h : ps ≠ []) :
    r.parts leading trailing ps ≠ [] := by
  fun_cases parts r leading trailing ps with
  | case1 => exact absurd rfl h
  | case2 p => simp
  | case3 p ps hps => simp

theorem split_ne_nil {raw : Text} (h : raw ≠ []) : Piece.split raw ≠ [] := by
  intro he
  exact h (by rw [← Piece.text_split raw, he]; rfl)

/-- A text is one token, or its pieces in an outline. -/
theorem isText_text_of_ne_nil (outline : Bool) {raw : Text} (h : raw ≠ [])
    (leading trailing : List Trivia) :
    (r.text outline raw leading trailing).IsText r.kind outline := by
  cases outline with
  | false => exact .plain ⟨rfl, rfl⟩
  | true => exact .pieces (r.parts_ne_nil _ _ (split_ne_nil h)) r.isPart_of_mem_parts

end Reading

theorem Cell.isCell_node (outline : Bool) (c : Cell) : (c.node outline).IsCell outline := by
  by_cases hr : c.raw = []
  · rw [node, if_pos (by simp [hr])]
    exact .empty ⟨rfl, rfl⟩
  · rw [node, if_neg (by simp [hr])]
    cases outline with
    | false => exact .plain ⟨rfl, rfl⟩
    | true => exact .pieces (Reading.cell.isText_text_of_ne_nil true hr _ _)

namespace Row

/-- Each cell is a cell and has a bar behind it; only the last bar may be lacking. -/
theorem cellsWithBars_spec (outline : Bool) {last : Token} (hlast : last.kind = .verticalBarToken)
    (cs : List Cell) :
    (∀ c ∈ cellsWithBars outline last cs, c.1.IsCell outline ∧ c.2.kind = .verticalBarToken) ∧
      ∀ c ∈ (cellsWithBars outline last cs).dropLast, c.2.missing = false := by
  fun_induction cellsWithBars outline last cs with
  | case1 => simp
  | case2 c => simp [c.isCell_node, hlast]
  | case3 c cs hcs ih =>
    have hne : cellsWithBars outline last cs ≠ [] := by
      fun_cases cellsWithBars outline last cs <;> simp_all
    rw [List.dropLast_cons_of_ne_nil hne]
    refine ⟨?_, ?_⟩
    · simpa [c.isCell_node, bar, Token.plain] using ih.1
    · simpa [bar, Token.plain] using ih.2

theorem isRow_node (outline : Bool) (leading lineEnd : List Trivia) (r : Row) :
    (r.node outline leading lineEnd).IsRow outline := by
  have hrow (last : Token) (hlast : last.kind = .verticalBarToken) :
      (Node.ofRow (bar leading []) (cellsWithBars outline last r.cells)).IsRow outline := by
    obtain ⟨hcells, hinner⟩ := cellsWithBars_spec outline hlast r.cells
    exact .mk ⟨rfl, rfl⟩ (fun c hc => (hcells c hc).1) (fun c hc => (hcells c hc).2) hinner
  unfold node
  split
  · exact .mk ⟨rfl, rfl⟩ (List.forall_mem_nil _) (List.forall_mem_nil _) (List.forall_mem_nil _)
  · cases r.closed with
    | true => exact hrow _ rfl
    | false => exact hrow _ rfl

end Row

/-- A doc string has its first fence, and content if there is anything between the fences. -/
theorem Fence.isDocString_docString (f : Fence) (outline : Bool) (a : Ahead) :
    (f.docString outline a).1.IsDocString outline := by
  have hcontent (raw : Text) : ∀ n ∈ (if raw.isEmpty then none
      else some ((Reading.docString f).text outline raw [] [])),
      n.IsText .docStringContentToken outline := by
    intro n hn
    by_cases hr : raw = []
    · simp [hr] at hn
    · rw [if_neg (by simp [hr])] at hn
      cases hn
      exact (Reading.docString f).isText_text_of_ne_nil outline hr [] []
  have htype (b : Bool) (t : Token) (ht : t.Present .docStringContentTypeToken) :
      ∀ n ∈ (if b then none else some (Node.ofContentType t)), n.IsContentType := by
    intro n hn
    cases b with
    | true => cases hn
    | false =>
      cases hn
      exact .mk ht
  simp only [docString]
  split
  · exact .mk ⟨rfl, rfl⟩ (htype _ _ ⟨rfl, rfl⟩) (hcontent _) rfl
  · exact .mk ⟨rfl, rfl⟩ (htype _ _ ⟨rfl, rfl⟩) (hcontent _) rfl

namespace Grammar

variable {d : Dialect} {c : Cursor} {a : Ahead}

theorem isRow_of_row? {outline : Bool} {xs : List Node} {c' : Cursor}
    (h : row? d outline c = some (xs, c')) : ∀ n ∈ xs, n.IsRow outline := by
  unfold row? at h
  split at h
  · cases h
    simpa using Row.isRow_node outline _ _ _
  · cases h

/-- A table has a row if a row is ahead. -/
theorem rows_ne_nil (outline : Bool) (ha : d.peek? c = some a) (hk : a.kind = .tableRow) :
    (c.collect (row? d outline)).1 ≠ [] := by
  obtain ⟨n, ts, es, -, -, heq⟩ := row?_eq outline ha hk
  rw [Cursor.collect_of_some heq (headway_row? d outline _ _ _ heq).1]
  simp

theorem isTable_table (outline : Bool) (ha : d.peek? c = some a) (hk : a.kind = .tableRow) :
    (table d outline c).1.IsTable outline :=
  .mk (rows_ne_nil outline ha hk) ((headway_row? d outline).forall_mem_collect
    (fun _ _ _ => isRow_of_row?) c)

theorem isArgument_argument (outline : Bool) :
    ∀ n ∈ (argument d outline c).1, n.IsTable outline ∨ n.IsDocString outline := by
  intro n hn
  unfold argument at hn
  split at hn
  · rename_i ha
    cases hn
    exact .inl (isTable_table outline (Dialect.peek?_cursor ha) rfl)
  · cases hn
    exact .inr (Fence.isDocString_docString _ outline _)
  · cases hn

theorem isStepKeyword_ofRole {r : Role} (h : r.isStep = true) :
    (Kind.ofRole r).isStepKeyword = true := by
  simp [Kind.isStepKeyword, h]

theorem isStep_step (outline : Bool) {m : KeywordMatch} (hm : m.role.isStep = true) (a : Ahead) :
    (step d outline m a).1.IsStep outline := by
  rcases cutToken_cases m.rest a.line.ending with hc | ⟨blanks, text, hne, htext, -, hc⟩
  · simp only [step, hc, List.isEmpty_nil, if_true]
    exact .mk (isStepKeyword_ofRole hm) ⟨rfl, rfl⟩ (.lacking ⟨rfl, rfl⟩)
      (isArgument_argument outline)
  · have hempty : text.isEmpty = false := by simpa using hne
    simp only [step, hc, hempty]
    exact .mk (isStepKeyword_ofRole hm) ⟨rfl, rfl⟩
      (.found (Reading.stepText.isText_text_of_ne_nil outline (Text.trimEnd_ne_nil htext hne) _ _))
      (isArgument_argument outline)

theorem isStep_of_stepOrSkip? {outline : Bool} {xs : List Node} {c' : Cursor}
    (h : stepOrSkip? d outline c = some (xs, c')) : ∀ n ∈ xs, n.IsStep outline := by
  cases ha : d.peek? c with
  | none => simp [stepOrSkip?, ha] at h
  | some a =>
    by_cases hk : ∃ m, a.kind = .keyword m ∧ m.role.isStep = true
    · obtain ⟨m, hk, hm⟩ := hk
      rw [stepOrSkip?_of_step outline ha hk hm] at h
      cases h
      simpa using isStep_step outline hm a
    · rw [stepOrSkip?_of_not_step outline ha fun m hm => by simpa using fun hs => hk ⟨m, hm, hs⟩] at h
      split at h
      · cases h
      · cases h
        simp

theorem isStep_of_mem_steps (outline : Bool) : ∀ n ∈ (steps d outline c).1, n.IsStep outline :=
  (headway_stepOrSkip? d outline).forall_mem_collect (fun _ _ _ => isStep_of_stepOrSkip?) c

theorem present_of_mem_tokens {leading rest : List Trivia} {tags : List (Text × Text)} :
    ∀ t ∈ TagLine.tokens leading rest tags, t.Present .tagToken := by
  fun_induction TagLine.tokens leading rest tags with
  | case1 => simp
  | case2 => simpa using ⟨rfl, rfl⟩
  | case3 leading tag blanks tags ht ih => simpa using ⟨⟨rfl, rfl⟩, ih⟩

theorem present_of_mem_tagLines : ∀ t ∈ (c.collect (tagLine? d)).1, t.Present .tagToken := by
  refine (headway_tagLine? d).forall_mem_collect (fun c xs c' h => ?_) c
  unfold tagLine? at h
  split at h
  · cases h
    exact present_of_mem_tokens
  · cases h

theorem isTags_tags : ∀ n ∈ (tags d c).1, n.IsTags := by
  intro n hn
  simp only [tags] at hn
  split at hn
  · cases hn
  · rename_i hne
    cases hn
    exact .mk (by simpa using hne) present_of_mem_tagLines

theorem present_of_textLine? {xs : List Token} {c' : Cursor} (h : textLine? d c = some (xs, c')) :
    ∃ t, xs = [t] ∧ t.Present .literalToken := by
  unfold textLine? at h
  split at h
  · cases h
    exact ⟨_, rfl, rfl, rfl⟩
  · cases h

theorem present_of_mem_textLines :
    ∀ t ∈ (c.collect (textLine? d)).1, t.Present .literalToken := by
  refine (headway_textLine? d).forall_mem_collect (fun c xs c' h => ?_) c
  obtain ⟨t, rfl, ht⟩ := present_of_textLine? h
  simpa using ht

theorem isDescription_description : ∀ n ∈ (description d c).1, n.IsDescription := by
  intro n hn
  simp only [description] at hn
  split at hn
  · cases hn
  · rename_i hne
    cases hn
    exact .mk (by simpa using hne) present_of_mem_textLines

theorem isText_nameOf (text ending : Text) :
    ∀ n ∈ nameOf text ending, n.IsText .literalToken false := by
  intro n hn
  unfold nameOf at hn
  split at hn
  · cases hn
  · cases hn
    exact .plain ⟨rfl, rfl⟩

/-- Behind a structural keyword there is a colon. -/
theorem titleLine_present {m : KeywordMatch} (hcl : d.classify a.line.content = .keyword m)
    (hm : m.role.isStructural = true) :
    (titleLine m a).1.keyword.Present (.ofRole m.role) ∧
      (titleLine m a).1.colon.Present .colonToken ∧
      ∀ n ∈ (titleLine m a).1.name, n.IsText .literalToken false := by
  obtain ⟨u, hu⟩ := Dialect.colon_of_classify hcl hm
  have hcut : Line.cutToken m.rest a.line.ending = ([], ':' :: u) := by
    have hb : Text.isBlank ':' = false := by decide
    simp [Line.cutToken, hu, Text.trimStart_cons_of_not_blank hb,
      Text.leadingBlanks_cons_of_not_blank hb, Trivia.piece]
  simp only [titleLine, hcut]
  exact ⟨⟨rfl, rfl⟩, ⟨rfl, rfl⟩, isText_nameOf _ _⟩

/-- Behind lines of tags that stand above a keyword, the keyword is ahead. -/
theorem nextRole?_tags (d : Dialect) (c : Cursor) :
    d.nextRole? (tags d c).2 = d.nextRole? c ∧ tagLine? d (tags d c).2 = none := by
  refine ⟨?_, (headway_tagLine? d).collect_eq_none c⟩
  refine (headway_tagLine? d).collect_induction
    (P := fun c p => d.nextRole? p.2 = d.nextRole? c) (fun _ _ => rfl) (fun c xs next hs ih => ?_) c
  by_cases hk : ∃ a, d.peek? c = some a ∧ a.kind = .tags
  · obtain ⟨a, ha, hk⟩ := hk
    obtain ⟨ts, es, -, heq⟩ := tagLine?_eq ha hk
    rw [heq] at hs
    cases hs
    exact ih.trans (Dialect.nextRole?_of_tags ha hk rfl)
  · rw [tagLine?_eq_none fun a ha hk' => hk ⟨a, ha, hk'⟩] at hs
    cases hs

/-- The keyword that a section is chosen by, and a colon, are there once its tags are read. -/
theorem title_present {role r : Role} (hr : d.nextRole? c = some r) (ho : opens role r = true)
    (hs : r.isStructural = true) (hn : tagLine? d c = none) :
    (title d role c).1.keyword.Present (.ofRole r) ∧
      (title d role c).1.colon.Present .colonToken ∧
      ∀ n ∈ (title d role c).1.name, n.IsText .literalToken false := by
  obtain ⟨a, ha⟩ := Dialect.exists_peek? hr
  have hrole := Dialect.nextRole?_of_not_tags ha (not_tags_of_tagLine? hn ha)
  rw [hr] at hrole
  cases hk : a.kind with
  | keyword m =>
    rw [hk] at hrole
    cases hrole
    rw [title_eq ha hk ho]
    exact titleLine_present ((Dialect.fits_of_peek? ha).kind ▸ hk) hs
  | _ =>
    rw [hk] at hrole
    cases hrole

/-- A section that is chosen by the keyword ahead has that keyword and a colon. -/
theorem isOf_header {role r : Role} (hr : d.nextRole? c = some r) (ho : opens role r = true)
    (hs : r.isStructural = true) : (header d role c).1.IsOf (.ofRole r) := by
  obtain ⟨hrole, hnone⟩ := nextRole?_tags d c
  obtain ⟨hkey, hcolon, hname⟩ := title_present (hrole.trans hr) ho hs hnone
  exact ⟨⟨hname, isDescription_description⟩, isTags_tags, hkey, hcolon⟩

theorem isImplied_impliedHeader (d : Dialect) (c : Cursor) :
    (impliedHeader d c).1.IsImplied := by
  obtain ⟨c₁, hc⟩ : ∃ c₁, c₁ =
      { c.advance with pending := [] }.report (.missing c.advance.offset .featureKeyword) := ⟨_, rfl⟩
  cases ht : textLine? d c₁ with
  | none =>
    rw [impliedHeader_of_not_text hc ht]
    exact ⟨⟨nofun, nofun⟩, rfl, ⟨rfl, rfl⟩, ⟨rfl, rfl⟩⟩
  | some p =>
    obtain ⟨ts, c₂⟩ := p
    rw [impliedHeader_of_text hc ht]
    obtain ⟨t, rfl, hpresent⟩ := present_of_textLine? ht
    refine ⟨⟨fun n hn => ?_, isDescription_description⟩, rfl, ⟨rfl, rfl⟩, ⟨rfl, rfl⟩⟩
    cases hn
    exact .plain hpresent

theorem tags_header_eq_none (role : Role) (hn : tagLine? d c = none) :
    (header d role c).1.tags = none := by
  simp [header, tags, Cursor.collect_of_none hn]

theorem isBackground_background (hr : d.nextRole? c = some .background)
    (hn : tagLine? d c = none) : (background d c).1.IsBackground :=
  .mk (isOf_header hr rfl rfl) (tags_header_eq_none .background hn) (isStep_of_mem_steps false)

theorem isExamples_examples (hr : d.nextRole? c = some .examples) :
    (examples d c).1.IsExamples := by
  have hh : (header d .examples c).1.IsOf .examplesKeyword := isOf_header hr rfl rfl
  by_cases hrow : ∃ a, d.peek? (header d .examples c).2 = some a ∧ a.kind = .tableRow
  · obtain ⟨a, ha, hk⟩ := hrow
    rw [examples_of_row ha hk]
    refine .mk hh fun n hn => ?_
    cases hn
    exact isTable_table false (Dialect.peek?_cursor ha) hk
  · rw [examples_of_not_row fun a ha hk => hrow ⟨a, ha, hk⟩]
    exact .mk hh nofun

theorem isExamples_of_examplesOrSkip? {xs : List Node} {c' : Cursor}
    (h : examplesOrSkip? d c = some (xs, c')) : ∀ n ∈ xs, n.IsExamples := by
  cases ha : d.peek? c with
  | none => simp [examplesOrSkip?, ha] at h
  | some a =>
    rw [examplesOrSkip?_eq ha] at h
    split at h
    · rename_i hr
      cases h
      rw [← Dialect.nextRole?_cursor ha] at hr
      simpa using isExamples_examples hr
    · split at h
      · cases h
      · cases h
        simp

theorem opens_scenario {r : Role} (h : r.isScenario = true) : opens .scenario r = true := by
  rcases Role.eq_of_isScenario h with rfl | rfl <;> rfl

theorem isStructural_of_isScenario {r : Role} (h : r.isScenario = true) :
    r.isStructural = true := by
  rcases Role.eq_of_isScenario h with rfl | rfl <;> rfl

theorem isScenario_scenario {r : Role} (hr : d.nextRole? c = some r) (hs : r.isScenario = true) :
    (scenario d c).1.IsScenario := by
  have hh := isOf_header hr (opens_scenario hs) (isStructural_of_isScenario hs)
  simp only [scenario]
  generalize header d .scenario c = p at *
  obtain ⟨h, c₁⟩ := p
  refine .mk hs hh (fun he => ?_) (isStep_of_mem_steps _)
    ((headway_examplesOrSkip? d).forall_mem_collect
      (fun _ _ _ => isExamples_of_examplesOrSkip?) _)
  rw [hh.keyword.kind, he]
  rfl

theorem isScenario_of_scenarioOrSkip? {xs : List Node} {c' : Cursor}
    (h : scenarioOrSkip? d c = some (xs, c')) : ∀ n ∈ xs, n.IsScenario := by
  cases ha : d.peek? c with
  | none => simp [scenarioOrSkip?, ha] at h
  | some a =>
    rw [scenarioOrSkip?_eq ha] at h
    split at h
    · rename_i hany
      cases h
      obtain ⟨r, hr, hs⟩ := (Option.any_eq_true _ _).1 hany
      rw [← Dialect.nextRole?_cursor ha] at hr
      simpa using isScenario_scenario hr hs
    · split at h
      · cases h
      · cases h
        simp

theorem tagLine?_cursor_eq_none (ha : d.peek? c = some a) (hk : a.kind ≠ .tags) :
    tagLine? d a.cursor = none := by
  refine tagLine?_eq_none fun a' ha' => ?_
  rw [Dialect.peek?_cursor ha] at ha'
  cases ha'
  exact hk

theorem isBackground_background? (d : Dialect) (c : Cursor) :
    ∀ n ∈ (background? d c).1, n.IsBackground := by
  intro n hn
  cases ha : d.peek? c with
  | none => simp [background?, ha] at hn
  | some a =>
    rw [background?_eq ha] at hn
    split at hn
    · rename_i hb
      cases hn
      exact isBackground_background (by rw [Dialect.nextRole?_cursor ha, hb.1])
        (tagLine?_cursor_eq_none ha hb.2)
    · cases hn

theorem parts_of_body (d : Dialect) (c : Cursor) :
    (∀ n ∈ (body d c).1, n.IsBackground) ∧ ∀ n ∈ (body d c).2.1, n.IsScenario :=
  ⟨isBackground_background? d _, (headway_scenarioOrSkip? d).forall_mem_collect
    (fun _ _ _ => isScenario_of_scenarioOrSkip?) _⟩

theorem isRule_rule (hr : d.nextRole? c = some .rule) : (rule d c).1.IsRule := by
  obtain ⟨hbackground, hscenarios⟩ := parts_of_body d (header d .rule c).2
  exact .mk (isOf_header hr rfl rfl) hbackground hscenarios

theorem isRule_of_ruleOrSkip? {xs : List Node} {c' : Cursor}
    (h : ruleOrSkip? d c = some (xs, c')) : ∀ n ∈ xs, n.IsRule := by
  cases ha : d.peek? c with
  | none => simp [ruleOrSkip?, ha] at h
  | some a =>
    by_cases hr : d.nextRole? c = some .rule
    · rw [ruleOrSkip?_eq ha hr] at h
      cases h
      rw [← Dialect.nextRole?_cursor ha] at hr
      simpa using isRule_rule hr
    · rw [ruleOrSkip?_of_not_rule ha hr] at h
      cases h
      simp

theorem isOf_featureHeader (d : Dialect) (c : Cursor) :
    (featureHeader d c).1.IsOf .featureKeyword ∨ (featureHeader d c).1.IsImplied := by
  unfold featureHeader
  cases ha : d.peek? c with
  | none => exact .inr (isImplied_impliedHeader d c)
  | some a =>
    dsimp only
    rw [Dialect.roleAhead_eq ha]
    dsimp only
    split
    · rename_i hr
      rw [← Dialect.nextRole?_cursor ha] at hr
      exact .inl (isOf_header hr rfl rfl)
    · exact .inr (isImplied_impliedHeader d c)

theorem isFeature_feature (d : Dialect) (c : Cursor) : (feature d c).1.IsFeature := by
  obtain ⟨hbackground, hscenarios⟩ := parts_of_body d (featureHeader d c).2
  exact .mk (isOf_featureHeader d c) hbackground hscenarios
    ((headway_ruleOrSkip? d).forall_mem_collect (fun _ _ _ => isRule_of_ruleOrSkip?) _)

/-- A document has its form, whatever the lines are. -/
theorem isDocument_document (d : Dialect) (c : Cursor) : (document d c).1.IsDocument := by
  refine .mk (fun n (hn : (feature? d c).1 = some n) => ?_) ⟨rfl, rfl⟩
  unfold feature? at hn
  cases ha : d.peek? c with
  | none =>
    rw [ha] at hn
    cases hn
  | some a =>
    rw [ha] at hn
    cases hn
    exact isFeature_feature d a.cursor

end Grammar

/-- The tree of a document has the form of one. -/
theorem isDocument_parse (d : Dialect) (text : Text) : (parse d text).root.IsDocument :=
  Grammar.isDocument_document _ _

end GherkinTree
