import GherkinTree.Proofs.Edge
import GherkinTree.Proofs.Selection
import GherkinTree.Proofs.Survey
import Mathlib

/-!
What the log tells of a document. Whatever the reader meets goes to the log at once, while what is
wrong is sorted by position only in the end. Main statement: the log tells of the diagnostics of a
document and of the directives in its tree that select dialects, of each of them once, in the order
in which they stand in the source; so the reader meets all problems in that order.
-/

namespace GherkinTree

/-- Whatever has spans in order is found again by sorting it. -/
theorem Span.mergeSort_eq {α : Type} (span : α → Span) {xs ys : List α} (hperm : xs.Perm ys)
    (h : ys.Pairwise fun a b => (span a).Before (span b)) :
    xs.mergeSort (fun a b => (span a).le (span b)) = ys := by
  have hsymm : Std.Symm fun a b => (span a).Before (span b) ∨ (span b).Before (span a) :=
    ⟨fun _ _ h => h.symm⟩
  have hapart : ys.Pairwise fun a b => (span a).Before (span b) ∨ (span b).Before (span a) :=
    h.imp Or.inl
  -- two of them that go before each other are the same, since one is before the other otherwise
  have hanti (a b : α) (ha : a ∈ ys) (hb : b ∈ ys) (hab : (span a).le (span b) = true)
      (hba : (span b).le (span a) = true) : a = b := by
    by_contra hne
    have hbefore := hapart.forall ha hb hne
    simp only [le_iff] at hab hba
    unfold Before at hbefore
    omega
  have hsorted : (xs.mergeSort fun a b => (span a).le (span b)).Pairwise
      fun a b => (span a).le (span b) = true :=
    List.pairwise_mergeSort (fun a b c => by simp only [le_iff]; omega)
      (fun a b => by simp only [Bool.or_eq_true, le_iff]; omega) xs
  have hall := (List.mergeSort_perm xs fun a b => (span a).le (span b)).trans hperm
  exact hall.eq_of_pairwise (fun a b ha hb => hanti a b (hall.mem_iff.1 ha) hb) hsorted
    (h.imp le_of_before)

/-- Whether a token is lacking. -/
def Diagnostic.isLack (x : Diagnostic) : Bool :=
  match x.problem with
  | .missingToken _ => true
  | _ => false

/-- Something to tell of a document: a problem, or a directive that selects a dialect. -/
inductive Remark where
  | problem (x : Diagnostic)
  | selection (span : Span) (found : Dialect)

namespace Remark

def span : Remark → Span
  | problem x => x.span
  | selection span _ => span

def diagnostic? : Remark → Option Diagnostic
  | problem x => some x
  | selection .. => none

def isSelection : Remark → Bool
  | problem _ => false
  | selection .. => true

/-- The dialect in effect behind a remark, given the one in front of it. -/
def dialect (d : Dialect) : Remark → Dialect
  | problem _ => d
  | selection _ found => found

/-- How the log tells it where a dialect is in effect. -/
def record (d : Dialect) : Remark → LogRecord
  | problem ⟨span, .missingToken k⟩ =>
    ⟨.trace, "inserting missing " ++ k.name ++ " at " ++ toString span.start⟩
  | problem ⟨span, .unexpectedContent found⟩ =>
    if found = "text after tags" then ⟨.debug, "skipping text after tags at " ++ span.render⟩
    else ⟨.debug, "skipping unexpected " ++ found ++ " at " ++ span.render⟩
  | problem ⟨_, .unknownLanguage code⟩ =>
    ⟨.warn, "unknown language: " ++ code ++ "; keeping dialect " ++ d.code ++
      " for the rest of the document"⟩
  | selection _ found => ⟨.debug, "language directive selects dialect " ++ found.code⟩

/-- How the log tells remarks, one after the other. -/
def records (d : Dialect) : List Remark → List LogRecord
  | [] => []
  | r :: rs => r.record d :: records (r.dialect d) rs

theorem records_append (d : Dialect) (rs ss : List Remark) :
    records d (rs ++ ss) = records d rs ++ records (rs.foldl dialect d) ss := by
  induction rs generalizing d with
  | nil => rfl
  | cons r rs ih => simp [records, ih]

variable {rs : List Remark}

theorem filter_problems (rs : List Remark) :
    (rs.filter fun r => !r.isSelection) = (rs.filterMap diagnostic?).map problem := by
  induction rs with
  | nil => rfl
  | cons r rs ih =>
    cases r with
    | problem x => exact congrArg (List.cons (problem x)) ih
    | selection span found => exact ih

@[simp] theorem filterMap_problems (ds : List Diagnostic) :
    (ds.map problem).filterMap diagnostic? = ds := by
  rw [List.filterMap_map]
  exact List.filterMap_some

@[simp] theorem selections_problems (ds : List Diagnostic) :
    (ds.map problem).filter isSelection = [] := by
  refine List.filter_eq_nil_iff.2 fun r hr => ?_
  obtain ⟨x, -, rfl⟩ := List.mem_map.1 hr
  exact Bool.false_ne_true

/-- Remarks in order are found again by sorting the problems and the selections among them. -/
theorem sort_eq (h : rs.Pairwise fun a b => a.span.Before b.span) :
    ((rs.filterMap diagnostic?).map problem ++ rs.filter isSelection).mergeSort
      (fun a b => a.span.le b.span) = rs := by
  refine Span.mergeSort_eq span ?_ h
  rw [← filter_problems]
  exact List.perm_append_comm.trans (List.filter_append_perm isSelection rs)

end Remark

namespace Trivia

variable {α : Type}

/-- What is read off pieces that stand one behind the other from an offset on. -/
def noted (f : Trivia → Span → Option α) (offset : Nat) (ps : List Trivia) : List α :=
  (ps.zip (PlacedToken.triviaSpans offset ps)).filterMap fun p => f p.1 p.2

theorem noted_cons (f : Trivia → Span → Option α) (o : Nat) (p : Trivia) (ps : List Trivia) :
    noted f o (p :: ps) = (f p (.ofWidth o p.width)).toList ++ noted f (o + p.width) ps := by
  cases hp : f p (.ofWidth o p.width) <;> simp [noted, PlacedToken.triviaSpans, hp]

theorem noted_append (f : Trivia → Span → Option α) (o : Nat) (ps qs : List Trivia) :
    noted f o (ps ++ qs) = noted f o ps ++ noted f (o + widthOf ps) qs := by
  induction ps generalizing o with
  | nil => rfl
  | cons p ps ih => simp [noted_cons, ih, Nat.add_assoc]

theorem bounds_of_mem_triviaSpans {ps : List Trivia} (h : Solid ps) {o : Nat} {s : Span}
    (hs : s ∈ PlacedToken.triviaSpans o ps) : o ≤ s.start ∧ s.start < o + widthOf ps := by
  induction ps generalizing o with
  | nil => cases hs
  | cons p ps ih =>
    have hp := h p List.mem_cons_self
    rw [widthOf_cons]
    rcases List.mem_cons.1 hs with rfl | hs
    · rw [Span.start_ofWidth]
      omega
    · have := ih (fun q hq => h q (List.mem_cons_of_mem p hq)) hs
      omega

theorem pairwise_triviaSpans {ps : List Trivia} (h : Solid ps) (o : Nat) :
    (PlacedToken.triviaSpans o ps).Pairwise Span.Before := by
  induction ps generalizing o with
  | nil => exact .nil
  | cons p ps ih =>
    have hs : Solid ps := fun q hq => h q (List.mem_cons_of_mem p hq)
    have hp := h p List.mem_cons_self
    refine .cons (fun s hmem => .inl ?_) (ih hs _)
    have := (bounds_of_mem_triviaSpans hs hmem).1
    rw [Span.start_ofWidth]
    omega

/-- What a directive has to tell. -/
def remark? (p : Trivia) (span : Span) : Option Remark :=
  p.language?.map fun code =>
    match Dialect.bundled.find? (·.code == String.ofList code) with
    | some found => .selection span found
    | none => .problem (.unknownLanguage span (String.ofList code))

/-- What a directive with a known language has to tell. -/
def selection? (p : Trivia) (span : Span) : Option Remark := p.dialect?.map (.selection span)

theorem remark?_of_undirected {p : Trivia} (h : p.kind ≠ .languageDirective) (s : Span) :
    p.remark? s = none := by simp [remark?, language?, h]

theorem noted_eq_nil {ps : List Trivia} (h : Undirected ps) (o : Nat) : noted remark? o ps = [] :=
  List.filterMap_eq_nil_iff.2 fun x hx =>
    remark?_of_undirected (h x.1 (List.of_mem_zip hx).1) x.2

theorem selections_eq_nil {ps : List Trivia} (h : Undirected ps) (spans : List Span) :
    (ps.zip spans).filterMap (fun p => p.1.selection? p.2) = [] :=
  List.filterMap_eq_nil_iff.2 fun x hx => by
    simp [selection?, dialect?_of_undirected (h x.1 (List.of_mem_zip hx).1)]

theorem span_of_remark? {p : Trivia} {s : Span} {r : Remark} (h : p.remark? s = some r) :
    r.span = s := by
  obtain ⟨code, -, rfl⟩ := Option.map_eq_some_iff.1 h
  split <;> rfl

theorem filter_remark? (p : Trivia) (s : Span) :
    (p.remark? s).filter Remark.isSelection = p.selection? s := by
  unfold remark? selection? dialect?
  cases p.language? with
  | none => rfl
  | some code =>
    rw [Option.map_some, Option.bind_some]
    cases Dialect.bundled.find? (·.code == String.ofList code) <;> rfl

/-- The selections among the remarks on pieces. -/
theorem filter_noted (o : Nat) (ps : List Trivia) :
    (noted remark? o ps).filter Remark.isSelection = noted selection? o ps := by
  rw [noted, List.filter_filterMap]
  exact List.filterMap_congr fun x _ => filter_remark? x.1 x.2

/-- Each remark is about a piece, in the order of the pieces. -/
theorem map_span_noted (o : Nat) (ps : List Trivia) :
    ((noted remark? o ps).map Remark.span).Sublist (PlacedToken.triviaSpans o ps) := by
  induction ps generalizing o with
  | nil => exact List.Sublist.refl _
  | cons p ps ih =>
    rw [noted_cons, List.map_append, PlacedToken.triviaSpans]
    cases hp : p.remark? (.ofWidth o p.width) with
    | none => exact (ih _).cons _
    | some r =>
      rw [Option.toList_some, List.map_singleton, List.singleton_append, span_of_remark? hp]
      exact (ih _).cons_cons _

theorem pairwise_noted {ps : List Trivia} (h : Solid ps) (o : Nat) :
    (noted remark? o ps).Pairwise fun a b => a.span.Before b.span :=
  List.pairwise_map.1 ((pairwise_triviaSpans h o).sublist (map_span_noted o ps))

theorem start_lt_of_mem_noted {ps : List Trivia} (h : Solid ps) {o : Nat} {r : Remark}
    (hr : r ∈ noted remark? o ps) : r.span.start < o + widthOf ps :=
  (bounds_of_mem_triviaSpans h ((map_span_noted o ps).subset (List.mem_map_of_mem hr))).2

end Trivia

namespace Preamble

/-- A line that is no directive has nothing to tell. -/
theorem noted_comment (l : Line) (o : Nat) :
    Trivia.noted Trivia.remark? o (l.pieces .comment) = [] :=
  Trivia.noted_eq_nil (Line.undirected_pieces (by decide) l) o

/-- A directive has one thing to tell, where its text stands. -/
theorem noted_directive {l : Line} {code : Text}
    (h : languageCode? (Text.trim l.content) = some code) (o : Nat) :
    Trivia.noted Trivia.remark? o (l.pieces .languageDirective) =
      (Trivia.remark? ⟨.languageDirective, Text.trim l.content⟩
        (.ofWidth (o + Text.width (Text.leadingBlanks l.content))
          (Text.width (Text.trim l.content)))).toList := by
  have hne : Text.trim l.content ≠ [] := by
    intro he
    rw [he] at h
    cases h
  have hw : Trivia.widthOf (Trivia.piece .whitespace (Text.leadingBlanks l.content)) =
      Text.width (Text.leadingBlanks l.content) := by
    rw [← Trivia.width_render, Trivia.render_piece]
  rw [Line.pieces, Trivia.noted_append, Trivia.noted_append,
    Trivia.noted_eq_nil (Trivia.quiet_blanks _).undirected,
    Trivia.noted_eq_nil (Trivia.quiet_lineEnd _ _).undirected, hw, Trivia.piece,
    if_neg (by simpa using hne), Trivia.noted_cons]
  simp [Trivia.noted, Trivia.width]

/-- What happens in front of a document is what its directives have to tell. -/
theorem remarks_read (d : Dialect) (o : Nat) (ls : List Line) :
    (read d o ls).events.map Event.record =
        Remark.records d (Trivia.noted Trivia.remark? o (read d o ls).trivia) ∧
      (read d o ls).events.filterMap Event.diagnostic? =
        (Trivia.noted Trivia.remark? o (read d o ls).trivia).filterMap Remark.diagnostic? := by
  fun_induction read d o ls with
  | case1 => exact ⟨rfl, rfl⟩
  | case2 d o l ls h hn p ih =>
    rw [Trivia.noted_append, noted_comment, Trivia.widthOf_pieces, List.nil_append]
    exact ih
  | case3 d o l ls h code hc trivia found hf p ih =>
    have hfind : Dialect.bundled.find? (·.code == String.ofList code) = some found := by
      rw [← Dialect.toOption_find, hf]
      rfl
    have hremark (s : Span) : Trivia.remark? ⟨.languageDirective, Text.trim l.content⟩ s =
        some (.selection s found) := by simp [Trivia.remark?, Trivia.language?, hc, hfind]
    rw [Trivia.noted_append, noted_directive hc, hremark, Trivia.widthOf_pieces]
    exact ⟨congrArg (List.cons _) ih.1, ih.2⟩
  | case4 d o l ls h code hc trivia e hf span p ih =>
    have hfind : Dialect.bundled.find? (·.code == String.ofList code) = none := by
      rw [← Dialect.toOption_find, hf]
      rfl
    have hremark (s : Span) : Trivia.remark? ⟨.languageDirective, Text.trim l.content⟩ s =
        some (.problem (.unknownLanguage s (String.ofList code))) := by
      simp [Trivia.remark?, Trivia.language?, hc, hfind]
    rw [Trivia.noted_append, noted_directive hc, hremark, Trivia.widthOf_pieces]
    exact ⟨congrArg (List.cons _) ih.1, congrArg (List.cons _) ih.2⟩
  | case5 d o l ls h =>
    rw [Trivia.noted_eq_nil (Trivia.quiet_blanks _).undirected]
    exact ⟨rfl, rfl⟩

end Preamble

/-- A line is never called what stands behind tags. -/
theorem LineKind.describe_ne (k : LineKind) : k.describe ≠ "text after tags" := by
  cases k with
  | keyword m =>
    simp only [describe]
    generalize m.role = r
    cases r <;> decide
  | _ => simp [describe]

/-- An event that is a problem from an offset on, told alike whatever dialect is in effect. -/
def Event.Tells (base : Nat) (e : Event) : Prop :=
  ∃ x, e.diagnostic? = some x ∧ base ≤ x.span.start ∧ ∀ d, (Remark.problem x).record d = e.record

namespace Event

variable {base : Nat}

theorem tells_missing {offset : Nat} (h : base ≤ offset) (k : Kind) :
    (missing offset k).Tells base := ⟨_, rfl, h, fun _ => rfl⟩

theorem tells_skippedLine {span : Span} (h : base ≤ span.start) (k : LineKind) :
    (skippedLine span k.describe).Tells base :=
  ⟨_, rfl, h, fun _ => if_neg k.describe_ne⟩

theorem tells_skippedAfterTags {span : Span} (h : base ≤ span.start) :
    (skippedAfterTags span).Tells base := ⟨_, rfl, h, fun _ => rfl⟩

theorem base_le_of_tells {es : List Event} (h : ∀ e ∈ es, e.Tells base) {x : Diagnostic}
    (hx : x ∈ es.filterMap diagnostic?) : base ≤ x.span.start := by
  obtain ⟨e, he, hex⟩ := List.mem_filterMap.1 hx
  obtain ⟨y, hy, hbase, -⟩ := h e he
  cases hy.symm.trans hex
  exact hbase

theorem records_of_tells {es : List Event} (h : ∀ e ∈ es, e.Tells base) (d : Dialect) :
    es.map record = Remark.records d ((es.filterMap diagnostic?).map .problem) := by
  induction es with
  | nil => rfl
  | cons e es ih =>
    rw [List.forall_mem_cons] at h
    obtain ⟨x, hx, -, hrecord⟩ := h.1
    rw [List.map_cons, ih h.2, List.filterMap_cons, hx, ← hrecord d]
    rfl

end Event

/-- From an offset on, the reader has met problems only. -/
structure Cursor.Tells (start : List Event) (base : Nat) (c : Cursor) : Prop where
  offset : base ≤ c.offset
  events : ∃ es, c.events = start ++ es ∧ ∀ e ∈ es, e.Tells base

theorem Cursor.Tells.go {start : List Event} {base : Nat} {c n : Cursor} (h : c.Tells start base)
    (ho : c.offset ≤ n.offset) {es : List Event} (hn : n.events = c.events ++ es)
    (hes : ∀ e ∈ es, e.Tells base) : n.Tells start base where
  offset := Nat.le_trans h.offset ho
  events := by
    obtain ⟨fs, hfs, htells⟩ := h.events
    exact ⟨fs ++ es, by rw [hn, hfs, List.append_assoc], List.forall_mem_append.2 ⟨htells, hes⟩⟩

namespace Survey

open Element Grammar

/-- The reader meets nothing but problems. -/
def telling (start : List Event) (base : Nat) : Survey where
  At _ c := c.Tells start base
  token := fun _ _ _ => True
  node := fun _ _ _ => True

variable {start : List Event} {base : Nat} {d : Dialect} {above : Option Kind} {o : Nat}
  {c n : Cursor} {a : Ahead} {es : List Element}

theorem yields_telling (h : c.Tells start base) : (telling start base).Yields above o es c where
  tokens _ _ := trivial
  nodes := everywhereAll_of_nodes (fun _ _ _ => trivial) above o es
  place := h

/-- Behind a line on which nothing happens but some problems. -/
theorem Faces.tells_take (h : (telling start base).Faces d o a) {events : List Event}
    (hes : ∀ e ∈ events, e.Tells base) : (a.take events).Tells start base :=
  Cursor.Tells.go h.place (Nat.le_add_right _ _) rfl hes

theorem Faces.base_le (h : (telling start base).Faces d o a) : base ≤ a.cursor.offset :=
  Cursor.Tells.offset h.place

theorem sound_telling (start : List Event) (base : Nat) (d : Dialect) :
    (telling start base).Sound d where
  backward := backward_true
  advance {o c} h := Cursor.Tells.go h (by rw [Cursor.offset_advance]; omega)
    (List.append_nil _).symm (List.forall_mem_nil _)
  skip {o a} h := Cursor.Tells.go h.place (Nat.le_add_right _ _) rfl
    (List.forall_mem_singleton.2 (Event.tells_skippedLine h.base_le a.kind))
  tagLine {o a} h _ := by
    refine yields_telling (h.tells_take ?_)
    unfold TagLine.events
    split
    · exact List.forall_mem_nil _
    · exact List.forall_mem_singleton.2
        (Event.tells_skippedAfterTags (Nat.le_trans h.base_le (Nat.le_add_right _ _)))
  textLine h _ := yields_telling (h.tells_take (List.forall_mem_nil _))
  row {outline o a} h _ := by
    refine yields_telling (h.tells_take ?_)
    unfold Row.events
    split
    · exact List.forall_mem_nil _
    · exact List.forall_mem_singleton.2
        (Event.tells_missing (Nat.le_trans h.base_le (Nat.le_add_right _ _)) _)
  title {above o a m} _ h hk hm := by
    obtain ⟨-, -, -, heq⟩ := titleLine_eq h.ahead hk hm
    rw [heq]
    exact yields_telling (h.tells_take (List.forall_mem_nil _))
  stepLine {outline o a m} h hk _ := by
    have hbehind : base ≤ a.consume.offset := Nat.le_trans h.base_le (Nat.le_add_right _ _)
    have hbare : (a.take []).Tells start base := h.tells_take (List.forall_mem_nil _)
    rw [Ahead.take_nil] at hbare
    apply yields_telling
    simp only [stepLine]
    split
    · exact hbare.go (Nat.le_refl _) rfl
        (List.forall_mem_singleton.2 (Event.tells_missing hbehind _))
    · exact hbare
  docString {outline o a f} h hk := by
    have hbare : (a.take []).Tells start base := h.tells_take (List.forall_mem_nil _)
    rw [Ahead.take_nil] at hbare
    apply yields_telling
    simp only [Fence.docString]
    split
    · refine hbare.go (Nat.le_add_right _ _) rfl
        (List.forall_mem_singleton.2 (Event.tells_missing ?_ _))
      exact Nat.le_trans hbare.offset (Nat.le_add_right _ _)
    · refine hbare.go ?_ (List.append_nil _).symm (List.forall_mem_nil _)
      rw [Nat.add_assoc]
      exact Nat.le_add_right _ _
  imply {above o c} h := by
    have hle : c.offset ≤ c.advance.offset := by
      rw [Cursor.offset_advance]
      exact Nat.le_add_right _ _
    exact yields_telling (Cursor.Tells.go h hle rfl
      (List.forall_mem_singleton.2 (Event.tells_missing (Nat.le_trans h.offset hle) _)))
  frame _ := trivial
  stepNode _ _ _ := trivial
  examplesNode _ _ := trivial
  scenarioNode _ _ _ _ := trivial

theorem closes_telling (start : List Event) (base : Nat) : (telling start base).Closes := by
  intro o c h
  refine yields_telling (Cursor.Tells.go h ?_ (List.append_nil _).symm (List.forall_mem_nil _))
  rw [Cursor.offset_advance]
  exact Nat.le_add_right _ _

end Survey

/-- Behind the comments in front of a document, the reader meets problems only. -/
theorem exists_events (d : Dialect) (source : Text) :
    let p := Preamble.read d 0 (Line.split source)
    ∃ es, (parse d source).events = p.events ++ es ∧
      ∀ e ∈ es, e.Tells (Trivia.widthOf p.trivia) := by
  intro p
  have hat : (Survey.telling p.events (Trivia.widthOf p.trivia)).At 0 p.cursor :=
    ⟨Nat.le_refl _, [], (List.append_nil _).symm, List.forall_mem_nil _⟩
  have hyields : (Survey.telling p.events (Trivia.widthOf p.trivia)).Yields none 0 _ _ :=
    (Survey.sound_telling _ _ p.dialect).document (Survey.closes_telling _ _) hat trivial
  have hplace : (Grammar.document p.dialect p.cursor).2.Tells p.events (Trivia.widthOf p.trivia) :=
    hyields.place
  exact hplace.events

/-- The directives around a token that select dialects. -/
def PlacedToken.selections (t : PlacedToken) : List Remark :=
  (t.token.leading.zip t.leadingSpans ++ t.token.trailing.zip t.trailingSpans).filterMap
    fun p => p.1.selection? p.2

theorem PlacedToken.selections_eq_nil {t : PlacedToken} (hl : Trivia.Undirected t.token.leading)
    (ht : Trivia.Undirected t.token.trailing) : t.selections = [] := by
  rw [selections, List.filterMap_append, Trivia.selections_eq_nil hl, Trivia.selections_eq_nil ht,
    List.append_nil]

namespace FeatureFile

/-- The directives in the tree that select dialects, each where it stands. -/
def selections (f : FeatureFile) : List Remark :=
  f.root.descendantTokens.flatMap PlacedToken.selections

/-- All that there is to tell of a document, in the order of the source. -/
def story (f : FeatureFile) : List Remark :=
  (f.diagnostics.map Remark.problem ++ f.selections).mergeSort fun a b => a.span.le b.span

/-- The directives that select dialects are those in front of the document. -/
theorem selections_parse (o : Options) (text : Text) :
    (parse o text).selections = Trivia.noted Trivia.selection? 0
      (Preamble.read o.dialect 0 (Line.split text)).trivia := by
  obtain ⟨first, rest, htokens, hleading⟩ := exists_first o text
  obtain ⟨hbehind, hrest⟩ := undirected_rest htokens
  have hoffset : first.offset = 0 := by
    have hsites := (parse o text).root.sites_descendantTokens
    rw [htokens] at hsites
    have hhead : (Token.sites 0 (Element.tokensAll (parse o text).root.node.children)).head? =
        some first.site := congrArg List.head? hsites.symm
    exact Token.offset_of_head?_sites hhead
  have hothers : rest.flatMap PlacedToken.selections = [] :=
    List.flatMap_eq_nil_iff.2 fun t ht =>
      PlacedToken.selections_eq_nil (hrest t ht).1 (hrest t ht).2
  rw [selections, htokens, List.flatMap_cons, hothers, List.append_nil, PlacedToken.selections,
    List.filterMap_append, Trivia.selections_eq_nil hbehind, List.append_nil,
    PlacedToken.leadingSpans, hoffset, hleading]
  rfl

/-- The story of a document is what the directives in front of it have to tell, and behind them the
problems that the reader meets. -/
theorem story_parse (o : Options) (text : Text) :
    let events := (GherkinTree.parse o.dialect text).events
    events.map Event.record = Remark.records o.dialect (parse o text).story ∧
      (parse o text).story.filterMap Remark.diagnostic? = events.filterMap Event.diagnostic? ∧
      (parse o text).story.filter Remark.isSelection = (parse o text).selections ∧
      (parse o text).story.Pairwise fun a b => a.span.Before b.span := by
  intro events
  obtain ⟨es, hes, htells⟩ := exists_events o.dialect text
  obtain ⟨hrecords, hdiags⟩ := Preamble.remarks_read o.dialect 0 (Line.split text)
  have hsorted := pairwise_reported o.dialect text
  have hsolid := Preamble.solid_read o.dialect 0 (Line.split text)
  have hselections := selections_parse o text
  change events = _ at hes
  change (events.filterMap Event.diagnostic?).Pairwise _ at hsorted
  have hparse : (parse o text).diagnostics = events.filterMap Event.diagnostic? :=
    Diagnostic.sortByPosition_of_pairwise hsorted
  rw [hes, List.filterMap_append, List.pairwise_append] at hsorted
  generalize Preamble.read o.dialect 0 (Line.split text) = p at *
  obtain ⟨rs, hrs⟩ : ∃ rs, rs = Trivia.noted Trivia.remark? 0 p.trivia ++
      (es.filterMap Event.diagnostic?).map Remark.problem := ⟨_, rfl⟩
  have hfound : rs.filterMap Remark.diagnostic? = events.filterMap Event.diagnostic? := by
    rw [hrs, hes, List.filterMap_append, List.filterMap_append, hdiags, Remark.filterMap_problems]
  have hselected : rs.filter Remark.isSelection = (parse o text).selections := by
    rw [hrs, List.filter_append, Trivia.filter_noted, Remark.selections_problems, List.append_nil,
      hselections]
  have hordered : rs.Pairwise fun a b => a.span.Before b.span := by
    rw [hrs, List.pairwise_append]
    refine ⟨Trivia.pairwise_noted hsolid 0, List.pairwise_map.2 hsorted.2.1,
      fun a ha b hb => .inl ?_⟩
    have hbound := Trivia.start_lt_of_mem_noted hsolid ha
    obtain ⟨x, hx, rfl⟩ := List.mem_map.1 hb
    rw [Nat.zero_add] at hbound
    exact Nat.lt_of_lt_of_le hbound (Event.base_le_of_tells htells hx)
  have hstory : (parse o text).story = rs := by
    rw [story, hparse, ← hfound, ← hselected, Remark.sort_eq hordered]
  rw [hstory]
  refine ⟨?_, hfound, hselected, hordered⟩
  rw [hes, List.map_append, hrecords, Event.records_of_tells htells, ← Remark.records_append, hrs]

/-- The log of a document tells its story, between what is recorded first and last: of each
diagnostic and of each directive that selects a dialect once, in the order of the source, an unknown
language with the dialect that is in effect at that point. What is wrong is met in that order too,
so sorting the lacking tokens and whatever else is wrong together moves nothing within either. -/
theorem log_parse (o : Options) (text : Text) :
    let f := parse o text
    let found := (GherkinTree.parse o.dialect text).events.filterMap Event.diagnostic?
    f.log =
        (o.path.toList.map fun p => ⟨.debug, "parsing " ++ p.text⟩) ++
          ⟨.debug, "parsing " ++ toString (Text.width text) ++ " bytes with dialect " ++
            o.dialect.code⟩ ::
          Remark.records o.dialect f.story ++
          [⟨.debug, "parsed document with " ++ toString f.diagnostics.length ++ " diagnostics"⟩] ∧
      (f.story.filterMap Remark.diagnostic? = f.diagnostics ∧
        f.story.filter Remark.isSelection = f.selections ∧
        f.story.Pairwise fun a b => a.span.Before b.span) ∧
      found = f.diagnostics ∧
      Diagnostic.sortByPosition (found.filter Diagnostic.isLack ++
        found.filter fun x => !x.isLack) = f.diagnostics := by
  intro f found
  obtain ⟨hrecords, hfound, hselected, hordered⟩ := story_parse o text
  have hsorted : found.Pairwise _ := pairwise_reported o.dialect text
  have hparse : f.diagnostics = found := Diagnostic.sortByPosition_of_pairwise hsorted
  refine ⟨?_, ⟨hfound.trans hparse.symm, hselected, hordered⟩, hparse.symm, ?_⟩
  · rw [← hrecords]
    rfl
  · rw [hparse]
    exact Span.mergeSort_eq Diagnostic.span (List.filter_append_perm _ _) hsorted

end FeatureFile

end GherkinTree
