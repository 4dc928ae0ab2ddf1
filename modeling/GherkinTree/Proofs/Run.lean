import GherkinTree.Grammar.Document
import GherkinTree.Proofs.Bundled
import GherkinTree.Proofs.Diagnosis
import GherkinTree.Proofs.Lookahead
import GherkinTree.Proofs.Scope

/-!
Reading as a run of moves. Each move deals with the line ahead: it skips the line, keeps it as the
tokens that it opens with, or passes over the body of a doc string; beside that a token may be
lacking. Every move obeys the scope that the lines above leave. A run lists the leaves that the
tree gains and the fates of the lines that are neither blank nor comments. Main statement: a loop of
the grammar is a run if each of its rounds is one.
-/

namespace GherkinTree

/-- Whether a token is the first of a line of the kind. -/
def LineKind.Opens (k : LineKind) (content : Text) (t : Token) : Prop :=
  match k with
  | .tags => t.kind = .tagToken
  | .tableRow => t.kind = .verticalBarToken
  | .docString _ => t.kind = .docStringDelimiterToken
  | .keyword m => t.kind = .ofRole m.role ∧ t.text = m.text
  | .text => t.kind = .literalToken ∧ t.text = Text.trimEnd content

/-- What became of a line that is neither blank nor a comment. -/
structure Fate where
  /-- The offset of its first character that is no blank. -/
  offset : Nat
  /-- The line from that character on. -/
  line : Line
  kept : Bool

namespace Ahead

/-- Behind the line, with what has happened on it. -/
def take (a : Ahead) (es : List Event) : Cursor :=
  { a.consume with events := a.cursor.events ++ es }

@[simp] theorem lines_take (a : Ahead) (es : List Event) :
    (a.take es).lines = a.cursor.lines.tail := rfl
@[simp] theorem offset_take (a : Ahead) (es : List Event) :
    (a.take es).offset = a.cursor.offset + a.line.width := rfl
@[simp] theorem pending_take (a : Ahead) (es : List Event) : (a.take es).pending = [] := rfl
@[simp] theorem events_take (a : Ahead) (es : List Event) :
    (a.take es).events = a.cursor.events ++ es := rfl

theorem take_nil (a : Ahead) : a.take [] = a.consume := by simp [take, consume]

theorem take_singleton (a : Ahead) (e : Event) : a.take [e] = a.consume.report e := rfl

/-- The fate of the line. -/
def fate (a : Ahead) (kept : Bool) : Fate := ⟨a.cursor.offset, a.line, kept⟩

end Ahead

/-- Tokens that a kept line becomes, and what happens on it. -/
structure Kept (d : Dialect) (a : Ahead) (ts : List Token) (es : List Event) : Prop where
  /-- The first token takes what was pending and tells the kind of the line. -/
  first : ∃ t us, ts = t :: us ∧ t.leading = a.cursor.pending ∧ t.missing = false ∧
    a.kind.Opens a.line.content t
  render : Token.renderAll ts = Trivia.render a.cursor.pending ++ a.line.full
  shows : ∀ o, o + Trivia.widthOf a.cursor.pending = a.cursor.offset →
    Token.diagnosticsAll d o ts =
      Trivia.reports (Trivia.problem? d) o a.cursor.pending ++ es.filterMap Event.diagnostic?
  /-- At most one thing happens, behind the start of the line, and nothing on a line with a fence. -/
  brief : es = [] ∨ ∃ e x, es = [e] ∧ e.diagnostic? = some x ∧
    a.cursor.offset < x.span.start ∧ x.span.stop ≤ a.cursor.offset + a.line.width ∧
    (x.span.start < x.span.stop ∨ ∃ k, x.problem = .missingToken k) ∧ ∀ f, a.kind ≠ .docString f
  solid : d.Proper → ∀ t ∈ ts, t.missing = false → t.text ≠ []
  /-- No directive stands behind a token, or in front of any but the first. -/
  undirected : (∀ t ∈ ts, Trivia.Undirected t.trailing) ∧
    ∀ t ∈ ts.tail, Trivia.Undirected t.leading

/-- A node for the text between two fences. -/
structure Content (e : Element) (raw : Text) : Prop where
  nonempty : raw ≠ []
  render : e.render = raw
  bodies : ∀ o, e.bodies o = []
  tokens : ∀ t ∈ e.tokens, t.leading = [] ∧ t.trailing = [] ∧ t.missing = false ∧ t.text ≠ []

/-- Nothing has been reported from the offset on. -/
def Cursor.Unreported (c : Cursor) : Prop :=
  ∀ x ∈ c.events.filterMap Event.diagnostic?, x.span.start < c.offset

/-- One move of the reader, from a scope and a cursor to the next: the leaves that the tree gains
and the fate of the line that it deals with. -/
inductive Move (d : Dialect) :
    Scope → Cursor → List Leaf → List Fate → Scope → Cursor → Prop where
  /-- Passes over what is blank or a comment. -/
  | advance (s : Scope) (c : Cursor) : Move d s c [] [] s c.advance
  | skip {s : Scope} {c : Cursor} {a : Ahead} (ahead : d.peek? c = some a)
      (unfit : s.keeps (d.kindAfterTags? a.cursor.lines) a.kind = false) :
      Move d s c [] [a.fate false] (s.next a.kind false) a.skip
  | keep {s : Scope} {c : Cursor} {a : Ahead} {ts : List Token} {es : List Event}
      (ahead : d.peek? c = some a)
      (fit : s.keeps (d.kindAfterTags? a.cursor.lines) a.kind = true) (kept : Kept d a ts es) :
      Move d s c (ts.map .token) [a.fate true] (s.next a.kind true) (a.take es)
  /-- The keyword and the colon of an implied feature are lacking. -/
  | imply {s : Scope} {c : Cursor} (place : s.place = .start) (fresh : c.Unreported) :
      Move d s c [.token (.absent .featureKeyword c.pending []), .token (.absent .colonToken [] [])]
        [] s ({ c with pending := [] }.report (.missing c.offset .featureKeyword))
  /-- Passes over the lines between two fences. -/
  | content {s : Scope} {c : Cursor} {f : Fence} {body rest : List Line} {ls : List Leaf}
      (place : s.place = .fence f) (pending : c.pending = []) (lines : c.lines = body ++ rest)
      (leaf : (ls = [] ∧ Line.join body = []) ∨
        ∃ e, ls = [.content e] ∧ Content e (Line.join body)) :
      Move d s c ls [] s { c with
        lines := rest
        offset := c.offset + Text.width (Line.join body) }
  /-- The document ends inside a doc string, whose last fence is lacking. -/
  | unclosed {s : Scope} {c : Cursor} {f : Fence} (place : s.place = .fence f)
      (pending : c.pending = []) (lines : c.lines = []) :
      Move d s c [.token (.absent .docStringDelimiterToken [] [])] []
        { s with place := .elsewhere }
        (c.report (.missing c.offset .docStringDelimiterToken))

/-- Moves one after the other. -/
inductive Run (d : Dialect) :
    Scope → Cursor → List Leaf → List Fate → Scope → Cursor → Prop where
  | done (s : Scope) (c : Cursor) : Run d s c [] [] s c
  | move {s s₁ s₂ : Scope} {c c₁ c₂ : Cursor} {ls ls' : List Leaf} {fs fs' : List Fate}
      (first : Move d s c ls fs s₁ c₁) (rest : Run d s₁ c₁ ls' fs' s₂ c₂) :
      Run d s c (ls ++ ls') (fs ++ fs') s₂ c₂

theorem Run.append {d : Dialect} {s s₁ s₂ : Scope} {c c₁ c₂ : Cursor} {ls ls' : List Leaf}
    {fs fs' : List Fate} (h : Run d s c ls fs s₁ c₁) (h' : Run d s₁ c₁ ls' fs' s₂ c₂) :
    Run d s c (ls ++ ls') (fs ++ fs') s₂ c₂ := by
  induction h with
  | done => exact h'
  | move first _ ih =>
    rw [List.append_assoc, List.append_assoc]
    exact .move first (ih h')

/-- No move brings a line back. -/
theorem Move.length_le {d : Dialect} {s s' : Scope} {c c' : Cursor} {ls : List Leaf}
    {fs : List Fate} (h : Move d s c ls fs s' c') : c'.lines.length ≤ c.lines.length := by
  cases h with
  | advance => exact Cursor.length_cutTrivia_le c.lines
  | skip ahead => exact Nat.le_of_lt (Dialect.length_tail_lt ahead)
  | keep ahead => exact Nat.le_of_lt (Dialect.length_tail_lt ahead)
  | imply => exact Nat.le_refl _
  | content _ _ lines => simp [lines]
  | unclosed => exact Nat.le_refl _

theorem Run.length_le {d : Dialect} {s s' : Scope} {c c' : Cursor} {ls : List Leaf}
    {fs : List Fate} (h : Run d s c ls fs s' c') : c'.lines.length ≤ c.lines.length := by
  induction h with
  | done => exact Nat.le_refl _
  | move first _ ih => exact Nat.le_trans ih first.length_le

/-- A run that gains the leaves, reaches the cursor and ends in a scope with the property. -/
def Reads (d : Dialect) (s : Scope) (c : Cursor) (ls : List Leaf) (c' : Cursor)
    (post : Scope → Prop) : Prop := ∃ fs s', Run d s c ls fs s' c' ∧ post s'

namespace Reads

variable {d : Dialect} {s : Scope} {c c' c'' : Cursor} {ls ls' : List Leaf}
  {post post' : Scope → Prop}

theorem done (h : post s) : Reads d s c [] c post := ⟨[], s, .done s c, h⟩

theorem move {s' : Scope} {fs : List Fate} (h : Move d s c ls fs s' c') (hp : post s') :
    Reads d s c ls c' post := by
  have hr : Run d s c (ls ++ []) (fs ++ []) s' c' := .move h (.done s' c')
  rw [List.append_nil, List.append_nil] at hr
  exact ⟨fs, s', hr, hp⟩

theorem append (h : Reads d s c ls c' post)
    (h' : ∀ s', post s' → Reads d s' c' ls' c'' post') :
    Reads d s c (ls ++ ls') c'' post' := by
  obtain ⟨fs, s', hr, hp⟩ := h
  obtain ⟨fs', s'', hr', hp'⟩ := h' s' hp
  exact ⟨fs ++ fs', s'', hr.append hr', hp'⟩

theorem mono (h : Reads d s c ls c' post) (hp : ∀ s', post s' → post' s') :
    Reads d s c ls c' post' := by
  obtain ⟨fs, s', hr, hs⟩ := h
  exact ⟨fs, s', hr, hp s' hs⟩

theorem length_le (h : Reads d s c ls c' post) : c'.lines.length ≤ c.lines.length := by
  obtain ⟨fs, s', hr, -⟩ := h
  exact hr.length_le

/-- Reading may begin behind what is blank or a comment. -/
theorem of_advance (h : Reads d s c.advance ls c' post) : Reads d s c ls c' post :=
  (move (.advance s c) rfl).append fun _ hs => hs ▸ h

theorem of_peek? {a : Ahead} (ha : d.peek? c = some a) (h : Reads d s a.cursor ls c' post) :
    Reads d s c ls c' post := by
  rw [(Dialect.fits_of_peek? ha).cursor] at h
  exact h.of_advance

theorem skip {a : Ahead} (ha : d.peek? c = some a)
    (hk : s.keeps (d.kindAfterTags? a.cursor.lines) a.kind = false)
    (hp : post (s.next a.kind false)) : Reads d s c [] a.skip post := move (.skip ha hk) hp

theorem keep {a : Ahead} {ts : List Token} {es : List Event} (ha : d.peek? c = some a)
    (hk : s.keeps (d.kindAfterTags? a.cursor.lines) a.kind = true) (ht : Kept d a ts es)
    (hp : post (s.next a.kind true)) : Reads d s c (ts.map .token) (a.take es) post :=
  move (.keep ha hk ht) hp

/-- A loop is a run if every round is one, keeps the invariant and leaves fewer lines; behind the
loop there is no further round. -/
theorem collect {α : Type} (step : Cursor → Option (List α × Cursor)) (leaves : α → List Leaf)
    (inv : Scope → Cursor → Prop)
    (round : ∀ s c xs c', inv s c → step c = some (xs, c') →
      c'.lines.length < c.lines.length ∧
        Reads d s c (xs.flatMap leaves) c' fun s' => inv s' c')
    (c : Cursor) (s : Scope) (h : inv s c) :
    step (c.collect step).2 = none ∧
      Reads d s c ((c.collect step).1.flatMap leaves) (c.collect step).2
        fun s' => inv s' (c.collect step).2 := by
  cases hs : step c with
  | none =>
    rw [Cursor.collect_of_none hs]
    exact ⟨hs, done h⟩
  | some p =>
    obtain ⟨xs, next⟩ := p
    obtain ⟨hl, hr⟩ := round s c xs next h hs
    rw [Cursor.collect_of_some hs hl]
    obtain ⟨-, s₁, -, hs₁⟩ := id hr
    refine ⟨(collect step leaves inv round next s₁ hs₁).1, ?_⟩
    rw [List.flatMap_append]
    exact hr.append fun s' hs' => (collect step leaves inv round next s' hs').2
termination_by c.lines.length

end Reads

end GherkinTree
