import GherkinTree.Proofs.Preorder
import GherkinTree.Proofs.Sorted

/-!
Walking a document by the accessors of its views. Main statement: the walk finds each section, step,
table, row, cell and doc string once, in the order in which a walk over all nodes does, and each
section and each step has a keyword of its own.
-/

namespace GherkinTree

/-- The nodes in the header of a section. -/
def View.headerNodes {v : ViewType} (s : View v) : List PlacedNode :=
  s.tags?.toList.map (·.node) ++ ((View.childOf? .text s.node).toList.map (·.node) ++
    s.description?.toList.map (·.node))

def RowView.visited (r : RowView) : List PlacedNode := r.node :: r.cells.map (·.node)

def TableView.visited (t : TableView) : List PlacedNode :=
  t.node :: t.rows.flatMap RowView.visited

def StepView.visited (s : StepView) : List PlacedNode :=
  s.node :: (s.textNode?.toList.map (·.node) ++ (s.table?.toList.flatMap TableView.visited ++
    s.docString?.toList.map (·.node)))

def ExamplesView.visited (e : ExamplesView) : List PlacedNode :=
  e.node :: (e.headerNodes ++ e.table?.toList.flatMap TableView.visited)

def BackgroundView.visited (b : BackgroundView) : List PlacedNode :=
  b.node :: (b.headerNodes ++ b.steps.flatMap StepView.visited)

def ScenarioView.visited (s : ScenarioView) : List PlacedNode :=
  s.node :: (s.headerNodes ++ (s.steps.flatMap StepView.visited ++
    s.examples.flatMap ExamplesView.visited))

def RuleView.visited (r : RuleView) : List PlacedNode :=
  r.node :: (r.headerNodes ++ (r.background?.toList.flatMap BackgroundView.visited ++
    r.scenarios.flatMap ScenarioView.visited))

def FeatureView.visited (f : FeatureView) : List PlacedNode :=
  f.node :: (f.headerNodes ++ (f.background?.toList.flatMap BackgroundView.visited ++
    (f.scenarios.flatMap ScenarioView.visited ++ f.rules.flatMap RuleView.visited)))

/-- What a walk comes to that goes from view to view by their accessors. -/
def DocumentView.visited (d : DocumentView) : List PlacedNode :=
  d.node :: d.feature?.toList.flatMap FeatureView.visited

/-- A walk that leaves out none of the sections, steps and arguments and keeps their order. -/
structure Covers (visited all : List PlacedNode) : Prop where
  sublist : visited.Sublist all
  complete : visited.filter (·.kind.isStructure) = all.filter (·.kind.isStructure)

namespace Covers

variable {vs ws as bs : List PlacedNode}

theorem append (h : Covers vs as) (h' : Covers ws bs) : Covers (vs ++ ws) (as ++ bs) where
  sublist := h.sublist.append h'.sublist
  complete := by rw [List.filter_append, List.filter_append, h.complete, h'.complete]

theorem cons (n : PlacedNode) (h : Covers vs as) : Covers (n :: vs) (n :: as) where
  sublist := h.sublist.cons_cons n
  complete := by rw [List.filter_cons, List.filter_cons, h.complete]

theorem flatMap {α : Type} {xs : List α} {f g : α → List PlacedNode}
    (h : ∀ x ∈ xs, Covers (f x) (g x)) : Covers (xs.flatMap f) (xs.flatMap g) := by
  induction xs with
  | nil => exact ⟨List.Sublist.refl _, rfl⟩
  | cons x xs ih =>
    rw [List.forall_mem_cons] at h
    exact h.1.append (ih h.2)

/-- A walk may stop where there are only texts below. -/
theorem leaf {n : PlacedNode} (h : ∀ e ∈ n.node.children, e.Prose) : Covers [n] n.descendants := by
  have hbelow : ∀ x ∈ n.childNodes.flatMap PlacedNode.descendants, x.kind.isStructure = false := by
    intro x hx
    obtain ⟨c, hc, hx⟩ := List.mem_flatMap.1 hx
    have hall := (PlacedNode.everywhereAll_iff_childrenFrom
      (P := fun _ _ m => m.kind.isStructure = false) n n.offset 0 n.node.children).1
      (Element.everywhereAll_of_forall fun e he => h e he _)
    exact (PlacedNode.forall_descendants_iff c).2 (hall c hc) x hx
  rw [PlacedNode.descendants_eq_cons]
  refine cons n ⟨List.nil_sublist _, ?_⟩
  rw [List.filter_nil, eq_comm, List.filter_eq_nil_iff]
  intro x hx
  simp [hbelow x hx]

end Covers

/-- A node has its form, and so have all nodes under it. -/
def PlacedNode.Formed (n : PlacedNode) : Prop :=
  ∀ m ∈ n.descendants, m.node.Form m.kindAbove

section Formed

variable {n : PlacedNode} {a : Accessor} {v : ViewType}

theorem PlacedNode.Formed.view {s : View v} (h : s.node.Formed) : v.Form s.node.node :=
  (h _ s.node.mem_descendants_self).of_accepts s.fits

theorem PlacedNode.Formed.below {w : View a.type} (h : n.Formed) (hw : w ∈ a.views n) :
    w.node.Formed :=
  fun x hx => h x (PlacedNode.mem_descendants_of_child (PlacedNode.mem_children_of_mem_childNodes
    (Accessor.mem_childNodes_of_mem_views hw)) hx)

end Formed

/-- What is under the nodes that some accessors give. -/
def Accessor.under (as : List Accessor) (n : PlacedNode) : List PlacedNode :=
  (as.flatMap fun a => (a.views n).map (·.node)).flatMap PlacedNode.descendants

namespace Covers

open Accessor

variable {n : PlacedNode} {a : Accessor} {as : List Accessor} {vs : List PlacedNode} {v : ViewType}

/-- If the children of a node are sorted, it is enough to cover what the accessors give. -/
theorem of_sorts (h : Sorts as (Element.nodesOf n.node.children)) (hnodup : (as.map (·.type)).Nodup)
    (hc : Covers vs (under as n)) : Covers (n :: vs) n.descendants := by
  rw [PlacedNode.descendants_eq_cons, childNodes_eq h hnodup]
  exact cons n hc

/-- What one accessor gives is covered view by view. -/
theorem next {f : View a.type → List PlacedNode}
    (hf : ∀ w ∈ a.views n, Covers (f w) w.node.descendants) (hc : Covers vs (under as n)) :
    Covers ((a.views n).flatMap f ++ vs) (under (a :: as) n) := by
  rw [under, List.flatMap_cons, List.flatMap_append, List.flatMap_map]
  exact (flatMap hf).append hc

theorem last {f : View a.type → List PlacedNode}
    (hf : ∀ w ∈ a.views n, Covers (f w) w.node.descendants) :
    Covers ((a.views n).flatMap f) (under [a] n) := by
  rw [← List.append_nil ((a.views n).flatMap f)]
  exact next hf ⟨List.Sublist.refl [], rfl⟩

/-- Views that a walk does not go on from. -/
theorem leaves (hf : ∀ w ∈ a.views n, ∀ e ∈ w.node.node.children, e.Prose)
    (hc : Covers vs (under as n)) :
    Covers ((a.views n).map (·.node) ++ vs) (under (a :: as) n) := by
  rw [List.map_eq_flatMap]
  exact next (fun w hw => leaf (hf w hw)) hc

theorem lastLeaves (hf : ∀ w ∈ a.views n, ∀ e ∈ w.node.node.children, e.Prose) :
    Covers ((a.views n).map (·.node)) (under [a] n) := by
  rw [List.map_eq_flatMap]
  exact last fun w hw => leaf (hf w hw)

/-- The header of a section is covered by its nodes. -/
theorem header {s : View v} (h : s.node.Formed) (hc : Covers vs (under as s.node)) :
    Covers (s.headerNodes ++ vs) (under (Node.headed as) s.node) := by
  rw [View.headerNodes, List.append_assoc, List.append_assoc]
  refine leaves (a := one .tags) (fun w hw => ?_) (leaves (a := one .text) (fun w hw => ?_)
    (leaves (a := one .description) (fun w hw => ?_) hc))
  · exact (h.below hw).view.prose
  · exact (h.below hw).view
  · exact (h.below hw).view.prose

end Covers

open Accessor

theorem RowView.covers {r : RowView} (h : r.node.Formed) : Covers r.visited r.node.descendants := by
  obtain ⟨outline, hr⟩ := h.view
  refine .of_sorts hr.sorts (by decide) (.lastLeaves (a := .every .tableCell) fun c hc => ?_)
  obtain ⟨outline, hcell⟩ := (h.below hc).view
  exact hcell.prose

theorem TableView.covers {t : TableView} (h : t.node.Formed) :
    Covers t.visited t.node.descendants := by
  obtain ⟨outline, ht⟩ := h.view
  exact .of_sorts ht.sorts (by decide)
    (.last (a := .every .tableRow) fun r hr => RowView.covers (h.below hr))

theorem StepView.covers {s : StepView} (h : s.node.Formed) :
    Covers s.visited s.node.descendants := by
  obtain ⟨outline, hs⟩ := h.view
  refine .of_sorts hs.sorts (by decide) (.leaves (a := .one .text) (fun w hw => (h.below hw).view)
    (.next (a := .one .table) (fun t ht => TableView.covers (h.below ht))
      (.lastLeaves (a := .one .docString) fun d hd => ?_)))
  obtain ⟨outline, hdoc⟩ := (h.below hd).view
  exact hdoc.prose

theorem BackgroundView.covers {b : BackgroundView} (h : b.node.Formed) :
    Covers b.visited b.node.descendants :=
  .of_sorts h.view.sorts (by decide)
    (.header h (.last (a := .every .step) fun s hs => StepView.covers (h.below hs)))

theorem ExamplesView.covers {e : ExamplesView} (h : e.node.Formed) :
    Covers e.visited e.node.descendants :=
  .of_sorts h.view.sorts (by decide)
    (.header h (.last (a := .one .table) fun t ht => TableView.covers (h.below ht)))

theorem ScenarioView.covers {s : ScenarioView} (h : s.node.Formed) :
    Covers s.visited s.node.descendants :=
  .of_sorts h.view.sorts (by decide)
    (.header h (.next (a := .every .step) (fun s hs => StepView.covers (h.below hs))
      (.last (a := .every .examples) fun e he => ExamplesView.covers (h.below he))))

theorem RuleView.covers {r : RuleView} (h : r.node.Formed) :
    Covers r.visited r.node.descendants :=
  .of_sorts h.view.sorts (by decide)
    (.header h (.next (a := .one .background) (fun b hb => BackgroundView.covers (h.below hb))
      (.last (a := .every .scenario) fun s hs => ScenarioView.covers (h.below hs))))

theorem FeatureView.covers {f : FeatureView} (h : f.node.Formed) :
    Covers f.visited f.node.descendants :=
  .of_sorts h.view.sorts (by decide)
    (.header h (.next (a := .one .background) (fun b hb => BackgroundView.covers (h.below hb))
      (.next (a := .every .scenario) (fun s hs => ScenarioView.covers (h.below hs))
        (.last (a := .every .rule) fun r hr => RuleView.covers (h.below hr)))))

/-- A walk from a document covers all of it. -/
theorem DocumentView.covers {d : DocumentView} (h : d.node.Formed) :
    Covers d.visited d.node.descendants :=
  .of_sorts h.view.sorts (by decide)
    (.last (a := .one .feature) fun f hf => FeatureView.covers (h.below hf))

/-- Whether tokens of this kind are keywords of nodes of another kind. -/
def Kind.begins (k : Kind) : Kind → Bool
  | feature => k == featureKeyword
  | rule => k == ruleKeyword
  | background => k == backgroundKeyword
  | scenario => k == scenarioKeyword || k == scenarioOutlineKeyword
  | examples => k == examplesKeyword
  | step => k.isStepKeyword
  | _ => false

/-- A token of a node is its keyword: the kinds fit, no other of its tokens is a keyword, and only a
feature may lack it. -/
structure PlacedNode.IsKeyword (n : PlacedNode) (t : PlacedToken) : Prop where
  child : t ∈ n.childTokens
  parent : t.parent = n
  begins : t.kind.begins n.kind = true
  present : n.kind ≠ .feature → t.token.missing = false
  unique : ∀ u ∈ n.childTokens, u.kind.isKeyword = true → u = t

theorem Kind.isKeyword_of_begins {k l : Kind} (h : k.begins l = true) : k.isKeyword = true := by
  unfold begins at h
  split at h
  · exact beq_iff_eq.1 h ▸ rfl
  · exact beq_iff_eq.1 h ▸ rfl
  · exact beq_iff_eq.1 h ▸ rfl
  · rw [Bool.or_eq_true] at h
    rcases h with h | h <;> exact beq_iff_eq.1 h ▸ rfl
  · exact beq_iff_eq.1 h ▸ rfl
  · obtain ⟨r, hr, -⟩ := (Option.any_eq_true _ _).1 h
    rw [isKeyword, hr]
    rfl
  · cases h

/-- The tokens of a node are its keyword and perhaps others that are none. -/
theorem PlacedNode.exists_isKeyword {n : PlacedNode} {keyword : Token} {ts : List Token}
    (htokens : Element.tokensOf n.node.children = keyword :: ts)
    (hbegins : keyword.kind.begins n.kind = true)
    (hpresent : n.kind ≠ .feature → keyword.missing = false)
    (hothers : ∀ u ∈ ts, u.kind.isKeyword = false) :
    ∃ t us, n.childTokens = t :: us ∧ n.IsKeyword t := by
  have hmap := n.map_token_childTokens
  rw [htokens] at hmap
  obtain ⟨t, us, hchildren, rfl, rfl⟩ := List.map_eq_cons_iff.1 hmap
  refine ⟨t, us, hchildren, ?_, ?_, hbegins, hpresent, ?_⟩
  · rw [hchildren]
    exact List.mem_cons_self
  · have hmem : t ∈ n.childTokens := by
      rw [hchildren]
      exact List.mem_cons_self
    obtain ⟨e, he, het⟩ := List.mem_filterMap.1 hmem
    cases e with
    | node m => cases het
    | token u =>
      cases het
      rcases PlacedElement.above_of_mem_childrenFrom he with ⟨_, ⟨⟩, -⟩ | ⟨_, ⟨⟩, hparent⟩
      exact hparent
  · intro u hu hk
    rw [hchildren] at hu
    rcases List.mem_cons.1 hu with rfl | hu
    · rfl
    · rw [PlacedToken.kind, hothers _ (List.mem_map_of_mem hu)] at hk
      cases hk

/-- The types of views with a header. -/
def ViewType.isSection : ViewType → Bool
  | feature | rule | background | scenario | examples => true
  | _ => false

/-- The tokens of a section are those of its header. -/
theorem ViewType.Form.tokens_section {v : ViewType} {n : Node} (h : v.Form n)
    (hv : v.isSection = true) :
    ∃ keyword colon : Token, Element.tokensOf n.children = [keyword, colon] ∧
      keyword.kind.begins n.kind = true ∧ (n.kind ≠ .feature → keyword.missing = false) ∧
      colon.kind = .colonToken := by
  have hheader {k : Kind} {x : Header} (hx : x.IsOf k)
      (htokens : Element.tokensOf n.children = [x.keyword, x.colon]) (hk : k.begins n.kind = true) :
      ∃ keyword colon : Token, Element.tokensOf n.children = [keyword, colon] ∧
        keyword.kind.begins n.kind = true ∧ (n.kind ≠ .feature → keyword.missing = false) ∧
        colon.kind = .colonToken :=
    ⟨x.keyword, x.colon, htokens, hx.keyword.kind ▸ hk, fun _ => hx.keyword.found, hx.colon.kind⟩
  cases v <;> cases hv
  case feature =>
    cases h with
    | @mk x background scenarios rules hx =>
      rcases hx with hx | hx
      · exact hheader hx (by simp [Node.ofFeature, Header.elements]) rfl
      · have htokens : Element.tokensOf (Node.ofFeature x background scenarios rules).children =
            [x.keyword, x.colon] := by simp [Node.ofFeature, Header.elements]
        exact ⟨x.keyword, x.colon, htokens, hx.keyword.kind ▸ rfl, fun hk => absurd rfl hk,
          hx.colon.kind⟩
  case rule =>
    cases h with
    | mk hx => exact hheader hx (by simp [Node.ofRule, Header.elements]) rfl
  case background =>
    cases h with
    | mk hx => exact hheader hx (by simp [Node.ofBackground, Header.elements]) rfl
  case scenario =>
    cases h with
    | mk hr hx =>
      refine hheader hx (by simp [Node.ofScenario, Header.elements]) ?_
      rcases Role.eq_of_isScenario hr with rfl | rfl <;> rfl
  case examples =>
    cases h with
    | mk hx => exact hheader hx (by simp [Node.ofExamples, Header.elements]) rfl

/-- The accessor of a section finds its keyword. -/
theorem View.exists_keyword {v : ViewType} {s : View v} (h : s.node.Formed)
    (hv : v.isSection = true) : ∃ t, View.keyword? s = some t ∧ s.node.IsKeyword t := by
  obtain ⟨keyword, colon, htokens, hbegins, hpresent, hcolon⟩ := h.view.tokens_section hv
  have hothers : ∀ u ∈ [colon], u.kind.isKeyword = false := by
    rintro u hu
    rw [List.mem_singleton.1 hu, hcolon]
    rfl
  obtain ⟨t, us, hchildren, ht⟩ :=
    PlacedNode.exists_isKeyword htokens hbegins hpresent hothers
  refine ⟨t, ?_, ht⟩
  rw [View.keyword?, hchildren]
  exact List.find?_cons_of_pos (Kind.isKeyword_of_begins ht.begins)

/-- The accessor of a step finds its keyword. -/
theorem StepView.exists_keyword {s : StepView} (h : s.node.Formed) :
    ∃ t, StepView.keyword? s = some t ∧ s.node.IsKeyword t := by
  obtain ⟨outline, hs⟩ := h.view
  generalize hn : s.node.node = n at hs
  cases hs with
  | @mk k keyword text argument hk hkeyword htext hargument =>
    have hkind : s.node.kind = .step := congrArg Node.kind hn
    have hbegins : keyword.kind.begins s.node.kind = true := by
      rw [hkind, hkeyword.kind]
      exact hk
    have hfirst := PlacedNode.firstToken?_of_token (congrArg Node.children hn)
    have htokens : Element.tokensOf s.node.node.children = [keyword] := by
      rw [hn]
      simp [Node.ofStep]
    obtain ⟨t, us, hchildren, ht⟩ := PlacedNode.exists_isKeyword htokens hbegins
      (fun _ => hkeyword.found) (List.forall_mem_nil _)
    have hhead : s.node.childTokens.head? = s.node.firstToken? := by
      rw [hfirst, PlacedNode.childTokens, PlacedNode.children, hn]
      rfl
    rw [hchildren, List.head?_cons] at hhead
    have hstep : t.kind.isStepKeyword = true := by
      have := ht.begins
      rwa [hkind] at this
    exact ⟨t, by rw [StepView.keyword?, ← hhead, Option.filter_some, if_pos hstep], ht⟩

/-- The accessors of views lose nothing and repeat nothing: from the document they lead to every
section, step, table, row, cell and doc string once, in the order of the tree, and each section and
each step has its own keyword. -/
theorem FeatureFile.visited_parse (o : Options) (text : Text) :
    let f := parse o text
    ∃ d, f.document? = some d ∧ d.node = f.root ∧
      f.root.descendants.Nodup ∧ d.visited.Sublist f.root.descendants ∧
      d.visited.filter (·.kind.isStructure) = f.root.descendants.filter (·.kind.isStructure) ∧
      (∀ (v : ViewType) (s : View v), v.isSection = true → s.node ∈ f.root.descendants →
        ∃ t, View.keyword? s = some t ∧ s.node.IsKeyword t) ∧
      ∀ s : StepView, s.node ∈ f.root.descendants →
        ∃ t, StepView.keyword? s = some t ∧ s.node.IsKeyword t := by
  intro f
  have hformed {n : PlacedNode} (hn : n ∈ f.root.descendants) : n.Formed :=
    fun m hm => formed_of_mem_descendants (PlacedNode.mem_walkNodes_trans hn hm)
  have hroot := f.root.mem_descendants_self
  have hdoc : (GherkinTree.parse o.dialect text).root.IsDocument :=
    isDocument_parse o.dialect text
  have hkind : ViewType.document.accepts f.root.kind = true := by
    rw [show f.root.kind = .document from hdoc.kind_eq]
    rfl
  have hdocument : f.document? = some ⟨f.root, hkind⟩ := by
    rw [document?, View.cast?, dif_pos hkind]
  have hcovers := DocumentView.covers (d := ⟨f.root, hkind⟩) (hformed hroot)
  exact ⟨⟨f.root, hkind⟩, hdocument, rfl, f.root.nodup_descendants, hcovers.sublist,
    hcovers.complete, fun v s hv hs => View.exists_keyword (hformed hs) hv,
    fun s hs => StepView.exists_keyword (hformed hs)⟩

end GherkinTree
