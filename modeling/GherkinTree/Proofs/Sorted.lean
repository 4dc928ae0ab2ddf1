import GherkinTree.Proofs.Accessor
import GherkinTree.Proofs.Anatomy
import Mathlib.Data.List.Basic

/-!
The order of the children of a node by the types of their views. An accessor asks for the first
child of a type or for all of them, so if the children are sorted by type the accessors of a view
give all of them, in order. Main statement: the children of sections, steps, tables and rows are
sorted, and below texts, tags, descriptions, cells and doc strings no view leads on.
-/

namespace GherkinTree

/-- A kind of nodes has one type of views. -/
theorem ViewType.unique_of_accepts {v w : ViewType} {k : Kind} (hv : v.accepts k = true)
    (hw : w.accepts k = true) : v = w := by
  have hfind (u : ViewType) (hu : u.accepts k = true) : all.find? (·.accepts k) = some u := by
    cases u <;> cases k <;> cases hu <;> rfl
  exact Option.some.inj ((hfind v hv).symm.trans (hfind w hw))

/-- What an accessor asks for: the first child of a type, or all of them. -/
structure Accessor where
  type : ViewType
  single : Bool

namespace Accessor

def one (v : ViewType) : Accessor := ⟨v, true⟩

def every (v : ViewType) : Accessor := ⟨v, false⟩

/-- What the accessor gives. -/
def views (a : Accessor) (n : PlacedNode) : List (View a.type) :=
  if a.single then (View.childOf? a.type n).toList else View.childrenOf a.type n

/-- Nodes sorted by some accessors, with no more than one for each accessor that asks for one. -/
inductive Sorts : List Accessor → List Node → Prop where
  | nil : Sorts [] []
  | cons {a : Accessor} {as : List Accessor} {ms ns : List Node}
      (hfit : ∀ n ∈ ms, a.type.accepts n.kind = true) (hone : a.single = true → ms.length ≤ 1)
      (h : Sorts as ns) : Sorts (a :: as) (ms ++ ns)

namespace Sorts

variable {as : List Accessor} {ms ns : List Node} {v : ViewType}

theorem one {m : Option Node} (hm : ∀ n ∈ m, v.accepts n.kind = true) (h : Sorts as ns) :
    Sorts (.one v :: as) (m.toList ++ ns) := by
  refine .cons (fun n hn => hm n (Option.mem_toList.1 hn)) (fun _ => ?_) h
  cases m with
  | none => exact Nat.zero_le 1
  | some m => exact Nat.le_refl 1

theorem every (hm : ∀ n ∈ ms, v.accepts n.kind = true) (h : Sorts as ns) :
    Sorts (.every v :: as) (ms ++ ns) := .cons hm nofun h

theorem exists_accepts (h : Sorts as ns) : ∀ n ∈ ns, ∃ a ∈ as, a.type.accepts n.kind = true := by
  induction h with
  | nil => exact List.forall_mem_nil _
  | cons hfit hone h ih =>
    intro n hn
    rcases List.mem_append.1 hn with hn | hn
    · exact ⟨_, List.mem_cons_self, hfit n hn⟩
    · obtain ⟨a, ha, hacc⟩ := ih n hn
      exact ⟨a, List.mem_cons_of_mem _ ha, hacc⟩

/-- Sorted nodes are those of the first type, then those of the next, and so on. -/
theorem eq_flatMap_filter {cs : List PlacedNode} (h : Sorts as (cs.map (·.node)))
    (hnodup : (as.map (·.type)).Nodup) :
    cs = as.flatMap (fun a => cs.filter fun c => a.type.accepts c.kind) ∧
      ∀ a ∈ as, a.single = true → (cs.filter fun c => a.type.accepts c.kind).length ≤ 1 := by
  generalize hcs : cs.map (·.node) = ns at h
  induction h generalizing cs with
  | nil =>
    rw [List.map_eq_nil_iff] at hcs
    subst hcs
    exact ⟨rfl, List.forall_mem_nil _⟩
  | @cons a as ms ns hfit hone h ih =>
    obtain ⟨bs, ds, rfl, rfl, rfl⟩ := List.map_eq_append_iff.1 hcs
    rw [List.map_cons, List.nodup_cons] at hnodup
    obtain ⟨hnot, hnodup⟩ := hnodup
    obtain ⟨heq, hsingle⟩ := ih hnodup rfl
    have hfit : ∀ c ∈ bs, a.type.accepts c.kind = true := fun c hc =>
      hfit c.node (List.mem_map_of_mem hc)
    -- no other accessor asks for the nodes in front, and this one not for those behind
    have hfront : ∀ b ∈ as, bs.filter (fun c => b.type.accepts c.kind) = [] := by
      intro b hb
      rw [List.filter_eq_nil_iff]
      intro c hc hacc
      have he := ViewType.unique_of_accepts (hfit c hc) hacc
      exact hnot (he ▸ List.mem_map_of_mem hb)
    have hbehind : ds.filter (fun c => a.type.accepts c.kind) = [] := by
      rw [List.filter_eq_nil_iff]
      intro c hc hacc
      obtain ⟨b, hb, hb'⟩ := h.exists_accepts c.node (List.mem_map_of_mem hc)
      have he := ViewType.unique_of_accepts hb' hacc
      exact hnot (he ▸ List.mem_map_of_mem hb)
    have hself : bs.filter (fun c => a.type.accepts c.kind) = bs := List.filter_eq_self.2 hfit
    have hrest (b : Accessor) (hb : b ∈ as) : (bs ++ ds).filter (fun c => b.type.accepts c.kind) =
        ds.filter fun c => b.type.accepts c.kind := by
      rw [List.filter_append, hfront b hb, List.nil_append]
    constructor
    · rw [List.flatMap_cons, List.filter_append, hself, hbehind, List.append_nil,
        List.flatMap_congr hrest, ← heq]
    · refine List.forall_mem_cons.2 ⟨fun hs => ?_, fun b hb hs => ?_⟩
      · rw [List.filter_append, hself, hbehind, List.append_nil]
        simpa using hone hs
      · rw [hrest b hb]
        exact hsingle b hb hs

end Sorts

/-- The views of a type among nodes are the nodes of the kinds. -/
theorem map_node_filterMap_cast? (v : ViewType) (cs : List PlacedNode) :
    (cs.filterMap (View.cast? v)).map (·.node) = cs.filter fun c => v.accepts c.kind := by
  induction cs with
  | nil => rfl
  | cons c cs ih =>
    by_cases h : v.accepts c.kind = true
    · simpa [View.cast?, h] using ih
    · simpa [View.cast?, h, List.filterMap_cons] using ih

/-- If the children of a node are sorted, the accessors give all of them. -/
theorem childNodes_eq {as : List Accessor} {n : PlacedNode}
    (h : Sorts as (Element.nodesOf n.node.children)) (hnodup : (as.map (·.type)).Nodup) :
    n.childNodes = as.flatMap fun a => (a.views n).map (·.node) := by
  rw [← PlacedNode.map_node_childNodes] at h
  obtain ⟨heq, hsingle⟩ := h.eq_flatMap_filter hnodup
  refine heq.trans (List.flatMap_congr fun a ha => ?_)
  rw [← map_node_filterMap_cast?, views]
  split
  · rename_i hs
    have hlen := hsingle a ha hs
    rw [← map_node_filterMap_cast?, List.length_map] at hlen
    rw [View.childOf?, View.childrenOf]
    congr 1
    cases hw : n.childNodes.filterMap (View.cast? a.type) with
    | nil => rfl
    | cons w ws =>
      cases ws with
      | nil => rfl
      | cons x ws =>
        rw [hw] at hlen
        exact absurd hlen (by simp)
  · rfl

theorem mem_childNodes_of_mem_views {a : Accessor} {n : PlacedNode} {w : View a.type}
    (h : w ∈ a.views n) : w.node ∈ n.childNodes := by
  unfold views at h
  split at h
  · rw [Option.mem_toList] at h
    exact View.mem_of_mem_filterMap_cast? (List.mem_of_mem_head? h)
  · exact View.mem_of_mem_filterMap_cast? h

end Accessor

/-- The kinds of the nodes that views are for: sections, steps and their arguments. -/
def Kind.isStructure : Kind → Bool
  | feature | background | rule | scenario | examples | step | table | tableRow | tableCell
  | docString => true
  | _ => false

/-- There is nothing but texts, tags and the like in an element. -/
def Element.Prose (e : Element) : Prop :=
  ∀ above o, e.Everywhere (fun _ _ n => n.kind.isStructure = false) above o

namespace Element

theorem prose_token (t : Token) : (token t).Prose := fun _ _ => (everywhere_token t).2 trivial

theorem prose_toElement {n : Node} (hk : n.kind.isStructure = false)
    (hes : ∀ e ∈ n.children, e.Prose) : n.toElement.Prose :=
  fun _ _ => (everywhere_node _ _).2 ⟨hk, everywhereAll_of_forall fun e he => hes e he _⟩

theorem prose_of_mem_tokens (ts : List Token) : ∀ e ∈ ts.map token, e.Prose := by
  simpa using fun t _ => prose_token t

end Element

namespace Node

open Element

variable {n : Node} {k : Kind} {outline : Bool}

theorem IsPart.prose {e : Element} (h : IsPart k e) : e.Prose := by
  cases h with
  | run => exact prose_token _
  | placeholder hn =>
    cases hn with
    | @mk less name greater => exact prose_toElement rfl (prose_of_mem_tokens [less, name, greater])

theorem IsText.prose (h : n.IsText k outline) : ∀ e ∈ n.children, e.Prose := by
  cases h with
  | @plain t => exact prose_of_mem_tokens [t]
  | pieces hne hps => exact fun p hp => (hps p hp).prose

theorem IsText.prose_toElement (h : n.IsText k outline) : n.toElement.Prose := by
  refine Element.prose_toElement ?_ h.prose
  rw [h.kind_eq]
  cases outline <;> rfl

theorem IsStepText.prose (h : n.IsStepText outline) : ∀ e ∈ n.children, e.Prose := by
  cases h with
  | @lacking t => exact prose_of_mem_tokens [t]
  | found hn => exact hn.prose

theorem IsTags.prose (h : n.IsTags) : ∀ e ∈ n.children, e.Prose := by
  cases h with
  | mk => exact prose_of_mem_tokens _

theorem IsDescription.prose (h : n.IsDescription) : ∀ e ∈ n.children, e.Prose := by
  cases h with
  | mk => exact prose_of_mem_tokens _

theorem IsCell.prose (h : n.IsCell outline) : ∀ e ∈ n.children, e.Prose := by
  cases h with
  | @empty _ t => exact prose_of_mem_tokens [t]
  | @plain t => exact prose_of_mem_tokens [t]
  | pieces hn => exact List.forall_mem_singleton.2 hn.prose_toElement

theorem IsDocString.prose (h : n.IsDocString outline) : ∀ e ∈ n.children, e.Prose := by
  cases h with
  | @mk first last contentType content hfirst htype hcontent hlast =>
    intro e he
    simp only [ofDocString, optional, List.mem_append, List.mem_cons, List.mem_map,
      Option.mem_toList, List.not_mem_nil, or_false] at he
    rcases he with ((rfl | ⟨m, hm, rfl⟩) | ⟨m, hm, rfl⟩) | rfl
    · exact prose_token _
    · cases htype m hm with
      | @mk t => exact Element.prose_toElement rfl (prose_of_mem_tokens [t])
    · exact (hcontent m hm).prose_toElement
    · exact prose_token _

end Node

/-- The form of the nodes that a type of views is for. -/
def ViewType.Form (n : Node) : ViewType → Prop
  | document => n.IsDocument
  | feature => n.IsFeature
  | rule => n.IsRule
  | background => n.IsBackground
  | scenario => n.IsScenario
  | examples => n.IsExamples
  | step => ∃ outline, n.IsStep outline
  | table => ∃ outline, n.IsTable outline
  | tableRow => ∃ outline, n.IsRow outline
  | tableCell => ∃ outline, n.IsCell outline
  | docString => ∃ outline, n.IsDocString outline
  | text => ∀ e ∈ n.children, e.Prose
  | tags => n.IsTags
  | description => n.IsDescription

/-- A node of a document has the form that its kind says. -/
theorem Node.Form.of_accepts {n : Node} {above : Option Kind} {v : ViewType}
    (h : n.Form above) (hv : v.accepts n.kind = true) : v.Form n := by
  have heq {w : ViewType} {k : Kind} (hk : n.kind = k) (hw : w.accepts k = true) : v = w :=
    ViewType.unique_of_accepts hv (hk ▸ hw)
  cases h with
  | placeholder h =>
    rw [h.kind_eq] at hv
    cases v <;> cases hv
  | text h =>
    have htext : v = .text := heq h.kind_eq (by split <;> rfl)
    rw [htext]
    exact h.prose
  | cell h =>
    rw [heq (w := .tableCell) h.kind_eq rfl]
    exact ⟨_, h⟩
  | row h =>
    rw [heq (w := .tableRow) h.kind_eq rfl]
    exact ⟨_, h⟩
  | table h =>
    rw [heq (w := .table) h.kind_eq rfl]
    exact ⟨_, h⟩
  | contentType h =>
    rw [h.kind_eq] at hv
    cases v <;> cases hv
  | docString h =>
    rw [heq (w := .docString) h.kind_eq rfl]
    exact ⟨_, h⟩
  | stepText h =>
    have htext : v = .text := h.kind_eq.elim (heq · rfl) (heq · rfl)
    rw [htext]
    exact h.prose
  | step h =>
    rw [heq (w := .step) h.kind_eq rfl]
    exact ⟨_, h⟩
  | tags h =>
    rw [heq (w := .tags) h.kind_eq rfl]
    exact h
  | description h =>
    rw [heq (w := .description) h.kind_eq rfl]
    exact h
  | background h =>
    rw [heq (w := .background) h.kind_eq rfl]
    exact h
  | examples h =>
    rw [heq (w := .examples) h.kind_eq rfl]
    exact h
  | scenario h =>
    rw [heq (w := .scenario) h.kind_eq rfl]
    exact h
  | rule h =>
    rw [heq (w := .rule) h.kind_eq rfl]
    exact h
  | feature h =>
    rw [heq (w := .feature) h.kind_eq rfl]
    exact h
  | document h =>
    rw [heq (w := .document) h.kind_eq rfl]
    exact h

namespace Node

open Accessor Element

variable {n : Node} {k : Kind} {outline : Bool} {as : List Accessor} {ns : List Node}

/-- The accessors for the header of a section. -/
def headed (as : List Accessor) : List Accessor := one .tags :: one .text :: one .description :: as

theorem Header.sorts {h : Header} (hp : h.Plain) (ht : ∀ n ∈ h.tags, n.IsTags) (hs : Sorts as ns) :
    Sorts (headed as) (nodesOf h.elements ++ ns) := by
  have hnodes : nodesOf h.elements ++ ns =
      h.tags.toList ++ (h.name.toList ++ (h.description.toList ++ ns)) := by
    simp [Header.elements]
  rw [hnodes]
  exact .one (fun m hm => (ht m hm).kind_eq ▸ rfl) (.one (fun m hm => (hp.name m hm).kind_eq ▸ rfl)
    (.one (fun m hm => (hp.description m hm).kind_eq ▸ rfl) hs))

theorem IsRow.sorts (h : n.IsRow outline) : Sorts [every .tableCell] (nodesOf n.children) := by
  cases h with
  | @mk bar cells hbar hcells hbars hinner =>
    have hnodes : nodesOf (ofRow bar cells).children = cells.map (·.1) ++ [] := by
      rw [List.append_nil, ofRow, nodesOf_token]
      clear hcells hbars hinner
      induction cells with
      | nil => rfl
      | cons c cs ih => simp [ih]
    rw [hnodes]
    refine .every (fun m hm => ?_) .nil
    obtain ⟨c, hc, rfl⟩ := List.mem_map.1 hm
    exact (hcells c hc).kind_eq ▸ rfl

theorem IsTable.sorts (h : n.IsTable outline) : Sorts [every .tableRow] (nodesOf n.children) := by
  cases h with
  | @mk rows hne hrows =>
    rw [ofTable, nodesOf_map_toElement, ← List.append_nil rows]
    exact .every (fun m hm => (hrows m hm).kind_eq ▸ rfl) .nil

theorem IsStep.sorts (h : n.IsStep outline) :
    Sorts [one .text, one .table, one .docString] (nodesOf n.children) := by
  cases h with
  | @mk k keyword text argument hk hkeyword htext hargument =>
    have htextFits : ∀ m ∈ some text, ViewType.text.accepts m.kind = true := by
      rintro m ⟨⟩
      rcases htext.kind_eq with he | he <;> rw [he] <;> rfl
    rw [ofStep, nodesOf_token, nodesOf_toElement, nodesOf_optional]
    have hnone (v : ViewType) : ∀ m ∈ none, v.accepts (Node.kind m) = true := by simp
    cases argument with
    | none => exact .one htextFits (.one (hnone _) (.one (hnone _) .nil))
    | some m =>
      rcases hargument m rfl with hm | hm
      · have hfits : ∀ x ∈ some m, ViewType.table.accepts x.kind = true := by
          rintro x ⟨⟩
          exact hm.kind_eq ▸ rfl
        exact .one htextFits (.one hfits (.one (hnone _) .nil))
      · have hfits : ∀ x ∈ some m, ViewType.docString.accepts x.kind = true := by
          rintro x ⟨⟩
          exact hm.kind_eq ▸ rfl
        exact .one htextFits (.one (hnone _) (.one hfits .nil))

theorem IsBackground.sorts (h : n.IsBackground) :
    Sorts (headed [every .step]) (nodesOf n.children) := by
  cases h with
  | @mk h steps hh ht hsteps =>
    rw [ofBackground, nodesOf_append, nodesOf_map_toElement, ← List.append_nil steps]
    exact Header.sorts hh.toPlain hh.tags (.every (fun m hm => (hsteps m hm).kind_eq ▸ rfl) .nil)

theorem IsExamples.sorts (h : n.IsExamples) : Sorts (headed [one .table]) (nodesOf n.children) := by
  cases h with
  | @mk h table hh htable =>
    rw [ofExamples, nodesOf_append, nodesOf_optional, ← List.append_nil table.toList]
    exact Header.sorts hh.toPlain hh.tags (.one (fun m hm => (htable m hm).kind_eq ▸ rfl) .nil)

theorem IsScenario.sorts (h : n.IsScenario) :
    Sorts (headed [every .step, every .examples]) (nodesOf n.children) := by
  cases h with
  | @mk outline r h steps examples hr hh houtline hsteps hexamples =>
    rw [ofScenario, nodesOf_append, nodesOf_append, nodesOf_map_toElement, nodesOf_map_toElement,
      List.append_assoc, ← List.append_nil examples]
    exact Header.sorts hh.toPlain hh.tags (.every (fun m hm => (hsteps m hm).kind_eq ▸ rfl)
      (.every (fun m hm => (hexamples m hm).kind_eq ▸ rfl) .nil))

theorem IsRule.sorts (h : n.IsRule) :
    Sorts (headed [one .background, every .scenario]) (nodesOf n.children) := by
  cases h with
  | @mk h background scenarios hh hbackground hscenarios =>
    rw [ofRule, nodesOf_append, nodesOf_append, nodesOf_optional, nodesOf_map_toElement,
      List.append_assoc, ← List.append_nil scenarios]
    exact Header.sorts hh.toPlain hh.tags (.one (fun m hm => (hbackground m hm).kind_eq ▸ rfl)
      (.every (fun m hm => (hscenarios m hm).kind_eq ▸ rfl) .nil))

theorem IsFeature.sorts (h : n.IsFeature) :
    Sorts (headed [one .background, every .scenario, every .rule]) (nodesOf n.children) := by
  cases h with
  | @mk h background scenarios rules hh hbackground hscenarios hrules =>
    have hplain : h.Plain := hh.elim (·.toPlain) (·.toPlain)
    have htags : ∀ m ∈ h.tags, m.IsTags := hh.elim (·.tags) (fun hh => by simp [hh.tags])
    rw [ofFeature, nodesOf_append, nodesOf_append, nodesOf_append, nodesOf_optional,
      nodesOf_map_toElement, nodesOf_map_toElement, List.append_assoc, List.append_assoc,
      ← List.append_nil rules]
    exact Header.sorts hplain htags (.one (fun m hm => (hbackground m hm).kind_eq ▸ rfl)
      (.every (fun m hm => (hscenarios m hm).kind_eq ▸ rfl)
        (.every (fun m hm => (hrules m hm).kind_eq ▸ rfl) .nil)))

theorem IsDocument.sorts (h : n.IsDocument) :
    Sorts [one .feature] (nodesOf n.children) := by
  cases h with
  | @mk feature eof hfeature heof =>
    rw [ofDocument, nodesOf_append, nodesOf_optional]
    exact .one (fun m hm => (hfeature m hm).kind_eq ▸ rfl) .nil

end Node

end GherkinTree
