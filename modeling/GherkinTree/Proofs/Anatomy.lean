import GherkinTree.Proofs.Everywhere
import GherkinTree.Proofs.Form

/-!
All nodes of a document have forms. A form fixes the children of a node and, for some nodes, the
kind of the node above. Main statement: if a document has the form of one, each node in it has one
of the forms, so what holds of the forms one by one holds of every node of every document.
-/

namespace GherkinTree

/-- The forms of nodes, given the kind of the node above. -/
inductive Node.Form : Option Kind → Node → Prop where
  | placeholder {above : Option Kind} {n : Node} (h : n.IsPlaceholder) : Form above n
  | text {above : Option Kind} {n : Node} {k : Kind} {outline : Bool} (h : n.IsText k outline)
      (hk : k.isLiteral = true) (hcell : k = .tableLiteralToken → outline = true) : Form above n
  | cell {n : Node} {outline : Bool} (h : n.IsCell outline) : Form (some .tableRow) n
  | row {n : Node} {outline : Bool} (h : n.IsRow outline) : Form (some .table) n
  | table {above : Option Kind} {n : Node} {outline : Bool} (h : n.IsTable outline) :
      Form above n
  | contentType {above : Option Kind} {n : Node} (h : n.IsContentType) : Form above n
  | docString {n : Node} {outline : Bool} (h : n.IsDocString outline) : Form (some .step) n
  | stepText {n : Node} {outline : Bool} (h : n.IsStepText outline) : Form (some .step) n
  | step {above : Option Kind} {n : Node} {outline : Bool} (h : n.IsStep outline) :
      Form above n
  | tags {above : Option Kind} {n : Node} (h : n.IsTags) : Form above n
  | description {above : Option Kind} {n : Node} (h : n.IsDescription) : Form above n
  | background {above : Option Kind} {n : Node} (h : n.IsBackground) : Form above n
  | examples {above : Option Kind} {n : Node} (h : n.IsExamples) : Form above n
  | scenario {above : Option Kind} {n : Node} (h : n.IsScenario) : Form above n
  | rule {above : Option Kind} {n : Node} (h : n.IsRule) : Form above n
  | feature {above : Option Kind} {n : Node} (h : n.IsFeature) : Form above n
  | document {above : Option Kind} {n : Node} (h : n.IsDocument) : Form above n

/-- All nodes of an element have forms, wherever it begins. -/
def Element.Formed (above : Option Kind) (e : Element) : Prop :=
  ∀ o, e.Everywhere (fun above _ n => n.Form above) above o

namespace Element

variable {above : Option Kind} {k : Kind} {outline : Bool} {n : Node}

theorem formed_token (t : Token) : (token t).Formed above := fun _ => (everywhere_token t).2 trivial

theorem formed_toElement (h : n.Form above) (hes : ∀ e ∈ n.children, e.Formed (some n.kind)) :
    n.toElement.Formed above :=
  fun _ => (everywhere_node _ _).2 ⟨h, everywhereAll_of_forall hes⟩

theorem formed_of_mem_tokens (ts : List Token) : ∀ e ∈ ts.map token, e.Formed above := by
  simpa using fun t _ => formed_token t

theorem formed_of_mem_map {ns : List Node} (h : ∀ n ∈ ns, n.toElement.Formed above) :
    ∀ e ∈ ns.map Node.toElement, e.Formed above := by simpa using h

theorem formed_of_mem_optional {n : Option Node} (h : ∀ m ∈ n, m.toElement.Formed above) :
    ∀ e ∈ Node.optional n, e.Formed above :=
  formed_of_mem_map fun m hm => h m (Option.mem_toList.1 hm)

theorem formed_append {as bs : List Element} (ha : ∀ e ∈ as, e.Formed above)
    (hb : ∀ e ∈ bs, e.Formed above) : ∀ e ∈ as ++ bs, e.Formed above := by
  intro e he
  exact (List.mem_append.1 he).elim (ha e) (hb e)

theorem formed_cons {e : Element} {es : List Element} (h : e.Formed above)
    (hs : ∀ e ∈ es, e.Formed above) : ∀ x ∈ e :: es, x.Formed above :=
  List.forall_mem_cons.2 ⟨h, hs⟩

end Element

open Element

namespace Node

variable {above : Option Kind} {k : Kind} {outline : Bool} {n : Node}

theorem IsPart.formed {e : Element} (h : IsPart k e) : e.Formed above := by
  cases h with
  | run => exact formed_token _
  | placeholder hn =>
    refine formed_toElement (.placeholder hn) ?_
    cases hn with
    | @mk less name greater => exact formed_of_mem_tokens [less, name, greater]

theorem IsText.formed (h : n.IsText k outline) (hk : k.isLiteral = true)
    (hcell : k = .tableLiteralToken → outline = true) : n.toElement.Formed above := by
  refine formed_toElement (.text h hk hcell) ?_
  cases h with
  | @plain t => exact formed_of_mem_tokens [t]
  | pieces hne hps => exact fun p hp => (hps p hp).formed

theorem IsCell.formed (h : n.IsCell outline) : n.toElement.Formed (some .tableRow) := by
  refine formed_toElement (.cell h) ?_
  cases h with
  | @empty _ t => exact formed_of_mem_tokens [t]
  | @plain t => exact formed_of_mem_tokens [t]
  | pieces hn => exact formed_cons (hn.formed rfl fun _ => rfl) (List.forall_mem_nil _)

theorem IsRow.formed (h : n.IsRow outline) : n.toElement.Formed (some .table) := by
  refine formed_toElement (.row h) ?_
  cases h with
  | mk hbar hcells hbars hinner =>
    refine formed_cons (formed_token _) fun e he => ?_
    obtain ⟨c, hc, he⟩ := List.mem_flatMap.1 he
    exact formed_cons (hcells c hc).formed (formed_of_mem_tokens [c.2]) e he

theorem IsTable.formed (h : n.IsTable outline) : n.toElement.Formed above := by
  refine formed_toElement (.table h) ?_
  cases h with
  | mk hne hrows => exact formed_of_mem_map fun r hr => (hrows r hr).formed

theorem IsContentType.formed (h : n.IsContentType) : n.toElement.Formed above := by
  refine formed_toElement (.contentType h) ?_
  cases h with
  | @mk t => exact formed_of_mem_tokens [t]

theorem IsDocString.formed (h : n.IsDocString outline) : n.toElement.Formed (some .step) := by
  refine formed_toElement (.docString h) ?_
  cases h with
  | @mk first last contentType content hfirst htype hcontent hlast =>
    exact formed_append (formed_append
      (formed_cons (formed_token first) (formed_of_mem_optional fun m hm => (htype m hm).formed))
      (formed_of_mem_optional fun m hm => (hcontent m hm).formed rfl nofun))
      (formed_of_mem_tokens [last])

theorem IsStepText.formed (h : n.IsStepText outline) : n.toElement.Formed (some .step) := by
  cases id h with
  | @lacking t => exact formed_toElement (.stepText h) (formed_of_mem_tokens [t])
  | found hn => exact hn.formed rfl nofun

theorem IsStep.formed (h : n.IsStep outline) : n.toElement.Formed above := by
  refine formed_toElement (.step h) ?_
  cases h with
  | mk hk hkeyword htext hargument =>
    refine formed_cons (formed_token _) (formed_cons htext.formed ?_)
    exact formed_of_mem_optional fun m hm =>
      (hargument m hm).elim IsTable.formed IsDocString.formed

theorem IsTags.formed (h : n.IsTags) : n.toElement.Formed above := by
  refine formed_toElement (.tags h) ?_
  cases h with
  | mk hne hts => exact formed_of_mem_tokens _

theorem IsDescription.formed (h : n.IsDescription) : n.toElement.Formed above := by
  refine formed_toElement (.description h) ?_
  cases h with
  | mk hne hts => exact formed_of_mem_tokens _

end Node

namespace Header

variable {above : Option Kind} {k : Kind} {h : Header}

theorem Plain.formed (hp : h.Plain) (ht : ∀ n ∈ h.tags, n.IsTags) :
    ∀ e ∈ h.elements, e.Formed above :=
  formed_append (formed_append (formed_append
    (formed_of_mem_optional fun m hm => (ht m hm).formed)
    (formed_of_mem_tokens [h.keyword, h.colon]))
    (formed_of_mem_optional fun m hm => (hp.name m hm).formed rfl nofun))
    (formed_of_mem_optional fun m hm => (hp.description m hm).formed)

theorem IsOf.formed (hh : h.IsOf k) : ∀ e ∈ h.elements, e.Formed above :=
  hh.toPlain.formed hh.tags

theorem IsImplied.formed (hh : h.IsImplied) : ∀ e ∈ h.elements, e.Formed above :=
  hh.toPlain.formed (by simp [hh.tags])

end Header

namespace Node

variable {above : Option Kind} {n : Node}

theorem IsBackground.formed (h : n.IsBackground) : n.toElement.Formed above := by
  refine formed_toElement (.background h) ?_
  cases h with
  | mk hh ht hsteps =>
    exact formed_append hh.formed (formed_of_mem_map fun m hm => (hsteps m hm).formed)

theorem IsExamples.formed (h : n.IsExamples) : n.toElement.Formed above := by
  refine formed_toElement (.examples h) ?_
  cases h with
  | mk hh htable =>
    exact formed_append hh.formed (formed_of_mem_optional fun m hm => (htable m hm).formed)

theorem IsScenario.formed (h : n.IsScenario) : n.toElement.Formed above := by
  refine formed_toElement (.scenario h) ?_
  cases h with
  | mk hr hh houtline hsteps hexamples =>
    exact formed_append
      (formed_append hh.formed (formed_of_mem_map fun m hm => (hsteps m hm).formed))
      (formed_of_mem_map fun m hm => (hexamples m hm).formed)

theorem IsRule.formed (h : n.IsRule) : n.toElement.Formed above := by
  refine formed_toElement (.rule h) ?_
  cases h with
  | mk hh hbackground hscenarios =>
    exact formed_append
      (formed_append hh.formed (formed_of_mem_optional fun m hm => (hbackground m hm).formed))
      (formed_of_mem_map fun m hm => (hscenarios m hm).formed)

theorem IsFeature.formed (h : n.IsFeature) : n.toElement.Formed above := by
  refine formed_toElement (.feature h) ?_
  cases h with
  | mk hh hbackground hscenarios hrules =>
    exact formed_append (formed_append (formed_append
      (hh.elim Header.IsOf.formed Header.IsImplied.formed)
      (formed_of_mem_optional fun m hm => (hbackground m hm).formed))
      (formed_of_mem_map fun m hm => (hscenarios m hm).formed))
      (formed_of_mem_map fun m hm => (hrules m hm).formed)

theorem IsDocument.formed (h : n.IsDocument) : n.toElement.Formed above := by
  refine formed_toElement (.document h) ?_
  cases h with
  | @mk feature eof hfeature heof =>
    exact formed_append (formed_of_mem_optional fun m hm => (hfeature m hm).formed)
      (formed_of_mem_tokens [eof])

end Node

/-- Every node of a document has a form. -/
theorem FeatureFile.formed_of_mem_descendants {o : Options} {text : Text} {m : PlacedNode}
    (hm : m ∈ (parse o text).root.descendants) : m.node.Form m.kindAbove := by
  have hform : (parse o text).tree.toElement.Formed none := (isDocument_parse o.dialect text).formed
  exact (PlacedNode.forall_descendants_iff (parse o text).root).2 (hform 0) m hm

end GherkinTree
