import SchemaDelta.Proofs.Edit.Transformation
import SchemaDelta.Proofs.Graph.Subjects
import SchemaDelta.Proofs.Lists
import SchemaDelta.Report

/-!
What the steps of a script are told as. Each step of a script between the graphs of two type systems
is told as a finding, and a finding says which step it comes from; so there is always a report.
-/

namespace SchemaDelta

namespace Comparison

/-! ## What a step can be told as -/

/-- What a step among others is told as. -/
inductive Tells (c : Comparison) (operations : List Edit) : Edit → Finding → Prop where
  | inserted {target : Nat} {v : Vertex} {subject : Subject}
    (hv : c.newGraph.vertex? target = some v) (hbuiltIn : v.isBuiltIn = false)
    (hcovered : c.isCovered operations .new target = false)
    (hsubject : c.newGraph.IsSubject target subject) :
    Tells c operations (.insertVertex target) (.change (.added subject))
  | coveredInsertion {target : Nat} {v : Vertex} (hv : c.newGraph.vertex? target = some v)
    (h : v.isBuiltIn = true ∨ c.isCovered operations .new target = true) :
    Tells c operations (.insertVertex target) .nothing
  | deleted {source : Nat} {v : Vertex} {subject : Subject}
    (hv : c.oldGraph.vertex? source = some v) (hbuiltIn : v.isBuiltIn = false)
    (hcovered : c.isCovered operations .old source = false)
    (hsubject : c.oldGraph.IsSubject source subject) :
    Tells c operations (.deleteVertex source) (.change (.removed subject))
  | coveredDeletion {source : Nat} {v : Vertex} (hv : c.oldGraph.vertex? source = some v)
    (h : v.isBuiltIn = true ∨ c.isCovered operations .old source = true) :
    Tells c operations (.deleteVertex source) .nothing
  | revised {source target : Nat} {v w : Vertex} {subject : Subject}
    (hv : c.oldGraph.vertex? source = some v) (hw : c.newGraph.vertex? target = some w)
    (hold : v.isBuiltIn = false) (hnew : w.isBuiltIn = false) (hrevised : revisions v w ≠ [])
    (hsubject : c.newGraph.IsSubject target subject) :
    Tells c operations (.changeVertex source target) (revisionFinding (revisions v w) subject)
  | unrevised {source target : Nat} {v w : Vertex} (hv : c.oldGraph.vertex? source = some v)
    (hw : c.newGraph.vertex? target = some w)
    (h : v.isBuiltIn = true ∨ w.isBuiltIn = true ∨ revisions v w = []) :
    Tells c operations (.changeVertex source target) .nothing
  | gainedInterface {target : Nat} {e : Edge} {one two object interface : Vertex} {id : Nat}
    (he : c.newGraph.edge? target = some e) (hlabel : Label.isImplements e.label = true)
    (hone : c.newGraph.vertex? e.one = some one) (htwo : c.newGraph.vertex? e.two = some two)
    (hends : objectAndInterface? e one two = some (id, object, interface))
    (hreported : c.additions = true ∨ comesOrGoes operations .new id = false) :
    Tells c operations (.insertEdge target) (.object object.name [.addedInterface interface.name])
  | insertedEdge {target : Nat} {e : Edge} {one two : Vertex}
    (he : c.newGraph.edge? target = some e) (hone : c.newGraph.vertex? e.one = some one)
    (htwo : c.newGraph.vertex? e.two = some two)
    (h : comesOrGoes operations .new e.one = false ∧ comesOrGoes operations .new e.two = false) :
    Tells c operations (.insertEdge target)
      (.unclassified ⟨.insertEdge, e.label, none, one.place, two.place⟩)
  | coveredEdgeInsertion {target : Nat} {e : Edge} (he : c.newGraph.edge? target = some e)
    (h : comesOrGoes operations .new e.one = true ∨ comesOrGoes operations .new e.two = true) :
    Tells c operations (.insertEdge target) .nothing
  | deletedEdge {source : Nat} {e : Edge} {one two : Vertex}
    (he : c.oldGraph.edge? source = some e) (hone : c.oldGraph.vertex? e.one = some one)
    (htwo : c.oldGraph.vertex? e.two = some two)
    (h : comesOrGoes operations .old e.one = false ∧ comesOrGoes operations .old e.two = false) :
    Tells c operations (.deleteEdge source)
      (.unclassified ⟨.deleteEdge, e.label, none, one.place, two.place⟩)
  | coveredEdgeDeletion {source : Nat} {e : Edge} (he : c.oldGraph.edge? source = some e)
    (h : comesOrGoes operations .old e.one = true ∨ comesOrGoes operations .old e.two = true) :
    Tells c operations (.deleteEdge source) .nothing
  | changedEdge {source target : Nat} {e e' : Edge} {one two : Vertex}
    (he : c.oldGraph.edge? source = some e) (he' : c.newGraph.edge? target = some e')
    (hone : c.newGraph.vertex? e'.one = some one) (htwo : c.newGraph.vertex? e'.two = some two) :
    Tells c operations (.changeEdge source target)
      (.unclassified ⟨.changeEdge, e'.label, some e.label, one.place, two.place⟩)

/-! ## Look-ups -/

variable {c : Comparison} {operations : List Edit} {side : Side} {id : Nat} {v : Vertex}

theorem vertex_eq_ok (operation : EditKind) (side : Side) (hv : (c.graph side).vertex? id = some v) :
    c.vertex operation side id = .ok v := by
  rw [vertex, hv]

theorem edge_eq_ok {e : Edge} (operation : EditKind) (side : Side)
    (he : (c.graph side).edge? id = some e) : c.edge operation side id = .ok e := by
  rw [edge, he]

theorem comesOrGoes_old : comesOrGoes operations .old id = true ↔ .deleteVertex id ∈ operations :=
  List.contains_iff_mem

theorem comesOrGoes_new : comesOrGoes operations .new id = true ↔ .insertVertex id ∈ operations :=
  List.contains_iff_mem

/-- Whether the graphs of a comparison are those of its type systems. -/
structure IsBuilt (c : Comparison) : Prop where
  old : Graph.ofTypeSystem c.oldSystem = .ok c.oldGraph
  new : Graph.ofTypeSystem c.newSystem = .ok c.newGraph

namespace IsBuilt

theorem ofTypeSystem_eq (h : c.IsBuilt) (side : Side) :
    Graph.ofTypeSystem (c.system side) = .ok (c.graph side) := by
  cases side
  · exact h.old
  · exact h.new

/-- A vertex that is not a built-in scalar is known to the type system. -/
theorem requireDefined_eq_ok (h : c.IsBuilt) (side : Side)
    (hv : (c.graph side).vertex? id = some v)
    (hbuiltIn : v.isBuiltIn = false) : c.requireDefined side v = .ok () := by
  have hhas := TypeSystem.has_of_vertex? (h.ofTypeSystem_eq side) hv
  -- what is no definition is not looked up
  suffices hdefined : c.isDefined side v = true by rw [requireDefined, if_pos hdefined]
  unfold isDefined
  cases hkind : v.kind.isDefinition with
  | false =>
    have htype : ¬ (v.kind.isType = true ∨ v.kind = .directive) := by
      rw [← ElementKind.isDefinition_iff, hkind]
      exact Bool.false_ne_true
    rw [if_neg fun h => htype (Or.inl h), if_neg fun h => htype (Or.inr h)]
  | true =>
    rcases hhas.exists_definition hkind hbuiltIn with ⟨d, hd, rfl⟩ | ⟨d, hd, rfl⟩
    · have hfind : (c.system side).type? d.name = some d := Catalog.find?_eq_some_iff.2 ⟨hd, rfl⟩
      simp [hfind]
    · have hfind : (c.system side).directive? d.name = some d :=
        Catalog.find?_eq_some_iff.2 ⟨hd, rfl⟩
      simp [hfind, show ElementKind.directive.isType = false from rfl]

/-- The owner of a part is found, whichever way it is looked up. -/
theorem exists_owner (h : c.IsBuilt) (side : Side) (hv : (c.graph side).vertex? id = some v)
    (kind : PartKind) (hkind : v.kind = kind.element) : ∃ w, c.owner side id v = .ok w ∧
      (c.graph side).IsSubject id (.part kind v.name (kind.ownerText w)) ∧
      (kind = .field ∨ kind = .inputField → c.container side id v = .ok w) := by
  have hpart : v.kind.isDefinition = false := by
    rw [hkind]
    cases kind <;> rfl
  obtain ⟨owner, w, label, howner, hw, howns⟩ :=
    TypeSystem.exists_owner_of_part (h.ofTypeSystem_eq side) hv hpart
  refine ⟨w, by simp [Comparison.owner, howner, hw], .part hv hkind howner hw, fun hfield => ?_⟩
  have hfields : v.kind = .field ∨ v.kind = .inputField := by
    rw [hkind]
    rcases hfield with rfl | rfl
    · exact Or.inl rfl
    · exact Or.inr rfl
  -- only what has fields owns a field, so that the container is the owner
  have hhas := howns.hasFields hfields
  unfold container Graph.fieldOwner?
  rw [hv]
  simp [hfields, howner, hw, hhas, Option.filter]

/-- Every vertex can be told. -/
theorem exists_subject (h : c.IsBuilt) (side : Side) (hv : (c.graph side).vertex? id = some v) :
    ∃ subject, c.subject side id v = .ok subject ∧ (c.graph side).IsSubject id subject := by
  unfold Comparison.subject
  cases hkind : v.kind with
  | object => exact ⟨_, rfl, .object hv hkind⟩
  | interface => exact ⟨_, rfl, .definition hv hkind⟩
  | union => exact ⟨_, rfl, .definition hv hkind⟩
  | inputObject => exact ⟨_, rfl, .definition hv hkind⟩
  | enum => exact ⟨_, rfl, .definition hv hkind⟩
  | scalar => exact ⟨_, rfl, .definition hv hkind⟩
  | directive => exact ⟨_, rfl, .definition hv hkind⟩
  | field =>
    obtain ⟨w, -, hsubject, hcontainer⟩ := h.exists_owner side hv .field hkind
    exact ⟨_, by rw [hcontainer (Or.inl rfl)]; rfl, hsubject⟩
  | inputField =>
    obtain ⟨w, -, hsubject, hcontainer⟩ := h.exists_owner side hv .inputField hkind
    exact ⟨_, by rw [hcontainer (Or.inr rfl)]; rfl, hsubject⟩
  | argument =>
    obtain ⟨w, howner, hsubject, -⟩ := h.exists_owner side hv .argument hkind
    exact ⟨_, by rw [howner]; rfl, hsubject⟩
  | enumValue =>
    obtain ⟨w, howner, hsubject, -⟩ := h.exists_owner side hv .enumValue hkind
    exact ⟨_, by rw [howner]; rfl, hsubject⟩
  | appliedDirective =>
    obtain ⟨w, howner, hsubject, -⟩ := h.exists_owner side hv .appliedDirective hkind
    exact ⟨_, by rw [howner]; rfl, hsubject⟩

theorem vertexFinding_eq (h : c.IsBuilt) (operations : List Edit) (operation : EditKind)
    (side : Side) (event : Subject → Change) (hv : (c.graph side).vertex? id = some v) : ∃ subject,
      (c.graph side).IsSubject id subject ∧
      c.vertexFinding operations operation side event id = .ok
        (if v.isBuiltIn || c.isCovered operations side id then .nothing
          else .change (event subject)) := by
  obtain ⟨subject, hok, hsubject⟩ := h.exists_subject side hv
  refine ⟨subject, hsubject, ?_⟩
  unfold vertexFinding
  rw [vertex_eq_ok operation side hv]
  cases hquiet : v.isBuiltIn || c.isCovered operations side id with
  | true =>
    simp only [bind, Except.bind, hquiet, if_true]
    rfl
  | false =>
    have hdefined := h.requireDefined_eq_ok side hv (Bool.or_eq_false_iff.1 hquiet).1
    simp only [bind, Except.bind, hquiet, hdefined, hok, Bool.false_eq_true, if_false]
    rfl

end IsBuilt

theorem unclassifiedFinding_eq {e : Edge} {one two : Vertex} (operation : EditKind) (side : Side)
    (oldLabel : Option String) (hone : (c.graph side).vertex? e.one = some one)
    (htwo : (c.graph side).vertex? e.two = some two) :
    c.unclassifiedFinding operation side e oldLabel =
      .ok (.unclassified ⟨operation, e.label, oldLabel, one.place, two.place⟩) := by
  unfold unclassifiedFinding
  rw [vertex_eq_ok operation side hone, vertex_eq_ok operation side htwo]
  rfl

theorem edgeFinding_eq {e : Edge} {one two : Vertex} (operations : List Edit)
    (operation : EditKind) (side : Side)
    (hone : (c.graph side).vertex? e.one = some one)
    (htwo : (c.graph side).vertex? e.two = some two) :
    c.edgeFinding operations operation side e = .ok
      (if comesOrGoes operations side e.one || comesOrGoes operations side e.two then .nothing
        else .unclassified ⟨operation, e.label, none, one.place, two.place⟩) := by
  unfold edgeFinding
  rw [unclassifiedFinding_eq operation side none hone htwo, ← apply_ite]

/-! ## Every step is told -/

theorem eq_of_objectAndInterface? {e : Edge} {one two object interface : Vertex} {id : Nat}
    (h : objectAndInterface? e one two = some (id, object, interface)) :
    id = e.one ∧ object = one ∧ interface = two ∨ id = e.two ∧ object = two ∧ interface = one := by
  unfold objectAndInterface? at h
  split at h
  · cases h
    exact Or.inl ⟨rfl, rfl, rfl⟩
  · cases h
    exact Or.inr ⟨rfl, rfl, rfl⟩
  · cases h

theorem kind_of_objectAndInterface? {e : Edge} {one two object interface : Vertex} {id : Nat}
    (h : objectAndInterface? e one two = some (id, object, interface)) :
    object.kind = .object ∧ interface.kind = .interface := by
  unfold objectAndInterface? at h
  split at h
  · next hone htwo =>
    cases h
    exact ⟨hone, htwo⟩
  · next hone htwo =>
    cases h
    exact ⟨htwo, hone⟩
  · cases h

/-- An edge leads from an object to an interface as a gain of the object, or it is another edge. -/
theorem isOther_or_exists_object (e : Edge) (one two : Vertex) :
    (Label.isImplements e.label = true → objectAndInterface? e one two = none) ∨
      ∃ id object interface, Label.isImplements e.label = true ∧
        objectAndInterface? e one two = some (id, object, interface) := by
  cases hends : objectAndInterface? e one two with
  | none => exact Or.inl fun _ => rfl
  | some ends =>
    cases hlabel : Label.isImplements e.label with
    | false => exact Or.inl fun h => nomatch h
    | true => exact Or.inr ⟨_, _, _, rfl, rfl⟩

section InsertedEdge

variable {target : Nat} {e : Edge} {one two : Vertex} (he : c.newGraph.edge? target = some e)
  (hone : c.newGraph.vertex? e.one = some one) (htwo : c.newGraph.vertex? e.two = some two)

include he hone htwo

/-- An edge from an object to an interface is told of the object, unless that is new itself and what
is inside is not asked for. -/
theorem insertedEdgeFinding_eq_of_object {object interface : Vertex} {id : Nat}
    (hlabel : Label.isImplements e.label = true)
    (hends : objectAndInterface? e one two = some (id, object, interface)) :
    c.insertedEdgeFinding operations target =
      .ok (if !c.additions && comesOrGoes operations .new id then .nothing
        else .object object.name [.addedInterface interface.name]) := by
  unfold insertedEdgeFinding
  rw [edge_eq_ok .insertEdge .new he]
  simp only [bind, Except.bind, hlabel, if_true]
  rw [vertex_eq_ok .insertEdge .new hone, vertex_eq_ok .insertEdge .new htwo]
  simp only [hends]
  split <;> rfl

theorem insertedEdgeFinding_eq_of_other
    (hother : Label.isImplements e.label = true → objectAndInterface? e one two = none) :
    c.insertedEdgeFinding operations target = c.edgeFinding operations .insertEdge .new e := by
  unfold insertedEdgeFinding
  rw [edge_eq_ok .insertEdge .new he]
  simp only [bind, Except.bind]
  split
  · next hlabel =>
    rw [vertex_eq_ok .insertEdge .new hone, vertex_eq_ok .insertEdge .new htwo]
    simp only [hother hlabel]
  · rfl

end InsertedEdge

/-- An edge that is inserted is told, whether it leads to an interface or not. -/
theorem exists_tells_insertEdge {target : Nat} {e : Edge}
    (he : c.newGraph.edge? target = some e) : ∃ finding,
      c.insertedEdgeFinding operations target = .ok finding ∧
        c.Tells operations (.insertEdge target) finding := by
  obtain ⟨one, two, hone, htwo⟩ := Graph.exists_ends he
  rcases isOther_or_exists_object e one two with hother | ⟨id, object, interface, hlabel, hends⟩
  · refine ⟨_, (insertedEdgeFinding_eq_of_other he hone htwo hother).trans
      (edgeFinding_eq operations .insertEdge .new hone htwo), ?_⟩
    split
    · next hends => exact .coveredEdgeInsertion he (Bool.or_eq_true_iff.1 hends)
    · next hends =>
      rw [Bool.not_eq_true, Bool.or_eq_false_iff] at hends
      exact .insertedEdge he hone htwo hends
  · refine ⟨_, insertedEdgeFinding_eq_of_object he hone htwo hlabel hends, ?_⟩
    split
    · next hquiet =>
      -- the object is new and tells of itself
      have hcomes := (Bool.and_eq_true_iff.1 hquiet).2
      refine .coveredEdgeInsertion he ?_
      rcases eq_of_objectAndInterface? hends with ⟨rfl, -⟩ | ⟨rfl, -⟩
      · exact Or.inl hcomes
      · exact Or.inr hcomes
    · next hloud =>
      refine .gainedInterface he hlabel hone htwo hends ?_
      rw [Bool.not_eq_true] at hloud
      exact (Bool.and_eq_false_iff.1 hloud).imp_left fun h => by simpa using h

theorem exists_tells_deleteEdge {source : Nat} {e : Edge}
    (he : c.oldGraph.edge? source = some e) : ∃ finding,
      c.deletedEdgeFinding operations source = .ok finding ∧
        c.Tells operations (.deleteEdge source) finding := by
  obtain ⟨one, two, hone, htwo⟩ := Graph.exists_ends he
  unfold deletedEdgeFinding
  rw [edge_eq_ok .deleteEdge .old he]
  refine ⟨_, edgeFinding_eq operations .deleteEdge .old hone htwo, ?_⟩
  split
  · next hends => exact .coveredEdgeDeletion he (Bool.or_eq_true_iff.1 hends)
  · next hends =>
    rw [Bool.not_eq_true, Bool.or_eq_false_iff] at hends
    exact .deletedEdge he hone htwo hends

/-- A vertex that is changed is told if it is not a built-in scalar and anything is revised. -/
theorem IsBuilt.exists_tells_changeVertex (h : c.IsBuilt) {source target : Nat} {v w : Vertex}
    (hv : c.oldGraph.vertex? source = some v) (hw : c.newGraph.vertex? target = some w) :
    ∃ finding, c.changedVertexFinding source target = .ok finding ∧
      c.Tells operations (.changeVertex source target) finding := by
  obtain ⟨subject, hok, hsubject⟩ := h.exists_subject .new hw
  unfold changedVertexFinding
  rw [vertex_eq_ok .changeVertex .old hv, vertex_eq_ok .changeVertex .new hw]
  simp only [bind, Except.bind]
  cases hbuiltIn : v.isBuiltIn || w.isBuiltIn with
  | true =>
    refine ⟨.nothing, rfl, .unrevised hv hw ?_⟩
    exact (Bool.or_eq_true_iff.1 hbuiltIn).imp_right Or.inl
  | false =>
    obtain ⟨hold, hnew⟩ := Bool.or_eq_false_iff.1 hbuiltIn
    rw [h.requireDefined_eq_ok .new hw hnew]
    by_cases hrevised : revisions v w = []
    · exact ⟨.nothing, by simp [hrevised]; rfl, .unrevised hv hw (Or.inr (Or.inr hrevised))⟩
    · exact ⟨_, by simp [hrevised, hok]; rfl, .revised hv hw hold hnew hrevised hsubject⟩

/-- A step of a script is told. -/
theorem IsBuilt.exists_tells (h : c.IsBuilt) {m kept : Matching}
    (haccount : AccountFor operations c.oldGraph c.newGraph m kept) {operation : Edit}
    (hmem : operation ∈ operations) : ∃ finding,
      c.finding operations operation = .ok finding ∧ c.Tells operations operation finding := by
  cases operation with
  | insertVertex target =>
    obtain ⟨v, hv⟩ := Graph.exists_vertex?_of_lt ((haccount.insertVertex_mem_iff target).1 hmem).1
    obtain ⟨subject, hsubject, heq⟩ := h.vertexFinding_eq operations .insertVertex .new .added hv
    refine ⟨_, heq, ?_⟩
    split
    · next hquiet => exact .coveredInsertion hv (Bool.or_eq_true_iff.1 hquiet)
    · next hquiet =>
      rw [Bool.not_eq_true, Bool.or_eq_false_iff] at hquiet
      exact .inserted hv hquiet.1 hquiet.2 hsubject
  | deleteVertex source =>
    obtain ⟨v, hv⟩ := Graph.exists_vertex?_of_lt ((haccount.deleteVertex_mem_iff source).1 hmem).1
    obtain ⟨subject, hsubject, heq⟩ := h.vertexFinding_eq operations .deleteVertex .old .removed hv
    refine ⟨_, heq, ?_⟩
    split
    · next hquiet => exact .coveredDeletion hv (Bool.or_eq_true_iff.1 hquiet)
    · next hquiet =>
      rw [Bool.not_eq_true, Bool.or_eq_false_iff] at hquiet
      exact .deleted hv hquiet.1 hquiet.2 hsubject
  | changeVertex source target =>
    obtain ⟨-, v, w, hv, hw, -⟩ := (haccount.changeVertex_mem_iff source target).1 hmem
    exact h.exists_tells_changeVertex hv hw
  | insertEdge target =>
    exact exists_tells_insertEdge (List.getElem?_eq_getElem (haccount.insertEdge_lt target hmem))
  | deleteEdge source =>
    exact exists_tells_deleteEdge (List.getElem?_eq_getElem (haccount.deleteEdge_lt source hmem))
  | changeEdge source target =>
    obtain ⟨e, e', he, he', -⟩ := haccount.changeEdge_related source target hmem
    obtain ⟨one, two, hone, htwo⟩ := Graph.exists_ends he'
    refine ⟨_, ?_, .changedEdge he he' hone htwo⟩
    rw [finding, changedEdgeFinding, edge_eq_ok .changeEdge .old he,
      edge_eq_ok .changeEdge .new he']
    exact unclassifiedFinding_eq .changeEdge .new (some e.label) hone htwo

/-- Steps that account for the graphs have a finding each, and each of them is told as its finding. -/
theorem IsBuilt.exists_findings (h : c.IsBuilt) {m kept : Matching}
    (haccount : AccountFor operations c.oldGraph c.newGraph m kept) : ∃ findings,
      c.analyze operations = .ok (.ofFindings findings) ∧
      List.Forall₂ (fun operation finding => c.finding operations operation = .ok finding ∧
        c.Tells operations operation finding) operations findings := by
  obtain ⟨findings, hfindings, hboth⟩ := exists_mapM_eq_ok (R := fun operation finding =>
      c.finding operations operation = .ok finding ∧ c.Tells operations operation finding)
    fun operation hmem => by
      obtain ⟨finding, heq, htells⟩ := h.exists_tells haccount hmem
      exact ⟨finding, heq, heq, htells⟩
  refine ⟨findings, ?_, hboth⟩
  unfold analyze
  rw [hfindings]
  rfl

/-- Whether findings tell the steps of a comparison, which account for its graphs by a matching. -/
structure IsTelling (c : Comparison) (m kept : Matching) (operations : List Edit)
    (findings : List Finding) : Prop where
  built : c.IsBuilt
  correspondence : m.IsCorrespondence c.oldGraph c.newGraph
  account : AccountFor operations c.oldGraph c.newGraph m kept
  tells : List.Forall₂ (c.Tells operations) operations findings

theorem IsTelling.exists_finding {m kept : Matching} {findings : List Finding}
    (h : c.IsTelling m kept operations findings) {operation : Edit}
    (hmem : operation ∈ operations) :
    ∃ finding ∈ findings, c.Tells operations operation finding :=
  exists_mem_right_of_forall₂ h.tells hmem

theorem IsTelling.exists_operation {m kept : Matching} {findings : List Finding}
    (h : c.IsTelling m kept operations findings) {finding : Finding} (hmem : finding ∈ findings) :
    ∃ operation ∈ operations, c.Tells operations operation finding :=
  exists_mem_left_of_forall₂ h.tells hmem

/-- The steps that realize a matching are told, whichever matching it is. -/
theorem IsBuilt.exists_isTelling (h : c.IsBuilt) {m : Matching}
    (hm : m.IsCorrespondence c.oldGraph c.newGraph)
    (hoperations : operations = m.operations c.oldGraph c.newGraph) : ∃ kept findings,
      c.IsTelling m kept operations findings ∧
      c.analyze operations = .ok (.ofFindings findings) := by
  obtain ⟨edges, hedges, hperm⟩ := hm.exists_operations_perm
  have haccount := (accountFor_stepsOf hm hedges).of_perm (hoperations ▸ hperm)
  obtain ⟨findings, hanalyze, hboth⟩ := h.exists_findings haccount
  exact ⟨⟨edges.kept⟩, findings, ⟨h, hm, haccount, hboth.imp fun _ _ => And.right⟩, hanalyze⟩

end Comparison

/-! ## Reports -/

/-- The type system of a document, and none to speak of if the text is no document. -/
def TypeSystem.ofDocument (document : String) : TypeSystem :=
  (TypeSystem.ofSdl? document).getD .empty

/-- Two type systems with a graph each as they are compared. -/
def Config.comparison (config : Config) (old new : TypeSystem) (oldGraph newGraph : Graph) :
    Comparison :=
  ⟨old, new, oldGraph, newGraph, config.additions, config.removals⟩

theorem Report.between_eq_ofScript {old new : TypeSystem} {oldGraph newGraph : Graph}
    (hold : Graph.ofTypeSystem old = .ok oldGraph) (hnew : Graph.ofTypeSystem new = .ok newGraph)
    (config : Config) (clock : Clock) :
    Report.between old new config clock = Report.ofScript old new oldGraph newGraph config
      (Script.between oldGraph newGraph config clock) := by
  unfold Report.between
  rw [hold, hnew]
  rfl

/-- The report of two type systems with a graph each is what the steps of the script add up to. -/
theorem Report.between_eq {old new : TypeSystem} {oldGraph newGraph : Graph}
    (hold : Graph.ofTypeSystem old = .ok oldGraph) (hnew : Graph.ofTypeSystem new = .ok newGraph)
    (config : Config) (clock : Clock) :
    Report.between old new config clock =
      (((config.comparison old new oldGraph newGraph).analyze
        (Script.between oldGraph newGraph config clock).operations).mapError .analysis).map
          fun analysis => ⟨oldGraph, newGraph, Script.between oldGraph newGraph config clock,
            ⟨analysis.changes, analysis.unclassified,
              (Script.between oldGraph newGraph config clock).approximate⟩⟩ := by
  rw [Report.between_eq_ofScript hold hnew]
  unfold Report.ofScript Config.comparison
  dsimp only
  cases Comparison.analyze _ (Script.between oldGraph newGraph config clock).operations <;> rfl

theorem Delta.between_eq {old new : TypeSystem} {oldGraph newGraph : Graph}
    (hold : Graph.ofTypeSystem old = .ok oldGraph) (hnew : Graph.ofTypeSystem new = .ok newGraph)
    (config : Config) (clock : Clock) :
    Delta.between old new config clock =
      (((config.comparison old new oldGraph newGraph).analyze
        (Script.between oldGraph newGraph config clock).operations).mapError .analysis).map
          fun analysis => ⟨analysis.changes, analysis.unclassified,
            (Script.between oldGraph newGraph config clock).approximate⟩ := by
  unfold Delta.between
  rw [Report.between_eq hold hnew]
  cases Comparison.analyze _ (Script.between oldGraph newGraph config clock).operations <;> rfl

/-- If the script realizes a matching, the report is what the steps that realize it are told as. -/
theorem Delta.exists_between_of_operations {old new : TypeSystem} {oldGraph newGraph : Graph}
    (hold : Graph.ofTypeSystem old = .ok oldGraph) (hnew : Graph.ofTypeSystem new = .ok newGraph)
    {config : Config} {clock : Clock} {m : Matching} (hm : m.IsCorrespondence oldGraph newGraph)
    (hoperations :
      (Script.between oldGraph newGraph config clock).operations = m.operations oldGraph newGraph) :
    ∃ kept findings,
      (config.comparison old new oldGraph newGraph).IsTelling m kept
        (Script.between oldGraph newGraph config clock).operations findings ∧
      Delta.between old new config clock = .ok ⟨(Analysis.ofFindings findings).changes,
        (Analysis.ofFindings findings).unclassified,
        (Script.between oldGraph newGraph config clock).approximate⟩ := by
  have hbuilt : (config.comparison old new oldGraph newGraph).IsBuilt := ⟨hold, hnew⟩
  obtain ⟨kept, findings, htelling, hanalyze⟩ := hbuilt.exists_isTelling hm hoperations
  rw [Delta.between_eq hold hnew, hanalyze]
  exact ⟨kept, findings, htelling, rfl⟩

/-- Two type systems with a graph each have a report, which is what the steps of the script are told
as. -/
theorem Delta.exists_between {old new : TypeSystem} {oldGraph newGraph : Graph}
    (hold : Graph.ofTypeSystem old = .ok oldGraph) (hnew : Graph.ofTypeSystem new = .ok newGraph)
    (config : Config) (clock : Clock) : ∃ m kept findings,
      (config.comparison old new oldGraph newGraph).IsTelling m kept
        (Script.between oldGraph newGraph config clock).operations findings ∧
      Delta.between old new config clock = .ok ⟨(Analysis.ofFindings findings).changes,
        (Analysis.ofFindings findings).unclassified,
        (Script.between oldGraph newGraph config clock).approximate⟩ := by
  obtain ⟨m, hm, hoperations⟩ := Script.exists_isCorrespondence oldGraph newGraph config clock
  exact ⟨m, Delta.exists_between_of_operations hold hnew hm hoperations⟩

end SchemaDelta
