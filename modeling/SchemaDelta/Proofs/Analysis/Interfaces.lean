import SchemaDelta.Proofs.Analysis.Interiors
import SchemaDelta.Proofs.Edit.Insertions
import SchemaDelta.Proofs.Graph.Depiction

/-!
The interfaces that objects are told to gain. An object that was there is told to gain those beyond
the ones it had, whatever these are called now; a new object is told to gain all that it lists, or
none.
-/

namespace SchemaDelta

/-! ## Interfaces as edges -/

namespace TypeSystem

variable {ts : TypeSystem} {g : Graph}

/-- Only its list of interfaces relates an object to an interface. -/
theorem exists_relations_eq (ts : TypeSystem) : ∃ others,
    ts.relations = (ts.types.entries.flatMap fun d => d.body.interfaces.map fun name =>
      ⟨d.place, ⟨.interface, name⟩, Label.implementing name⟩) ++ others ∧
    ∀ link ∈ others, link.source.kind = .object → link.target.kind ≠ .interface := by
  refine ⟨_, by unfold relations; simp only [List.append_assoc]; rfl, fun link hlink => ?_⟩
  simp only [List.mem_append, List.mem_flatMap, List.mem_map, List.mem_filterMap, Prod.exists,
    Option.map_eq_some_iff] at hlink
  rcases hlink with ⟨d, -, name, -, rfl⟩ | ⟨owner, f, -, rfl⟩ | ⟨owner, a, -, rfl⟩ |
    ⟨owner, a, -, rfl⟩ | ⟨owner, value, -, rfl⟩ | ⟨owner, number, d, -, rfl⟩ |
    ⟨place, type, htype, rfl⟩ | ⟨owner, number, d, -, _, -, rfl⟩
  case inr.inr.inr.inr.inr.inr.inl =>
    intro hobject
    rcases kind_of_mem_typed htype with h | h | h <;> cases h.symm.trans hobject
  all_goals exact fun _ => ElementKind.noConfusion

/-- An object is related to an interface as often as it lists it. -/
theorem countP_relations_of_interface {d : TypeDefinition} (hd : d ∈ ts.types.entries)
    (hkind : d.body.kind = .object) (name : String) :
    (ts.relations.countP fun link => link.source == d.place && link.target == ⟨.interface, name⟩) =
      d.body.interfaces.count name := by
  obtain ⟨others, hrelations, hothers⟩ := ts.exists_relations_eq
  have hnone : (others.countP fun link =>
      link.source == d.place && link.target == ⟨.interface, name⟩) = 0 := by
    refine List.countP_eq_zero.2 fun link hlink hlisted => ?_
    simp only [Bool.and_eq_true, beq_iff_eq] at hlisted
    exact hothers link hlink ((congrArg Place.kind hlisted.1).trans hkind)
      (congrArg Place.kind hlisted.2)
  rw [hrelations, List.countP_append, hnone, Nat.add_zero, List.countP_eq_length_filter,
    List.filter_flatMap,
    flatMap_eq_of_nodup (a := d) (.of_map _ ts.types.distinct) (absurd hd)]
  · rw [← List.countP_eq_length_filter, List.countP_map, List.count]
    refine List.countP_congr fun other _ => ?_
    simp
  · refine fun other hother hne => List.filter_eq_nil_iff.2 fun link hlink hlisted => ?_
    obtain ⟨interface, -, rfl⟩ := List.mem_map.1 hlink
    simp only [Bool.and_eq_true, beq_iff_eq] at hlisted
    exact hne (List.inj_on_of_nodup_map ts.types.distinct hother hd
      (congrArg Place.path hlisted.1))

section Built

variable (h : Graph.ofTypeSystem ts = .ok g) {d : TypeDefinition} (hd : d ∈ ts.types.entries)
  (hkind : d.body.kind = .object)

include h

/-- An object in the graph is one that the type system gives. -/
theorem exists_type_of_object {id : Nat} {v : Vertex} (hv : g.vertex? id = some v)
    (hobject : v.kind = .object) : ∃ d ∈ ts.types.entries, v = d.vertex := by
  have hhas := has_of_vertex? h hv
  have hbuiltIn : v.isBuiltIn = false := by
    rw [← Bool.not_eq_true, hhas.isBuiltIn_iff h, hobject]
    exact fun hscalar => ElementKind.noConfusion hscalar.1
  rcases hhas.exists_definition (by rw [hobject]; rfl) hbuiltIn with hd | ⟨_, -, rfl⟩
  · exact hd
  · cases hobject

theorem place_of_interface {id : Nat} {w : Vertex} (hw : g.vertex? id = some w)
    (hinterface : w.kind = .interface) : w.place = ⟨.interface, w.name⟩ := by
  have hpath := (has_of_vertex? h hw).path_eq (by rw [hinterface]; rfl)
  rw [hinterface, if_neg ElementKind.noConfusion] at hpath
  rw [Vertex.place, hinterface, hpath]

include hd hkind

/-- There is one edge from an object to an interface for each time that the object lists it. -/
theorem length_labelsBetween_of_interface {one two : Nat} {w : Vertex}
    (hone : g.vertex? one = some d.vertex) (htwo : g.vertex? two = some w)
    (hinterface : w.kind = .interface) :
    (g.labelsBetween one two).length = d.body.interfaces.count w.name := by
  have hplace : d.vertex.place = d.place := rfl
  rw [← countP_relations_of_interface hd hkind, Graph.labelsBetween_eq hone htwo, List.length_map,
    ← List.countP_eq_length_filter, (placedEdges_perm h).countP_eq, List.countP_map,
    place_of_interface h htwo hinterface, hplace]
  exact List.countP_congr fun link _ => by simp [Link.placed]

/-- What an object lists is in the graph. -/
theorem exists_interface {name : String} (hmem : name ∈ d.body.interfaces) :
    ∃ id w, g.vertex? id = some w ∧ w.kind = .interface ∧ w.name = name := by
  cases hbody : d.body with
  | object interfaces fields =>
    rw [hbody] at hmem
    obtain ⟨target, e, w, -, -, -, htwo, hw⟩ := exists_edge?_of_interface h hd hbody hmem
    exact ⟨e.two, w, htwo, hw⟩
  | _ =>
    rw [hbody] at hkind
    cases hkind

end Built

end TypeSystem

/-! ## Interfaces that are matched -/

namespace Matching

/-- The name that an interface of the old graph has in the new one, if it is matched. -/
def interfaceAfter? (m : Matching) (old new : Graph) (name : String) : Option String := do
  let source ← old.find? ⟨.interface, name⟩
  let target ← m.image? source
  return (← new.vertex? target).name

section IsCorrespondence

variable {ts ts' : TypeSystem} {old new : Graph} {m : Matching} (h : m.IsCorrespondence old new)
  (hnew : Graph.ofTypeSystem ts' = .ok new) {target : Nat} {w : Vertex}
  (hw : new.vertex? target = some w) (hinterface : w.kind = .interface)

include h hnew hw hinterface

theorem interfaceAfter?_eq_some_iff {name : String} :
    m.interfaceAfter? old new name = some w.name ↔
      ∃ source, old.find? ⟨.interface, name⟩ = some source ∧ (source, target) ∈ m.pairs := by
  unfold interfaceAfter?
  simp only [Option.bind_eq_bind, Option.bind_eq_some_iff, Option.pure_def, Option.some.injEq,
    h.isOneToOne.image?_eq_some_iff]
  constructor
  · rintro ⟨source, hsource, target', hpair, w', hw', hname⟩
    obtain ⟨v, hv, hplace⟩ := Graph.find?_eq_some_iff.1 hsource
    have hkind : w'.kind = .interface :=
      (h.kind_eq hpair hv hw').symm.trans (congrArg Place.kind hplace)
    -- the two interfaces of one name are one
    have hsame : target' = target := by
      refine Graph.eq_of_place hw' hw ?_
      rw [TypeSystem.place_of_interface hnew hw' hkind,
        TypeSystem.place_of_interface hnew hw hinterface, hname]
    exact ⟨source, hsource, hsame ▸ hpair⟩
  · rintro ⟨source, hsource, hpair⟩
    exact ⟨source, hsource, target, hpair, w, hw, rfl⟩

/-- An interface that is matched is in the place of what it was. -/
theorem count_interfacesAfter_of_pair (hold : Graph.ofTypeSystem ts = .ok old) {source : Nat}
    {v : Vertex} (hpair : (source, target) ∈ m.pairs) (hv : old.vertex? source = some v)
    (names : List String) :
    (names.filterMap (m.interfaceAfter? old new)).count w.name = names.count v.name := by
  have hkind : v.kind = .interface := (h.kind_eq hpair hv hw).trans hinterface
  have hplace := TypeSystem.place_of_interface hold hv hkind
  rw [List.count_filterMap, List.count]
  refine List.countP_congr fun name _ => ?_
  rw [beq_iff_eq, beq_iff_eq, interfaceAfter?_eq_some_iff h hnew hw hinterface]
  constructor
  · rintro ⟨source', hfind, hpair'⟩
    obtain rfl := h.isOneToOne.eq_source hpair hpair'
    obtain ⟨v', hv', hplace'⟩ := Graph.find?_eq_some_iff.1 hfind
    cases hv.symm.trans hv'
    exact congrArg Place.path (hplace'.symm.trans hplace)
  · rintro rfl
    exact ⟨source, Graph.find?_eq_some_iff.2 ⟨v, hv, hplace⟩, hpair⟩

theorem count_interfacesAfter_of_preimage?_eq_none (hnone : m.preimage? target = none)
    (names : List String) :
    (names.filterMap (m.interfaceAfter? old new)).count w.name = 0 := by
  rw [List.count_filterMap, List.countP_eq_zero]
  intro name _ heq
  obtain ⟨source, -, hpair⟩ :=
    (interfaceAfter?_eq_some_iff h hnew hw hinterface).1 (beq_iff_eq.1 heq)
  exact preimage?_eq_none_iff.1 hnone source hpair

end IsCorrespondence

/-- Whether a matching has what is at a place of the old graph become what is at a place of the new
one. -/
def Matches (m : Matching) (old new : Graph) (place place' : Place) : Prop :=
  ∃ pair ∈ m.pairs, old.find? place = some pair.1 ∧ new.find? place' = some pair.2

instance (m : Matching) (old new : Graph) (place place' : Place) :
    Decidable (m.Matches old new place place') :=
  inferInstanceAs (Decidable (∃ pair ∈ m.pairs, _ ∧ _))

end Matching

/-! ## What is told of interfaces -/

/-- The interface that a detail tells an object to have gained. -/
def ObjectDetail.interface? : ObjectDetail → Option String
  | addedInterface name => some name
  | revised _ => none

/-- The interfaces that an event tells the object of a name to have gained. -/
def Change.gainedInterfaces (name : String) : Change → List String
  | objectChanged object details =>
    if object = name then details.filterMap ObjectDetail.interface? else []
  | _ => []

/-- The interfaces that the object of a name is told to have gained. -/
def Delta.gainedInterfaces (diff : Delta) (name : String) : List String :=
  diff.changes.flatMap (Change.gainedInterfaces name)

/-- The interfaces that a finding by itself tells the object of a name to have gained. -/
def Finding.gainedInterfaces (name : String) (finding : Finding) : List String :=
  finding.event?.elim [] (Change.gainedInterfaces name)

theorem gainedInterfaces_gathered (name : String) (entries : List (String × List ObjectDetail)) :
    ((gathered entries).map objectEvent).flatMap (Change.gainedInterfaces name) =
      (entries.map objectEvent).flatMap (Change.gainedInterfaces name) := by
  have hentries : (entries.map objectEvent).flatMap (Change.gainedInterfaces name) =
      ((entries.filter fun entry => entry.1 == name).flatMap (·.2)).filterMap
        ObjectDetail.interface? := by
    induction entries with
    | nil => rfl
    | cons entry entries ih =>
      rw [List.map_cons, List.flatMap_cons, ih, List.filter_cons]
      by_cases hname : entry.1 = name
      · simp [Change.gainedInterfaces, objectEvent, hname]
      · simp [Change.gainedInterfaces, objectEvent, hname]
  rw [hentries, gathered, List.map_map, List.flatMap_map,
    flatMap_eq_of_nodup (a := name) (nodup_eraseDups _)]
  · exact if_pos rfl
  · intro hname
    rw [List.mem_eraseDups] at hname
    have hnone : (entries.filter fun entry => entry.1 == name) = [] :=
      List.filter_eq_nil_iff.2 fun entry hentry heq =>
        hname (List.mem_map.2 ⟨entry, hentry, beq_iff_eq.1 heq⟩)
    refine (if_pos rfl).trans ?_
    dsimp only
    rw [hnone]
    rfl
  · exact fun other _ hne => if_neg hne

/-- The interfaces that objects are told to have gained are those of the single findings. -/
theorem gainedInterfaces_changes_perm (name : String) (findings : List Finding) :
    ((Analysis.ofFindings findings).changes.flatMap (Change.gainedInterfaces name)).Perm
      (findings.flatMap (Finding.gainedInterfaces name)) := by
  have hinterfaces (entries : List (String × List Revision)) :
      (entries.map interfaceEvent).flatMap (Change.gainedInterfaces name) = [] := by
    rw [List.flatMap_map]
    exact List.flatMap_eq_nil_iff.2 fun _ _ => rfl
  have hevents : findings.flatMap (Finding.gainedInterfaces name) =
      (findings.filterMap Finding.event?).flatMap (Change.gainedInterfaces name) := by
    induction findings with
    | nil => rfl
    | cons finding findings ih =>
      rw [List.flatMap_cons, ih, List.filterMap_cons, Finding.gainedInterfaces]
      cases finding.event? <;> rfl
  rw [hevents]
  refine List.Perm.trans (.of_eq ?_) ((filterMap_event?_perm findings).symm.flatMap_right _)
  rw [changes_ofFindings]
  simp only [List.flatMap_append, hinterfaces, gainedInterfaces_gathered]

namespace Comparison

variable {c : Comparison} {m kept : Matching} {operations : List Edit} {findings : List Finding}
  {operation : Edit} {finding : Finding}

theorem gainedInterfaces_revisionFinding (name : String) (details : List Revision)
    (subject : Subject) : (revisionFinding details subject).gainedInterfaces name = [] := by
  cases subject with
  | object object =>
    have hnone : (details.map ObjectDetail.revised).filterMap ObjectDetail.interface? = [] := by
      rw [List.filterMap_map]
      exact List.filterMap_eq_nil_iff.2 fun _ _ => rfl
    exact (if_congr Iff.rfl hnone rfl).trans (ite_self _)
  | definition kind name => cases kind <;> rfl
  | part kind name owner => rfl

/-- An interface that an object is told to have gained is at the other end of an edge from the object
that is inserted. -/
theorem Tells.exists_gained (h : c.Tells operations operation finding) (hbuilt : c.IsBuilt)
    {name interface : String} (hmem : interface ∈ finding.gainedInterfaces name) :
    ∃ target e one two, operation = .insertEdge target ∧ c.newGraph.edge? target = some e ∧
      c.newGraph.vertex? e.one = some one ∧ c.newGraph.vertex? e.two = some two ∧
      one.kind = .object ∧ one.name = name ∧ two.kind = .interface ∧ two.name = interface ∧
      (c.additions = true ∨ comesOrGoes operations .new e.one = false) := by
  cases h with
  | gainedInterface he hlabel hone htwo hends hreported =>
    obtain ⟨hobject, hinterface⟩ := kind_of_objectAndInterface? hends
    have hkind := TypeSystem.kind_of_isImplements hbuilt.new (List.mem_of_getElem? he) hlabel htwo
    rcases eq_of_objectAndInterface? hends with ⟨rfl, rfl, rfl⟩ | ⟨-, rfl, -⟩
    · change interface ∈ if _ = name then _ else _ at hmem
      split at hmem
      · next hname =>
        obtain rfl := List.mem_singleton.1 hmem
        exact ⟨_, _, _, _, rfl, he, hone, htwo, hobject, hname, hinterface, rfl, hreported⟩
      · cases hmem
    · cases hkind.symm.trans hobject
  | revised =>
    rw [gainedInterfaces_revisionFinding] at hmem
    cases hmem
  | _ => cases hmem

/-- The steps that realize a matching, with what each of them comes to. -/
structure IsAnalysis (c : Comparison) (m : Matching) (operations : List Edit)
    (findings : List Finding) : Prop where
  built : c.IsBuilt
  correspondence : m.IsCorrespondence c.oldGraph c.newGraph
  realizes : operations = m.operations c.oldGraph c.newGraph
  comes : ∀ target, comesOrGoes operations .new target = true ↔
    target < c.newGraph.vertices.length ∧ m.preimage? target = none
  findings : List.Forall₂ (fun operation finding =>
    c.finding operations operation = .ok finding ∧ c.Tells operations operation finding)
    operations findings

theorem IsBuilt.exists_isAnalysis (h : c.IsBuilt) (hm : m.IsCorrespondence c.oldGraph c.newGraph)
    (hoperations : operations = m.operations c.oldGraph c.newGraph) : ∃ findings,
      c.IsAnalysis m operations findings ∧ c.analyze operations = .ok (.ofFindings findings) := by
  obtain ⟨edges, hedges, hperm⟩ := hm.exists_operations_perm
  have haccount := (accountFor_stepsOf hm hedges).of_perm (hoperations ▸ hperm)
  obtain ⟨findings, hanalyze, hboth⟩ := h.exists_findings haccount
  refine ⟨findings, ⟨h, hm, hoperations, fun target => ?_, hboth⟩, hanalyze⟩
  rw [comesOrGoes_new, haccount.insertVertex_mem_iff, Matching.preimage?_eq_none_iff]

namespace IsAnalysis

section Interface

variable (h : c.IsAnalysis m operations findings) {one two : Nat} {v w : Vertex}
  (hone : c.newGraph.vertex? one = some v) (hobject : v.kind = .object)
  (htwo : c.newGraph.vertex? two = some w) (hinterface : w.kind = .interface)
  (hreported : c.additions = true ∨ comesOrGoes operations .new one = false)

include h hone hobject htwo hinterface hreported

/-- An edge from an object to an interface is told when it is inserted, and nothing else is told of
the two. -/
theorem count_gainedInterfaces_finding (hfinding : c.finding operations operation = .ok finding)
    (htells : c.Tells operations operation finding) :
    (finding.gainedInterfaces v.name).count w.name =
      if operation.insertedEdge?.any (c.newGraph.leadsFromTo one two) then 1 else 0 := by
  split
  · next hleads =>
    obtain ⟨target, e, rfl, he, rfl, rfl⟩ := Graph.any_leadsFromTo_iff.1 hleads
    have hlabel : Label.isImplements e.label = true := by
      have hrelates := TypeSystem.relates_of_mem_edges h.built.new (List.mem_of_getElem? he) hone htwo
      rw [hobject, hinterface] at hrelates
      generalize e.label = label at hrelates
      cases hrelates with
      | implementation => exact Label.isImplements_implementing _
      | type hkinds => rcases hkinds with hkind | hkind | hkind <;> cases hkind
    have hends : objectAndInterface? e v w = some (e.one, v, w) := by
      rw [objectAndInterface?, hobject, hinterface]
    cases hfinding.symm.trans
      (insertedEdgeFinding_eq_of_reported he hlabel hone htwo hends hreported)
    simp [Finding.gainedInterfaces, Finding.event?, objectEvent, Change.gainedInterfaces,
      ObjectDetail.interface?]
  · next hother =>
    refine List.count_eq_zero.2 fun hmem => hother ?_
    obtain ⟨target, e, v', w', rfl, he, hone', htwo', hobject', hname, hinterface', hname', -⟩ :=
      htells.exists_gained h.built hmem
    have hnew := h.built.new
    refine Graph.any_leadsFromTo_iff.2 ⟨target, e, rfl, he, Graph.eq_of_place hone' hone ?_,
      Graph.eq_of_place htwo' htwo ?_⟩
    · exact (TypeSystem.has_of_vertex? hnew hone').place_eq (TypeSystem.has_of_vertex? hnew hone)
        (by rw [hobject']; rfl) (hobject'.trans hobject.symm) hname
    · rw [TypeSystem.place_of_interface hnew htwo' hinterface',
        TypeSystem.place_of_interface hnew htwo hinterface, hname']

theorem count_gainedInterfaces :
    (findings.flatMap (Finding.gainedInterfaces v.name)).count w.name =
      c.newGraph.insertionsBetween (m.operations c.oldGraph c.newGraph) one two := by
  rw [← h.realizes, Graph.insertionsBetween_eq_countP]
  exact count_flatMap_of_forall₂ h.findings fun operation finding ⟨hfinding, htells⟩ =>
    h.count_gainedInterfaces_finding hone hobject htwo hinterface hreported hfinding htells

end Interface

section Object

variable (h : c.IsAnalysis m operations findings)

include h

/-- Of objects that come and are not asked for, and of what is no object, nothing is told. -/
theorem gainedInterfaces_eq_nil {name : String} (hquiet : ∀ {id : Nat} {v : Vertex},
      c.newGraph.vertex? id = some v → v.kind = .object → v.name = name →
        c.additions = false ∧ comesOrGoes operations .new id = true) :
    findings.flatMap (Finding.gainedInterfaces name) = [] := by
  refine List.flatMap_eq_nil_iff.2 fun finding hmem => List.eq_nil_iff_forall_not_mem.2 ?_
  intro interface hgained
  obtain ⟨operation, -, -, htells⟩ := exists_mem_left_of_forall₂ h.findings hmem
  obtain ⟨target, e, one, two, -, -, hone, -, hobject, hname, -, -, hreported⟩ :=
    htells.exists_gained h.built hgained
  obtain ⟨hadditions, hcomes⟩ := hquiet hone hobject hname
  rw [hadditions, hcomes] at hreported
  exact hreported.elim Bool.false_ne_true Bool.noConfusion

variable {d : TypeDefinition} (hd : d ∈ c.newSystem.types.entries) (hkind : d.body.kind = .object)
  {target : Nat} (hobject : c.newGraph.vertex? target = some d.vertex)

include hd hkind hobject

/-- An object that is reported gains what is inserted between it and each interface. -/
theorem gainedInterfaces_perm_of_count
    (hreported : c.additions = true ∨ comesOrGoes operations .new target = false)
    {gained : List String} (hlisted : gained ⊆ d.body.interfaces)
    (hcount : ∀ {id : Nat} {w : Vertex}, c.newGraph.vertex? id = some w → w.kind = .interface →
      c.newGraph.insertionsBetween (m.operations c.oldGraph c.newGraph) target id =
        gained.count w.name) :
    (findings.flatMap (Finding.gainedInterfaces d.name)).Perm gained := by
  refine List.perm_iff_count.2 fun name => ?_
  by_cases hmem : ∃ id w, c.newGraph.vertex? id = some w ∧ w.kind = .interface ∧ w.name = name
  · obtain ⟨id, w, hw, hinterface, rfl⟩ := hmem
    rw [← hcount hw hinterface]
    exact h.count_gainedInterfaces hobject hkind hw hinterface hreported
  · -- what is no interface is neither told nor listed
    rw [List.count_eq_zero.2, List.count_eq_zero.2]
    · exact fun hgained => hmem (TypeSystem.exists_interface h.built.new hd hkind (hlisted hgained))
    · intro hgained
      obtain ⟨finding, hfinding, hgained⟩ := List.mem_flatMap.1 hgained
      obtain ⟨operation, -, -, htells⟩ := exists_mem_left_of_forall₂ h.findings hfinding
      obtain ⟨-, e, -, two, -, -, -, htwo, -, -, hinterface, hname, -⟩ :=
        htells.exists_gained h.built hgained
      exact hmem ⟨e.two, two, htwo, hinterface, hname⟩

/-- An object that was there gains the interfaces beyond those that it had. -/
theorem gainedInterfaces_perm_of_pair {d₀ : TypeDefinition}
    (hd₀ : d₀ ∈ c.oldSystem.types.entries) {source : Nat}
    (hsource : c.oldGraph.vertex? source = some d₀.vertex) (hpair : (source, target) ∈ m.pairs) :
    (findings.flatMap (Finding.gainedInterfaces d.name)).Perm (d.body.interfaces.diff
      (d₀.body.interfaces.filterMap (m.interfaceAfter? c.oldGraph c.newGraph))) := by
  have hkind₀ : d₀.body.kind = .object :=
    (h.correspondence.kind_eq hpair hsource hobject).trans hkind
  have hstays : comesOrGoes operations .new target = false := by
    refine Bool.eq_false_iff.2 fun hcomes => ?_
    exact Matching.preimage?_eq_none_iff.1 ((h.comes target).1 hcomes).2 source hpair
  refine h.gainedInterfaces_perm_of_count hd hkind hobject (Or.inr hstays)
    (List.diff_subset _ _) fun {id w} hw hinterface => ?_
  have hlisted := TypeSystem.length_labelsBetween_of_interface h.built.new hd hkind hobject hw
    hinterface
  rw [List.count_diff, ← hlisted]
  cases hbefore : m.preimage? id with
  | none =>
    rw [Matching.insertionsBetween_of_preimage?_eq_none h.correspondence (Or.inr hbefore),
      Matching.count_interfacesAfter_of_preimage?_eq_none h.correspondence h.built.new hw hinterface
        hbefore, Nat.sub_zero]
  | some source' =>
    have hpair' := Matching.mem_of_preimage? hbefore
    obtain ⟨v, w', hv, hw', hsame⟩ := h.correspondence.kinds hpair'
    cases hw.symm.trans hw'
    rw [Matching.insertionsBetween_of_pairs h.correspondence hpair hpair',
      Matching.count_interfacesAfter_of_pair h.correspondence h.built.new hw hinterface h.built.old
        hpair' hv, TypeSystem.length_labelsBetween_of_interface h.built.old hd₀ hkind₀ hsource hv
        (hsame.trans hinterface)]

/-- An object that comes gains the interfaces that it lists if they are asked for, and none
otherwise. -/
theorem gainedInterfaces_perm_of_preimage?_eq_none (hnone : m.preimage? target = none) :
    (findings.flatMap (Finding.gainedInterfaces d.name)).Perm
      (if c.additions then d.body.interfaces else []) := by
  have hnew := h.built.new
  cases hadditions : c.additions with
  | true =>
    refine h.gainedInterfaces_perm_of_count hd hkind hobject (Or.inl hadditions)
      (List.Subset.refl _) fun hw hinterface => ?_
    rw [Matching.insertionsBetween_of_preimage?_eq_none h.correspondence (Or.inl hnone)]
    exact TypeSystem.length_labelsBetween_of_interface hnew hd hkind hobject hw hinterface
  | false =>
    refine .of_eq (h.gainedInterfaces_eq_nil fun {id v} hv hvkind hname => ⟨hadditions, ?_⟩)
    -- there is no other object of that name
    have hsame : id = target := by
      refine Graph.eq_of_place hv hobject ?_
      exact (TypeSystem.has_of_vertex? hnew hv).place_eq (.type hd) (by rw [hvkind]; rfl)
        (hvkind.trans hkind.symm) hname
    rw [hsame, h.comes]
    exact ⟨Graph.lt_of_vertex? hobject, hnone⟩

end Object

end IsAnalysis

end Comparison

/-! ## Reports -/

/-- What has become a new object was an object of the old type system. -/
theorem Matching.exists_matches_of_preimage? {old : TypeSystem} {oldGraph newGraph : Graph}
    {m : Matching} (h : m.IsCorrespondence oldGraph newGraph)
    (hold : Graph.ofTypeSystem old = .ok oldGraph) {d : TypeDefinition}
    (hkind : d.body.kind = .object) {source target : Nat}
    (hobject : newGraph.vertex? target = some d.vertex) (hpair : m.preimage? target = some source) :
    ∃ d₀ ∈ old.types.entries, m.Matches oldGraph newGraph d₀.place d.place := by
  have hmem := mem_of_preimage? hpair
  obtain ⟨v, w, hv, hw, hsame⟩ := h.kinds hmem
  cases hobject.symm.trans hw
  obtain ⟨d₀, hd₀, rfl⟩ := TypeSystem.exists_type_of_object hold hv (hsame.trans hkind)
  exact ⟨d₀, hd₀, (source, target), hmem, Graph.find?_eq_some_iff.2 ⟨_, hv, rfl⟩,
    Graph.find?_eq_some_iff.2 ⟨_, hobject, rfl⟩⟩

/-- The interfaces that a new object is told to have gained, each as often as it is told, are those
that it lists beyond those that it listed as the old object it was, under the names that these have
now. An object that was not there is told to have gained all that it lists if what is inside is asked
for, and none otherwise; and nothing else is told to have gained any. -/
theorem objects_are_told_to_gain_what_they_list_beyond_before {old new : TypeSystem}
    {oldGraph newGraph : Graph} (hold : Graph.ofTypeSystem old = .ok oldGraph)
    (hnew : Graph.ofTypeSystem new = .ok newGraph) (config : Config) (clock : Clock) :
    let m := Matching.between oldGraph newGraph config clock
    (Script.between oldGraph newGraph config clock).operations = m.operations oldGraph newGraph ∧
    ∃ diff, Delta.between old new config clock = .ok diff ∧
      (∀ d ∈ new.types.entries, d.body.kind = .object →
        (∀ d₀ ∈ old.types.entries, m.Matches oldGraph newGraph d₀.place d.place →
          (diff.gainedInterfaces d.name).Perm (d.body.interfaces.diff
            (d₀.body.interfaces.filterMap (m.interfaceAfter? oldGraph newGraph)))) ∧
        ((∀ d₀ ∈ old.types.entries, ¬ m.Matches oldGraph newGraph d₀.place d.place) →
          (diff.gainedInterfaces d.name).Perm (if config.additions then d.body.interfaces else []))) ∧
      ∀ name, (∀ d ∈ new.types.entries, d.body.kind = .object → d.name ≠ name) →
        diff.gainedInterfaces name = [] := by
  intro m
  have hoperations := Script.operations_between oldGraph newGraph config clock
  have hm := Matching.between_isCorrespondence oldGraph newGraph config clock
  have hbuilt : (config.comparison old new oldGraph newGraph).IsBuilt := ⟨hold, hnew⟩
  obtain ⟨findings, h, hanalyze⟩ := hbuilt.exists_isAnalysis hm hoperations
  have hdiff := Delta.between_eq hold hnew config clock
  rw [hanalyze] at hdiff
  refine ⟨hoperations, _, hdiff, fun d hd hkind => ?_, fun name hname => ?_⟩
  · have hgained := gainedInterfaces_changes_perm d.name findings
    have hhas : new.Has d.vertex := .type hd
    obtain ⟨target, hobject⟩ := TypeSystem.exists_vertex? hnew hhas
    refine ⟨fun d₀ hd₀ hmatches => ?_, fun hnone => ?_⟩
    · obtain ⟨⟨source, target'⟩, hpair, hsource, htarget⟩ := hmatches
      obtain ⟨v, hv, hplace⟩ := Graph.find?_eq_some_iff.1 hsource
      obtain ⟨w, hw, hplace'⟩ := Graph.find?_eq_some_iff.1 htarget
      cases (TypeSystem.has_of_vertex? hold hv).eq_of_place hold (.type hd₀) hplace
      cases Graph.eq_of_place hw hobject hplace'
      exact hgained.trans (h.gainedInterfaces_perm_of_pair hd hkind hobject hd₀ hv hpair)
    · refine hgained.trans (h.gainedInterfaces_perm_of_preimage?_eq_none hd hkind hobject ?_)
      refine Option.eq_none_iff_forall_not_mem.2 fun source hpair => ?_
      obtain ⟨d₀, hd₀, hmatches⟩ := Matching.exists_matches_of_preimage? hm hold hkind hobject hpair
      exact hnone d₀ hd₀ hmatches
  · have hquiet : findings.flatMap (Finding.gainedInterfaces name) = [] := by
      refine h.gainedInterfaces_eq_nil fun {id v} hv hkind heq => ?_
      obtain ⟨d, hd, rfl⟩ := TypeSystem.exists_type_of_object hnew hv hkind
      exact absurd heq (hname d hd hkind)
    have hgained := gainedInterfaces_changes_perm name findings
    rw [hquiet] at hgained
    exact hgained.eq_nil

set_option maxRecDepth 20000 in
/-- So it is where an interface is renamed, an object that has it lists another one twice, and a new
object comes. -/
theorem objects_are_told_to_gain_what_they_list_beyond_before_of_a_renamed_interface :
    let x : Field := ⟨"x", .named "Int", [], none, []⟩
    let i (name : String) : TypeDefinition := ⟨name, none, [], .interface [] [x]⟩
    let o (name : String) (interfaces : List String) : TypeDefinition :=
      ⟨name, none, [], .object interfaces [x]⟩
    let old : TypeSystem := ⟨⟨[i "A", i "C", o "Q" ["A"]], by decide⟩, .empty⟩
    let new : TypeSystem :=
      ⟨⟨[i "B", i "C", o "Q" ["C", "B", "C"], o "P" ["B"]], by decide⟩, .empty⟩
    ∃ oldGraph newGraph diff, Graph.ofTypeSystem old = .ok oldGraph ∧
      Graph.ofTypeSystem new = .ok newGraph ∧
      Delta.between old new .verbose .stopped = .ok diff ∧
      diff.gainedInterfaces "Q" = ["C", "C"] ∧ diff.gainedInterfaces "P" = ["B"] ∧
      (Matching.between oldGraph newGraph .verbose .stopped).Matches oldGraph newGraph
        ⟨.object, "Q"⟩ ⟨.object, "Q"⟩ ∧
      (diff.gainedInterfaces "Q").Perm (["C", "B", "C"].diff (["A"].filterMap
        ((Matching.between oldGraph newGraph .verbose .stopped).interfaceAfter?
          oldGraph newGraph))) ∧
      (∀ d₀ ∈ old.types.entries, ¬ (Matching.between oldGraph newGraph .verbose .stopped).Matches
        oldGraph newGraph d₀.place ⟨.object, "P"⟩) ∧
      (diff.gainedInterfaces "P").Perm ["B"] ∧ diff.gainedInterfaces "B" = [] := by
  intro x i o old new
  have hdiff : ((Delta.between old new .verbose .stopped).toOption.map fun diff =>
      (diff.gainedInterfaces "Q", diff.gainedInterfaces "P")) = some (["C", "C"], ["B"]) := by
    decide
  obtain ⟨diff, hbetween, htold⟩ := Option.map_eq_some_iff.1 hdiff
  obtain ⟨oldGraph, newGraph, hold, hnew⟩ := Delta.exists_graphs_of_between hbetween
  have hmatched : ((Graph.ofTypeSystem old).toOption.bind fun oldGraph =>
      (Graph.ofTypeSystem new).toOption.map fun newGraph =>
        let m := Matching.between oldGraph newGraph .verbose .stopped
        decide (m.Matches oldGraph newGraph ⟨.object, "Q"⟩ ⟨.object, "Q"⟩ ∧
          ∀ d₀ ∈ old.types.entries, ¬ m.Matches oldGraph newGraph d₀.place ⟨.object, "P"⟩)) =
      some true := by
    decide
  rw [hold, hnew] at hmatched
  obtain ⟨hq, hp⟩ := of_decide_eq_true (Option.some.inj hmatched)
  obtain ⟨-, diff', hbetween', hgained, hnone⟩ :=
    objects_are_told_to_gain_what_they_list_beyond_before hold hnew .verbose .stopped
  cases hbetween'.symm.trans (eq_ok_of_toOption hbetween)
  obtain ⟨htoldQ, htoldP⟩ := Prod.mk.inj htold
  have hmemQ : o "Q" ["C", "B", "C"] ∈ new.types.entries := by simp [new]
  have hmemP : o "P" ["B"] ∈ new.types.entries := by simp [new]
  refine ⟨oldGraph, newGraph, diff, hold, hnew, hbetween', htoldQ, htoldP, hq, ?_, hp, ?_, ?_⟩
  · exact (hgained _ hmemQ rfl).1 (o "Q" ["A"]) (by simp [old]) hq
  · exact (hgained _ hmemP rfl).2 hp
  · exact hnone "B" (by decide)

end SchemaDelta
