import SchemaDelta.Proofs.Analysis.Definitions
import SchemaDelta.Proofs.Analysis.Nesting
import SchemaDelta.Proofs.Edit.Owners

/-!
What is inside elements that come or go, where it is asked for. It comes or goes too, unless it or
something around it is at a place of the other side; and an object that comes is told to gain its
interfaces.
-/

namespace SchemaDelta

/-! ## Elements inside what comes or goes -/

namespace Graph

/-- Whether neither an element inside another nor anything between the two is at a place of a second
graph. -/
def IsOutsideOf (g other : Graph) (root id : Nat) : Prop :=
  ∀ inner ∈ id :: g.allAncestors id, root ∈ g.allAncestors inner →
    ∀ v, g.vertex? inner = some v → v.place ∉ other.places

/-- Whether subjects tell of different vertices among those that come or go, in their order, and
with each of these of what is inside it, except for what is at a place of another graph or inside
that. -/
def AreToldInside (g other : Graph) (touched : List Nat) (subjects : List Subject) : Prop :=
  ∃ told : List Nat, told.Nodup ∧ told.Sublist touched ∧ List.Forall₂ g.IsSubject told subjects ∧
    ∀ root ∈ told, ∀ id, root ∈ g.allAncestors id →
      (g.IsOutsideOf other root id → id ∈ told) ∧
      ∀ v, g.vertex? id = some v → v.place ∈ other.places → id ∉ told

end Graph

namespace Comparison

variable {c : Comparison} {m kept : Matching} {operations : List Edit} {findings : List Finding}
  {id owner root : Nat} {v : Vertex}

namespace IsTelling

variable (h : c.IsTelling m kept operations findings)

include h

/-- What is at a place of the other side neither comes nor goes. -/
theorem not_touched_of_place (side : Side) (hv : (c.graph side).vertex? id = some v)
    (hplace : v.place ∈ (c.graph side.other).places) : comesOrGoes operations side id = false := by
  obtain ⟨w, hw, heq⟩ := List.mem_map.1 hplace
  obtain ⟨there, hthere⟩ := List.mem_iff_getElem?.1 hw
  rw [← Bool.not_eq_true]
  cases side with
  | old =>
    rw [comesOrGoes_old, h.account.deleteVertex_mem_iff]
    exact fun hdeleted => hdeleted.2 there (h.correspondence.places hv hthere heq.symm)
  | new =>
    rw [comesOrGoes_new, h.account.insertVertex_mem_iff]
    exact fun hinserted => hinserted.2 there (h.correspondence.places hthere hv heq)

/-- A part of what comes or goes does so too unless it is at a place of the other side. -/
theorem touched_of_owner (hkeeps : m.KeepsOwners c.oldGraph c.newGraph) (side : Side)
    (howner : (c.graph side).owner? id = some owner)
    (htouched : comesOrGoes operations side owner = true)
    (hv : (c.graph side).vertex? id = some v) (hplace : v.place ∉ (c.graph side.other).places) :
    comesOrGoes operations side id = true := by
  have hlt : id < (c.graph side).vertices.length := Graph.lt_of_vertex? hv
  cases side with
  | old =>
    rw [comesOrGoes_old, h.account.deleteVertex_mem_iff] at htouched ⊢
    refine ⟨hlt, fun target hpair => ?_⟩
    have hanchor : (id, target) ∉ (Matching.anchors c.oldGraph c.newGraph).pairs := by
      intro hanchor
      obtain ⟨v', w, hv', hw, heq⟩ := Matching.mem_anchors.1 hanchor
      cases hv.symm.trans hv'
      exact hplace (List.mem_map.2 ⟨w, List.mem_of_getElem? hw, heq.symm⟩)
    -- what is matched and no anchor is matched along with its owner
    rcases hkeeps id target hpair hanchor with ⟨hnone, -⟩ | ⟨owner', target', howner', -, howners⟩
    · cases howner.symm.trans hnone
    · cases howner.symm.trans howner'
      exact htouched.2 target' howners
  | new =>
    rw [comesOrGoes_new, h.account.insertVertex_mem_iff] at htouched ⊢
    refine ⟨hlt, fun source hpair => ?_⟩
    have hanchor : (source, id) ∉ (Matching.anchors c.oldGraph c.newGraph).pairs := by
      intro hanchor
      obtain ⟨w, v', hw, hv', heq⟩ := Matching.mem_anchors.1 hanchor
      cases hv.symm.trans hv'
      exact hplace (List.mem_map.2 ⟨w, List.mem_of_getElem? hw, heq⟩)
    rcases hkeeps source id hpair hanchor with ⟨-, hnone⟩ | ⟨source', owner', -, howner', howners⟩
    · cases howner.symm.trans hnone
    · cases howner.symm.trans howner'
      exact htouched.2 source' howners

/-- What is inside something that comes or goes does so too, unless it or something in between is at
a place of the other side. -/
theorem touched_of_isOutsideOf (hkeeps : m.KeepsOwners c.oldGraph c.newGraph) (side : Side)
    (htouched : comesOrGoes operations side root = true)
    (hinside : root ∈ (c.graph side).allAncestors id)
    (houtside : (c.graph side).IsOutsideOf (c.graph side.other) root id) :
    comesOrGoes operations side id = true := by
  have hbuilt := h.built.ofTypeSystem_eq side
  induction id using TypeSystem.owner_induction hbuilt with
  | definition id howner =>
    rw [Graph.allAncestors_eq_nil howner] at hinside
    cases hinside
  | part id owner howner ih =>
    obtain ⟨v, w, label, hv, -⟩ := TypeSystem.exists_owns_of_owner? hbuilt howner
    refine h.touched_of_owner hkeeps side howner ?_ hv
      (houtside id List.mem_cons_self hinside v hv)
    rcases (TypeSystem.mem_allAncestors_iff hbuilt howner).1 hinside with rfl | hinside
    · exact htouched
    · refine ih hinside fun inner hinner => houtside inner (List.mem_cons_of_mem _ ?_)
      rwa [TypeSystem.allAncestors_eq_cons hbuilt howner]

theorem areToldInside (hkeeps : m.KeepsOwners c.oldGraph c.newGraph) (side : Side)
    (hnested : c.reportsNested side = true) :
    (c.graph side).AreToldInside (c.graph side.other) (Edit.touched operations side)
      ((Analysis.ofFindings findings).changes.filterMap (Change.at? side)) := by
  refine ⟨c.told operations side, (nodup_at? h.account.uses_nodup side).filter _,
    List.filter_sublist, h.forall₂_told side, fun root hroot id hinside => ⟨fun houtside => ?_, ?_⟩⟩
  · have hbuilt := h.built.ofTypeSystem_eq side
    obtain ⟨v, w, hv, hw, hlt⟩ := TypeSystem.exists_rank_lt_of_mem_ancestors hbuilt hinside
    have htouched := ((mem_told_iff side hw).1 hroot).1
    -- a scalar is inside nothing
    have hbuiltIn : v.isBuiltIn = false := by
      rw [← Bool.not_eq_true, (TypeSystem.has_of_vertex? hbuilt hv).isBuiltIn_iff hbuilt]
      rintro ⟨hkind, -⟩
      have hdefinition : v.kind.isDefinition = true := by
        rw [hkind]
        rfl
      rw [Graph.allAncestors_eq_nil (TypeSystem.owner?_eq_none hbuilt hv hdefinition)] at hinside
      cases hinside
    refine (mem_told_iff side hv).2
      ⟨h.touched_of_isOutsideOf hkeeps side htouched hinside houtside, hbuiltIn, ?_⟩
    rw [isCovered, hnested]
    rfl
  · intro v hv hplace htold
    have htouched := ((mem_told_iff side hv).1 htold).1
    rw [h.not_touched_of_place side hv hplace] at htouched
    cases htouched

end IsTelling

/-! ## Interfaces of objects that come -/

/-- Details stay with their name when they are put together. -/
theorem exists_mem_gathered {δ : Type} {entries : List (String × List δ)} {name : String}
    {details : List δ} {detail : δ} (hmem : (name, details) ∈ entries)
    (hdetail : detail ∈ details) : ∃ all, (name, all) ∈ gathered entries ∧ detail ∈ all := by
  refine ⟨_, List.mem_map.2 ⟨name, List.mem_eraseDups.2 (List.mem_map.2 ⟨_, hmem, rfl⟩), rfl⟩, ?_⟩
  exact List.mem_flatMap.2 ⟨_, List.mem_filter.2 ⟨hmem, beq_self_eq_true name⟩, hdetail⟩

/-- What a step comes to for an object is told of that object. -/
theorem exists_objectChanged {analysis : Analysis} (hanalyze : c.analyze operations = .ok analysis)
    {operation : Edit} (hmem : operation ∈ operations) {name : String} {details : List ObjectDetail}
    (hfinding : c.finding operations operation = .ok (.object name details))
    {detail : ObjectDetail} (hdetail : detail ∈ details) :
    ∃ all, .objectChanged name all ∈ analysis.changes ∧ detail ∈ all := by
  unfold analyze at hanalyze
  cases hfindings : operations.mapM (c.finding operations) with
  | error e =>
    rw [hfindings] at hanalyze
    cases hanalyze
  | ok findings =>
    rw [hfindings] at hanalyze
    cases hanalyze
    have hentry : (name, details) ∈ findings.filterMap Finding.object? :=
      List.mem_filterMap.2 ⟨_, mem_of_mapM_eq_ok hfindings hmem hfinding, rfl⟩
    obtain ⟨all, hall, hdetail⟩ := exists_mem_gathered hentry hdetail
    exact ⟨all, List.mem_append_left _ (List.mem_append_right _ (List.mem_map.2 ⟨_, hall, rfl⟩)),
      hdetail⟩

end Comparison

namespace TypeSystem

variable {ts : TypeSystem} {g : Graph} (h : Graph.ofTypeSystem ts = .ok g)

include h

/-- What an object implements is an interface at the other end of an edge from the object. -/
theorem exists_edge?_of_interface {d : TypeDefinition} {interfaces : List String}
    {fields : List Field} (hd : d ∈ ts.types.entries) (hbody : d.body = .object interfaces fields)
    {interface : String} (hmem : interface ∈ interfaces) : ∃ target e w,
      g.edge? target = some e ∧ Label.isImplements e.label = true ∧
        g.vertex? e.one = some d.vertex ∧ g.vertex? e.two = some w ∧ w.kind = .interface ∧
          w.name = interface := by
  have hentry : .mention d.place interface .interface ∈ ts.entries := by
    refine mem_entries_iff.2 (Or.inl ⟨d, hd, List.mem_append_right _ ?_⟩)
    generalize d.place = place
    rw [hbody]
    exact List.mem_append_left _ (List.mem_map.2 ⟨interface, hmem, rfl⟩)
  have hrole : MentionRole.interface ≠ .directive := by decide
  obtain ⟨w, hw, -, hname, hplace⟩ := exists_typePlace? h hentry hrole
  have hlink : ts.link? (.mention d.place interface .interface) = _ := link?_mention hrole
  rw [hplace, Option.map_some] at hlink
  obtain ⟨e, he⟩ := exists_edge? h hentry hlink
  obtain ⟨hone, htwo, hlabel⟩ := Link.edge?_eq_some_iff.1 he
  obtain ⟨v', hv', hvplace⟩ := Graph.find?_eq_some_iff.1 hone
  obtain ⟨w', hw', hwplace⟩ := Graph.find?_eq_some_iff.1 htwo
  obtain rfl := Has.eq_of_place h (has_of_vertex? h hv') (.type hd) hvplace
  obtain rfl := Has.eq_of_place h (has_of_vertex? h hw') hw hwplace
  have hedge : e ∈ g.edges := (mem_edges_iff h).2 ⟨_, hentry, _, hlink, he⟩
  have himplements : Label.isImplements e.label = true := by
    rw [hlabel]
    exact Label.isImplements_implementing interface
  obtain ⟨target, htarget⟩ := List.mem_iff_getElem?.1 hedge
  exact ⟨target, e, _, htarget, himplements, hv', hw',
    kind_of_isImplements h hedge himplements hw', hname⟩

end TypeSystem

namespace Comparison

variable {c : Comparison} {m kept : Matching} {operations : List Edit} {findings : List Finding}

/-- An edge to an interface is told of its object, unless that is new itself and what is inside is not
asked for. -/
theorem insertedEdgeFinding_eq_of_reported {operations : List Edit} {target id : Nat} {e : Edge}
    {one two object interface : Vertex} (he : c.newGraph.edge? target = some e)
    (hlabel : Label.isImplements e.label = true) (hone : c.newGraph.vertex? e.one = some one)
    (htwo : c.newGraph.vertex? e.two = some two)
    (hends : objectAndInterface? e one two = some (id, object, interface))
    (hreported : c.additions = true ∨ comesOrGoes operations .new id = false) :
    c.insertedEdgeFinding operations target =
      .ok (.object object.name [.addedInterface interface.name]) := by
  rw [insertedEdgeFinding_eq_of_object he hone htwo hlabel hends, if_neg]
  rcases hreported with h | h <;> simp [h]

/-- An object that is told as added is told to gain each of its interfaces. -/
theorem IsTelling.exists_addedInterface (h : c.IsTelling m kept operations findings)
    (hanalyze : c.analyze operations = .ok (.ofFindings findings)) (hadditions : c.additions = true)
    {d : TypeDefinition} {interfaces : List String} {fields : List Field}
    (hd : d ∈ c.newSystem.types.entries) (hbody : d.body = .object interfaces fields)
    (hadded : .added (.object d.name) ∈ (Analysis.ofFindings findings).changes)
    {interface : String} (hmem : interface ∈ interfaces) : ∃ details,
      .objectChanged d.name details ∈ (Analysis.ofFindings findings).changes ∧
        .addedInterface interface ∈ details := by
  obtain ⟨id, hinserted, hid⟩ := (h.added_mem_iff rfl rfl).1 hadded
  obtain ⟨target, e, w, he, hlabel, hone, htwo, hkind, rfl⟩ :=
    TypeSystem.exists_edge?_of_interface h.built.new hd hbody hmem
  have hobject : d.vertex.kind = .object := by
    rw [TypeDefinition.kind_vertex, hbody]
    rfl
  -- the edge leads from the object, so it comes with it
  have hsame : id = e.one := hid.id_eq_of_definition (.object hone hobject) h.built.new rfl
  have hedge := h.account.insertEdge_mem target e he (Or.inl (hsame ▸ hinserted))
  have hends : objectAndInterface? e d.vertex w = some (e.one, d.vertex, w) := by
    rw [objectAndInterface?, hobject, hkind]
  exact exists_objectChanged hanalyze hedge
    (insertedEdgeFinding_eq_of_reported he hlabel hone htwo hends (Or.inl hadditions))
    (List.mem_singleton_self _)

end Comparison

/-! ## Reports -/

/-- Where what is inside definitions is asked for, everything inside an element that is told to come
or go is told too, whatever the search may do, unless it or something in between is at its place on
the other side as well; an element that is at its place there is never told. An object that is told
as added is told to gain all its interfaces. -/
theorem interiors_are_told_unless_they_stay_in_place {old new : TypeSystem}
    {oldGraph newGraph : Graph} (hold : Graph.ofTypeSystem old = .ok oldGraph)
    (hnew : Graph.ofTypeSystem new = .ok newGraph) (config : Config) (clock : Clock) :
    ∃ diff, Delta.between old new config clock = .ok diff ∧
      (config.additions = true →
        newGraph.AreToldInside oldGraph
          (Edit.touched (Script.between oldGraph newGraph config clock).operations .new)
          (diff.changes.filterMap Change.added?) ∧
        ∀ d ∈ new.types.entries, ∀ interfaces fields, d.body = .object interfaces fields →
          .added (.object d.name) ∈ diff.changes → ∀ interface ∈ interfaces, ∃ details,
            .objectChanged d.name details ∈ diff.changes ∧ .addedInterface interface ∈ details) ∧
      (config.removals = true → oldGraph.AreToldInside newGraph
        (Edit.touched (Script.between oldGraph newGraph config clock).operations .old)
        (diff.changes.filterMap Change.removed?)) := by
  obtain ⟨m, hm, hkeeps, hoperations⟩ := Script.exists_keepsOwners hold newGraph config clock
  have hbuilt : (config.comparison old new oldGraph newGraph).IsBuilt := ⟨hold, hnew⟩
  obtain ⟨kept, findings, htelling, hanalyze⟩ := hbuilt.exists_isTelling hm hoperations
  have hdiff := Delta.between_eq hold hnew config clock
  rw [hanalyze] at hdiff
  refine ⟨_, hdiff, fun hadditions => ⟨?_, ?_⟩,
    fun hremovals => htelling.areToldInside hkeeps .old hremovals⟩
  · exact htelling.areToldInside hkeeps .new hadditions
  · intro d hd interfaces fields hbody hadded interface hmem
    exact htelling.exists_addedInterface hanalyze hadditions hd hbody hadded hmem

/-- The options with which everything is reported. -/
def Config.verbose : Config :=
  { Config.standard with additions := true, removals := true }

set_option maxRecDepth 20000 in
/-- So it is where an object comes with an interface, a field and an argument. -/
theorem interiors_are_told_of_a_new_object :
    let i (arguments : List InputValue) : Field := ⟨"i", .named "ID", arguments, none, []⟩
    let n : TypeDefinition := ⟨"N", none, [], .interface [] [i []]⟩
    let p : TypeDefinition :=
      ⟨"P", none, [], .object ["N"] [i [⟨"x", .named "ID", none, none, []⟩]]⟩
    let old : TypeSystem := ⟨⟨[n], by decide⟩, ⟨[], by decide⟩⟩
    let new : TypeSystem := ⟨⟨[n, p], by decide⟩, ⟨[], by decide⟩⟩
    ∃ oldGraph newGraph diff, Graph.ofTypeSystem old = .ok oldGraph ∧
      Graph.ofTypeSystem new = .ok newGraph ∧
      Delta.between old new .verbose .stopped = .ok diff ∧
      diff.changes.filterMap Change.added? =
        [.object "P", .part .field "i" "P", .part .argument "x" "P.i"] ∧
      newGraph.AreToldInside oldGraph
        (Edit.touched (Script.between oldGraph newGraph .verbose .stopped).operations .new)
        (diff.changes.filterMap Change.added?) ∧
      ∃ details, .objectChanged "P" details ∈ diff.changes ∧ .addedInterface "N" ∈ details := by
  intro i n p old new
  have hdiff : (Delta.between old new .verbose .stopped).toOption = some
      ⟨[.added (.object "P"), .added (.part .field "i" "P"), .added (.part .argument "x" "P.i"),
        .objectChanged "P" [.addedInterface "N"]], [], false⟩ := by
    decide
  obtain ⟨oldGraph, newGraph, hold, hnew⟩ := Delta.exists_graphs_of_between hdiff
  obtain ⟨diff, hbetween, hadditions, -⟩ :=
    interiors_are_told_unless_they_stay_in_place hold hnew .verbose .stopped
  cases hbetween.symm.trans (eq_ok_of_toOption hdiff)
  obtain ⟨htold, -⟩ := hadditions rfl
  exact ⟨oldGraph, newGraph, _, hold, hnew, hbetween, rfl, htold, [.addedInterface "N"], by simp,
    by simp⟩

theorem exists_vertex?_of_map {g : Graph} {shape : List (ElementKind × String)}
    (h : (g.vertices.map fun v => (v.kind, v.name)) = shape) (id : Nat) {kind : ElementKind}
    {name : String} (hid : shape[id]? = some (kind, name)) :
    ∃ v, g.vertex? id = some v ∧ v.kind = kind ∧ v.name = name := by
  rw [← h, List.getElem?_map] at hid
  obtain ⟨v, hv, heq⟩ := Option.map_eq_some_iff.1 hid
  exact ⟨v, hv, (Prod.ext_iff.1 heq).1, (Prod.ext_iff.1 heq).2⟩

/-- Where the first vertex is a definition and owns the second, which is a field, events tell of
them as such. -/
theorem isSubject_of_map {g : Graph} {subject : Subject} {rest : List (ElementKind × String)}
    {name : String} (hdefinition : subject.element.isDefinition = true)
    (h : (g.vertices.map fun v => (v.kind, v.name)) =
      (subject.element, subject.name) :: (.field, name) :: rest) (howner : g.owner? 1 = some 0) :
    g.IsSubject 0 subject ∧ g.IsSubject 1 (.part .field name subject.name) := by
  obtain ⟨w, hw, hkind, hname⟩ := exists_vertex?_of_map h 0 rfl
  obtain ⟨v, hv, hkind', rfl⟩ := exists_vertex?_of_map h 1 rfl
  refine ⟨.of_definition hw hkind hname hdefinition, ?_⟩
  rw [← hname]
  exact .part hv hkind' howner hw

set_option maxRecDepth 20000 in
/-- An interface that comes in the place of an object has the field that the object had, which is
told neither with the interface nor with the object. -/
theorem a_field_is_not_told_with_an_interface_that_replaces_an_object :
    let a : Field := ⟨"a", .named "Int", [], none, []⟩
    let old : TypeSystem := ⟨⟨[⟨"Q", none, [], .object [] [a]⟩], by decide⟩, ⟨[], by decide⟩⟩
    let new : TypeSystem := ⟨⟨[⟨"Q", none, [], .interface [] [a]⟩], by decide⟩, ⟨[], by decide⟩⟩
    ∃ oldGraph newGraph diff, Graph.ofTypeSystem old = .ok oldGraph ∧
      Graph.ofTypeSystem new = .ok newGraph ∧
      Delta.between old new .verbose .stopped = .ok diff ∧
      (newGraph.IsSubject 0 (.definition .interface "Q") ∧
        newGraph.IsSubject 1 (.part .field "a" "Q")) ∧ 0 ∈ newGraph.allAncestors 1 ∧
      .added (.definition .interface "Q") ∈ diff.changes ∧
      .added (.part .field "a" "Q") ∉ diff.changes ∧
      (oldGraph.IsSubject 0 (.object "Q") ∧ oldGraph.IsSubject 1 (.part .field "a" "Q")) ∧
      0 ∈ oldGraph.allAncestors 1 ∧ .removed (.object "Q") ∈ diff.changes ∧
      .removed (.part .field "a" "Q") ∉ diff.changes := by
  intro a old new
  have hdiff : (Delta.between old new .verbose .stopped).toOption = some
      ⟨[.removed (.object "Q"), .added (.definition .interface "Q")], [], false⟩ := by
    decide
  have holdShape : ((Graph.ofTypeSystem old).toOption.map fun g =>
        (g.owner? 1, g.allAncestors 1, g.vertices.map fun v => (v.kind, v.name))) =
      some (some 0, [0], [(.object, "Q"), (.field, "a"), (.scalar, "Int")]) := by
    decide
  have hnewShape : ((Graph.ofTypeSystem new).toOption.map fun g =>
        (g.owner? 1, g.allAncestors 1, g.vertices.map fun v => (v.kind, v.name))) =
      some (some 0, [0], [(.interface, "Q"), (.field, "a"), (.scalar, "Int")]) := by
    decide
  obtain ⟨oldGraph, hold, heq⟩ := Option.map_eq_some_iff.1 holdShape
  obtain ⟨newGraph, hnew, heq'⟩ := Option.map_eq_some_iff.1 hnewShape
  simp only [Prod.ext_iff] at heq heq'
  obtain ⟨howner, haround, hshape⟩ := heq
  obtain ⟨howner', haround', hshape'⟩ := heq'
  refine ⟨oldGraph, newGraph, _, eq_ok_of_toOption hold, eq_ok_of_toOption hnew,
    eq_ok_of_toOption hdiff, isSubject_of_map (by rfl) hshape' howner', ?_, by simp, by simp,
    isSubject_of_map (by rfl) hshape howner, ?_, by simp, by simp⟩
  · rw [haround']
    exact List.mem_singleton_self 0
  · rw [haround]
    exact List.mem_singleton_self 0

end SchemaDelta
