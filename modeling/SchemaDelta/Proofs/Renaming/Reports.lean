import SchemaDelta.Proofs.Analysis.Events
import SchemaDelta.Proofs.Renaming.Costs

/-!
What is reported when an element is renamed: that it was changed and what its name was, and for a
type each reference to it, whose label has changed with the name.
-/

namespace SchemaDelta

open Comparison (revisionFinding)

/-! ## Findings -/

/-- The event that something was revised. -/
def Change.revised (details : List Revision) : Subject → Change
  | .object name => .objectChanged name (details.map .revised)
  | .definition kind name => .definitionChanged kind name details
  | .part kind name owner => .partChanged kind name owner details

/-- What one revision and edges without events add up to. -/
theorem ofFindings_of_perm {details : List Revision} {subject : Subject}
    {records : List EdgeRecord} {findings : List Finding}
    (hperm : findings.Perm (revisionFinding details subject :: records.map .unclassified)) :
    (Analysis.ofFindings findings).changes = [.revised details subject] ∧
      (Analysis.ofFindings findings).unclassified.Perm records := by
  have hpicked {α : Type} (pick? : Finding → Option α)
      (hnone : ∀ record, pick? (.unclassified record) = none) :
      (findings.filterMap pick?).Perm (pick? (revisionFinding details subject)).toList := by
    have hrecords : (records.map Finding.unclassified).filterMap pick? = [] := by
      rw [List.filterMap_map]
      exact List.filterMap_eq_nil_iff.2 fun record _ => hnone record
    refine (hperm.filterMap pick?).trans (List.Perm.of_eq ?_)
    rw [List.filterMap_cons, hrecords]
    cases pick? (revisionFinding details subject) <;> rfl
  have hchanges := hpicked Finding.change? fun _ => rfl
  have hobjects := hpicked Finding.object? fun _ => rfl
  have hinterfaces := hpicked Finding.interface? fun _ => rfl
  constructor
  · unfold Analysis.ofFindings
    cases subject with
    | object name =>
      rw [hchanges.eq_nil, List.perm_singleton.1 hobjects, hinterfaces.eq_nil]
      simp [gathered, Change.revised, List.eraseDups_cons]
    | definition kind name =>
      cases kind with
      | interface =>
        rw [hchanges.eq_nil, hobjects.eq_nil, List.perm_singleton.1 hinterfaces]
        simp [gathered, Change.revised, List.eraseDups_cons]
      | _ =>
        rw [List.perm_singleton.1 hchanges, hobjects.eq_nil, hinterfaces.eq_nil]
        rfl
    | part kind name owner =>
      rw [List.perm_singleton.1 hchanges, hobjects.eq_nil, hinterfaces.eq_nil]
      rfl
  · have hnone : (revisionFinding details subject).unclassified? = none := by
      cases subject with
      | definition kind name => cases kind <;> rfl
      | _ => rfl
    have hrecords := hperm.filterMap Finding.unclassified?
    rw [List.filterMap_cons_none hnone, List.filterMap_map] at hrecords
    refine hrecords.trans (List.Perm.of_eq ?_)
    exact (filterMap_eq_map_of_eq_some fun _ _ => rfl).trans (List.map_id _)

/-- The record of an edge with another label. -/
def EdgeRecord.ofRelabelled (g : Graph) (edges : Edge × Edge) : EdgeRecord :=
  ⟨.changeEdge, edges.2.label, some edges.1.label, ((g.vertex? edges.2.one).getD default).place,
    ((g.vertex? edges.2.two).getD default).place⟩

/-- What a step comes to that changes what is renamed, or an edge. -/
def Finding.ofRename (r : Rename) (oldGraph newGraph : Graph) (subject : Subject) : Edit → Finding
  | .changeEdge source target => .unclassified (.ofRelabelled newGraph
      ((oldGraph.edge? source).getD default, (newGraph.edge? target).getD default))
  | _ => revisionFinding [.renamed r.name] subject

/-! ## References -/

/-- What is reported of an entry and the one beside it: each reference to a type that is renamed,
with its label before and after. -/
def Rename.record? (r : Rename) : Entry × Entry → Option EdgeRecord
  | (.mention source name role, .mention source' name' role') =>
    if r.isReference (.mention source name role) then
      some ⟨.changeEdge, role'.label name', some (role.label name), source', ⟨r.kind, r.newName⟩⟩
    else none
  | _ => none

theorem Graph.map_ofRelabelled {g g' : Graph} :
    (g.relabelled g').map (fun id => EdgeRecord.ofRelabelled g'
        ((g.edge? id).getD default, (g'.edge? id).getD default)) =
      (g.edges.zip g'.edges).filterMap fun edges =>
        if edges.1.label = edges.2.label then none else some (.ofRelabelled g' edges) := by
  have hzip : g.edges.zip g'.edges = (BecomesBy.sides g g').map (·.1) :=
    (List.zipIdx_map_fst 0 _).symm
  rw [hzip, List.filterMap_map, relabelled, List.map_map, ← List.filterMap_eq_map,
    List.filterMap_filter]
  refine List.filterMap_congr fun entry hentry => ?_
  obtain ⟨he, he'⟩ := List.getElem?_zip_eq_some.1 (List.mem_zipIdx_iff_getElem?.1 hentry)
  have hedges : ((g.edge? entry.2).getD default, (g'.edge? entry.2).getD default) = entry.1 := by
    rw [Draft.edge?, Draft.edge?, he, he']
    rfl
  by_cases hlabel : entry.1.1.label = entry.1.2.label
  · simp [hlabel]
  · simp [hlabel, hedges]

namespace Rename.Renames

variable {r : Rename} {old new : TypeSystem} {oldGraph newGraph : Graph} {id : Nat} {v : Vertex}
  (h : r.Renames old new)

include h

theorem isSome_record? {pair : Entry × Entry} (hpair : pair ∈ old.entries.zip new.entries) :
    (r.record? pair).isSome = r.isReference pair.1 := by
  have hmoves : r.MovesEntry pair.1 pair.2 := (List.forall₂_iff_zip.1 h.entries.moves).2 hpair
  obtain ⟨entry, entry'⟩ := pair
  cases entry with
  | element => cases hmoves; rfl
  | mention source name role =>
    obtain ⟨source', name', rfl, -⟩ := hmoves.exists_mention
    rw [record?]
    split
    · next hreference => exact hreference.symm
    · next hother => exact (Bool.eq_false_iff.2 hother).symm

theorem length_records : ((old.entries.zip new.entries).filterMap r.record?).length =
    old.entries.countP r.isReference := by
  have hentries : (old.entries.zip new.entries).map Prod.fst = old.entries :=
    List.map_fst_zip (Nat.le_of_eq h.entries.moves.length_eq)
  rw [List.length_filterMap_eq_countP]
  conv_rhs => rw [← hentries, List.countP_map]
  refine List.countP_congr fun pair hpair => ?_
  rw [h.isSome_record? hpair]
  rfl

omit h in
/-- There are no references to what is no type. -/
theorem countP_isReference (hpart : r.kind.isType = false) (entries : List Entry) :
    entries.countP r.isReference = 0 := by
  refine List.countP_eq_zero.2 fun entry _ hreference => ?_
  rw [(isReference_iff.1 hreference).1] at hpart
  cases hpart

variable (hold : Graph.ofTypeSystem old = .ok oldGraph)
  (hnew : Graph.ofTypeSystem new = .ok newGraph) (hv : oldGraph.vertex? id = some v)
  (hat : r.IsAt v)

include hold hnew hv hat

omit hnew in
/-- A type that is renamed is at another place. -/
theorem typePlace?_newName (htype : r.kind.isType = true) :
    new.typePlace? r.newName = some ⟨r.kind, r.newName⟩ := by
  have hhas := TypeSystem.has_of_vertex? hold hv
  obtain ⟨-, d, hd, hname, hkind⟩ := h.exists_type hold hhas hat htype
  have hrenamed : (d.renamed r).name = r.newName := by
    rw [h.name_renamed hold hhas hat hd, hname, typeName_name htype]
  have htype? : new.type? r.newName = some (d.renamed r) := by
    refine Catalog.find?_eq_some_iff.2 ⟨?_, hrenamed⟩
    rw [h.types]
    exact List.mem_map_of_mem hd
  have hplace : (d.renamed r).place = ⟨r.kind, r.newName⟩ := by
    rw [TypeDefinition.place, hrenamed, ← hkind, ← d.body.kind_renamed (r := r) d.place]
    rfl
  rw [TypeSystem.typePlace?, htype?, ← hplace]

omit hnew hv hat in
/-- A reference has an edge. -/
theorem isReference_eq_false {pair : Entry × Entry} (hpair : pair ∈ old.entries.zip new.entries)
    (hnone : old.link? pair.1 = none) : r.isReference pair.1 = false := by
  refine Bool.eq_false_iff.2 fun hreference => ?_
  obtain ⟨-, source, source', role, hrole, rfl⟩ := h.exists_reference_beside hpair hreference
  have hno := MentionRole.ne_directive hrole
  obtain ⟨u, -, -, -, hplace⟩ :=
    TypeSystem.exists_typePlace? hold (List.of_mem_zip hpair).1 hno
  rw [TypeSystem.link?_mention hno, hplace] at hnone
  cases hnone

omit hnew in
/-- A reference is reported with what its edge says before and after. -/
theorem record?_eq {pair : Entry × Entry} (hpair : pair ∈ old.entries.zip new.entries)
    (hreference : r.isReference pair.1 = true) {link link' : TypeSystem.Link} {e e' : Edge}
    (hlink : old.link? pair.1 = some link) (hlink' : new.link? pair.2 = some link')
    (hedge : link.edge? oldGraph.vertices = some e)
    (hedge' : link'.edge? newGraph.vertices = some e') :
    r.record? pair = some (.ofRelabelled newGraph (e, e')) := by
  obtain ⟨-, -, hlabel⟩ := TypeSystem.Link.edge?_eq_some_iff.1 hedge
  obtain ⟨hsource?, htarget?, hlabel'⟩ := TypeSystem.Link.edge?_eq_some_iff.1 hedge'
  obtain ⟨one, hone, hsource⟩ := Graph.find?_eq_some_iff.1 hsource?
  obtain ⟨two, htwo, htarget⟩ := Graph.find?_eq_some_iff.1 htarget?
  obtain ⟨htype, source, source', role, hrole, rfl⟩ := h.exists_reference_beside hpair hreference
  have hno : role.renamed r r.name ≠ .directive :=
    MentionRole.ne_directive (by rw [MentionRole.isReference_renamed, hrole])
  rw [TypeSystem.link?_mention hno, h.typePlace?_newName hold hv hat htype] at hlink'
  cases hlink'
  rw [record?, if_pos hreference, EdgeRecord.ofRelabelled, hone, htwo, hlabel, hlabel',
    (TypeSystem.eq_of_link?_mention hlink).2]
  simp only [Option.getD_some, hsource, htarget]

/-- The edges with other labels are those of the references. -/
theorem map_ofRelabelled : (oldGraph.relabelled newGraph).map (fun edge =>
      EdgeRecord.ofRelabelled newGraph
        ((oldGraph.edge? edge).getD default, (newGraph.edge? edge).getD default)) =
    (old.entries.zip new.entries).filterMap r.record? := by
  have hhas := TypeSystem.has_of_vertex? hold hv
  rw [Graph.map_ofRelabelled, TypeSystem.edges_eq hold, TypeSystem.edges_eq hnew,
    TypeSystem.links, TypeSystem.links, List.filterMap_filterMap, List.filterMap_filterMap]
  refine filterMap_zip_filterMap h.entries.moves.length_eq fun pair hpair => ?_
  have hnone (hother : r.isReference pair.1 = false) : r.record? pair = none := by
    rw [← Option.not_isSome_iff_eq_none, h.isSome_record? hpair, hother]
    exact Bool.false_ne_true
  rcases h.edge?_beside hold hnew hhas hat hpair with ⟨hlink, hlink'⟩ |
    ⟨link, link', e, e', hlink, hlink', hedge, hedge', -, -⟩
  · exact .inl ⟨by rw [hlink]; rfl, by rw [hlink']; rfl,
      hnone (h.isReference_eq_false hold hpair hlink)⟩
  · refine .inr ⟨e, e', by rw [hlink]; exact hedge, by rw [hlink']; exact hedge', ?_⟩
    have hiff := h.label_ne_iff hpair hlink hlink'
    rw [(TypeSystem.Link.edge?_eq_some_iff.1 hedge).2.2,
      (TypeSystem.Link.edge?_eq_some_iff.1 hedge').2.2]
    by_cases hreference : r.isReference pair.1 = true
    · rw [if_neg (hiff.2 hreference),
        h.record?_eq hold hv hat hpair hreference hlink hlink' hedge hedge']
    · rw [if_pos (not_not.1 (mt hiff.1 hreference)), hnone (Bool.eq_false_iff.2 hreference)]

theorem length_relabelled :
    (oldGraph.relabelled newGraph).length = old.entries.countP r.isReference := by
  rw [← h.length_records, ← h.map_ofRelabelled hold hnew hv hat, List.length_map]

/-! ## The report -/

/-- What is renamed is told with its old name. -/
theorem revisions_eq {w : Vertex} (hw : newGraph.vertex? id = some w) :
    revisions v w = [.renamed r.name] ∧ v.isBuiltIn = false ∧ w.isBuiltIn = false ∧
      w.name = r.newName := by
  have hhas := TypeSystem.has_of_vertex? hold hv
  obtain ⟨w', hw', hmoves⟩ := (h.becomesBy hold hnew hhas hat).exists_new hv
  cases hw.symm.trans hw'
  have hnamed := hmoves.eq_of_isAt hat
  have hnone : v.isBuiltIn = false := by
    rw [Bool.eq_false_iff, ne_eq, hhas.isBuiltIn_iff hold]
    rintro ⟨hkind, hbuiltIn⟩
    rw [hat.name, (h.builtIn (hat.kind ▸ hkind ▸ rfl)).1] at hbuiltIn
    cases hbuiltIn
  have hnone' : w.isBuiltIn = false := by
    rw [Bool.eq_false_iff, ne_eq, (TypeSystem.has_of_vertex? hnew hw).isBuiltIn_iff hnew, hnamed]
    rintro ⟨hkind, hbuiltIn⟩
    rw [(h.builtIn (hat.kind ▸ hkind ▸ rfl)).2] at hbuiltIn
    cases hbuiltIn
  refine ⟨?_, hnone, hnone', by rw [hnamed]⟩
  have hkeys : ((v.properties.jointKeys w.properties).filterMap fun key =>
      if v.property? key = w.property? key then none
      else some (Revision.propertyChanged ⟨key, v.property? key, w.property? key⟩)) = [] := by
    refine List.filterMap_eq_nil_iff.2 fun key _ => if_pos ?_
    rw [hnamed]
    rfl
  have hname : v.name ≠ w.name := by
    rw [hat.name, hnamed]
    exact h.ne.symm
  rw [revisions, hkeys, if_neg hname, hat.name]
  rfl

/-- What the steps are told as. -/
theorem finding_eq {config : Config} {operations : List Edit} {subject : Subject}
    (hsubject : newGraph.IsSubject id subject) {ids : List Nat} {operation : Edit}
    {finding : Finding} (hmem : operation ∈ .changeVertex id id :: ids.map fun i => .changeEdge i i)
    (htells : (config.comparison old new oldGraph newGraph).Tells operations operation finding) :
    finding = .ofRename r oldGraph newGraph subject operation := by
  rcases List.mem_cons.1 hmem with rfl | hedge
  · cases htells with
    | revised hv' hw _ _ _ hsubject' =>
      cases hv.symm.trans hv'
      rw [(h.revisions_eq hold hnew hv hat hw).1, hsubject'.eq hsubject]
      rfl
    | unrevised hv' hw hquiet =>
      cases hv.symm.trans hv'
      obtain ⟨hrevisions, hnone, hnone', -⟩ := h.revisions_eq hold hnew hv hat hw
      rw [hrevisions, hnone, hnone'] at hquiet
      rcases hquiet with hquiet | hquiet | hquiet <;> cases hquiet
  · obtain ⟨edge, -, rfl⟩ := List.mem_map.1 hedge
    cases htells with
    | changedEdge he he' hone htwo =>
      have he₂ : oldGraph.edge? edge = some _ := he
      have he₂' : newGraph.edge? edge = some _ := he'
      have hone₂ : newGraph.vertex? _ = some _ := hone
      have htwo₂ : newGraph.vertex? _ = some _ := htwo
      rw [Finding.ofRename, he₂, he₂', EdgeRecord.ofRelabelled, Option.getD_some, Option.getD_some,
        hone₂, htwo₂]
      rfl

/-- What the steps add up to does not depend on the configuration. -/
theorem analyze_eq {subject : Subject} (hsubject : newGraph.IsSubject id subject) {m : Matching}
    (hm : m.IsCorrespondence oldGraph newGraph) {ids : List Nat}
    (hperm : (m.operations oldGraph newGraph).Perm
      (.changeVertex id id :: ids.map fun i => .changeEdge i i)) (config : Config) :
    (config.comparison old new oldGraph newGraph).analyze (m.operations oldGraph newGraph) =
      .ok (.ofFindings ((m.operations oldGraph newGraph).map
        (.ofRename r oldGraph newGraph subject))) := by
  have hbuilt : (config.comparison old new oldGraph newGraph).IsBuilt := ⟨hold, hnew⟩
  obtain ⟨kept, findings, htelling, hanalyze⟩ := hbuilt.exists_isTelling hm rfl
  have htold := map_eq_of_forall₂ (f := Finding.ofRename r oldGraph newGraph subject)
    (g := fun finding => finding) htelling.tells_mem fun operation finding htells =>
      (h.finding_eq hold hnew hv hat hsubject (hperm.mem_iff.1 htells.1) htells.2).symm
  obtain rfl : _ = findings := htold.trans (List.map_id' findings)
  exact hanalyze

end Rename.Renames

/-- A renamed element is told by its old name, and nothing else is told as changed, however much is
inside it. If the search is not given up, whatever its schedule, the script changes the element, and
for a type each reference to it, with one record for each. -/
theorem a_rename_is_told_as_one_change {old new : TypeSystem} {oldGraph newGraph : Graph}
    (hold : Graph.ofTypeSystem old = .ok oldGraph) (hnew : Graph.ofTypeSystem new = .ok newGraph)
    {r : Rename} (hrename : r.Renames old new) {id : Nat} {v : Vertex}
    (hv : oldGraph.vertex? id = some v) (hat : r.IsAt v) :
    ∃ (subject : Subject) (operations : List Edit) (records : List EdgeRecord),
      newGraph.IsSubject id subject ∧ subject.name = r.newName ∧
      operations.Perm (.changeVertex id id ::
        (oldGraph.relabelled newGraph).map fun edge => .changeEdge edge edge) ∧
      (oldGraph.relabelled newGraph).length = old.entries.countP r.isReference ∧
      records.Perm ((old.entries.zip new.entries).filterMap r.record?) ∧
      (r.kind.isType = false → operations = [.changeVertex id id] ∧ records = []) ∧
      ∀ config clock,
        (config.comparison old new oldGraph newGraph).analyze operations =
          .ok ⟨[.revised [.renamed r.name] subject], records⟩ ∧
        (∀ exhausted script, Script.CanBe oldGraph newGraph config clock exhausted script →
          script.approximate = false → script.operations = operations) ∧
        ((Script.between oldGraph newGraph config clock).approximate = false →
          Delta.between old new config clock =
            .ok ⟨[.revised [.renamed r.name] subject], records, false⟩) := by
  have hbecomes := hrename.becomesBy hold hnew (TypeSystem.has_of_vertex? hold hv) hat
  obtain ⟨w, hw, -⟩ := hbecomes.exists_new hv
  have hbuilt : (Config.standard.comparison old new oldGraph newGraph).IsBuilt := ⟨hold, hnew⟩
  obtain ⟨subject, -, hsubject⟩ := hbuilt.exists_subject .new hw
  let m := Matching.ofAssignment oldGraph newGraph (Unanchored.problem oldGraph newGraph).inPlace
  have hm : m.IsCorrespondence oldGraph newGraph :=
    Matching.ofAssignment_isCorrespondence hbecomes.isFeasible_inPlace.isAssignment
  have hperm : (m.operations oldGraph newGraph).Perm _ := hbecomes.inPlace_operations_perm hv hat
  have hanalyze := hrename.analyze_eq hold hnew hv hat hsubject hm hperm
  have hlength := hrename.length_relabelled hold hnew hv hat
  have htold := hperm.map (Finding.ofRename r oldGraph newGraph subject)
  rw [List.map_cons, List.map_map] at htold
  obtain ⟨hchanges, hrecords⟩ := ofFindings_of_perm (htold.trans (.of_eq (congrArg _
    (List.map_map (g := Finding.unclassified)).symm)))
  rw [hrename.map_ofRelabelled hold hnew hv hat] at hrecords
  refine ⟨subject, m.operations oldGraph newGraph, _, hsubject, ?_, hperm, hlength, hrecords,
    fun hpart => ?_, fun config clock =>
      ⟨?_, fun exhausted script hscript hfound => ?_, fun hfound => ?_⟩⟩
  · rw [← hsubject.name_eq hw]
    exact (hrename.revisions_eq hold hnew hv hat hw).2.2.2
  · have hnone := Rename.Renames.countP_isReference hpart old.entries
    rw [hnone, List.length_eq_zero_iff] at hlength
    rw [hlength, List.map_nil] at hperm
    refine ⟨List.perm_singleton.1 hperm, List.length_eq_zero_iff.1 ?_⟩
    rw [hrecords.length_eq, hrename.length_records, hnone]
  · rw [hanalyze, ← hchanges]
  · exact congrArg Script.operations (hbecomes.eq_of_canBe hv hat hscript hfound)
  · obtain ⟨exhausted, hscript⟩ := Script.exists_canBe_between oldGraph newGraph config clock
    rw [Delta.between_eq hold hnew, hbecomes.eq_of_canBe hv hat hscript hfound, hanalyze,
      ← hchanges]
    rfl

set_option maxRecDepth 20000 in
/-- So it is for a type that is a member of a union and has a field of its own type, to which a
directive is applied twice. -/
theorem a_rename_is_told_as_one_change_of_a_type_in_its_own_field :
    let x : InputValue := ⟨"x", .named "Int", none, none, []⟩
    let y : InputValue := ⟨"y", .named "Int", none, none, []⟩
    let f (name : String) : Field := ⟨"f", .named name, [x, y], none, [⟨"d", []⟩, ⟨"d", []⟩]⟩
    let n (name : String) : TypeDefinition := ⟨name, none, [⟨"d", []⟩], .object [] [f name]⟩
    let q (list : TypeRef) : TypeDefinition :=
      ⟨"Q", none, [], .object [] [⟨"n", list, [], none, []⟩]⟩
    let u (name : String) : TypeDefinition := ⟨"U", none, [], .union [name]⟩
    let d : DirectiveDefinition := ⟨"d", [], ["OBJECT", "FIELD_DEFINITION"], true, none⟩
    let old : TypeSystem := ⟨⟨[q (.parse "[N!]"), n "N", u "N"], by decide⟩, ⟨[d], by decide⟩⟩
    let new : TypeSystem := ⟨⟨[q (.parse "[M!]"), n "M", u "M"], by decide⟩, ⟨[d], by decide⟩⟩
    let r : Rename := ⟨.object, "", "N", "M"⟩
    let place : Place := ⟨.object, "M"⟩
    ∃ oldGraph newGraph id v, Graph.ofTypeSystem old = .ok oldGraph ∧
      Graph.ofTypeSystem new = .ok newGraph ∧ r.Renames old new ∧
      oldGraph.vertex? id = some v ∧ r.IsAt v ∧
      Delta.between old new .standard .stopped = .ok
        ⟨[.objectChanged "M" [.revised (.renamed "N")]],
        [⟨.changeEdge, "type=M", some "type=N", ⟨.field, "M.f"⟩, place⟩,
          ⟨.changeEdge, "type=[M!]", some "type=[N!]", ⟨.field, "Q.n"⟩, place⟩], false⟩ ∧
      ∃ operations : List Edit, operations.length = 3 ∧ ∀ exhausted script,
        Script.CanBe oldGraph newGraph .standard .stopped exhausted script →
          script.approximate = false → script.operations = operations := by
  intro x y f n q u d old new r place
  have hrename : r.Renames old new :=
    { types := by decide
      directives := by decide
      kind := by decide
      name := by decide
      newName := by decide
      ne := by decide
      builtIn := by decide
      written := fun _ => by decide }
  obtain ⟨oldGraph, hold⟩ := exists_eq_ok
    (show (Graph.ofTypeSystem old).toOption.isSome = true by decide)
  obtain ⟨newGraph, hnew⟩ := exists_eq_ok
    (show (Graph.ofTypeSystem new).toOption.isSome = true by decide)
  have hv : oldGraph.vertex? 1 = some ⟨.object, "N", "N", .empty⟩ := by
    rw [Draft.vertex?, TypeSystem.vertices_eq hold]
    decide
  have hat : r.IsAt ⟨.object, "N", "N", .empty⟩ := ⟨rfl, rfl, rfl⟩
  obtain ⟨subject, operations, records, -, -, hperm, hlength, -, -, hall⟩ :=
    a_rename_is_told_as_one_change hold hnew hrename hv hat
  have hreferences : old.entries.countP r.isReference = 2 := by decide
  refine ⟨oldGraph, newGraph, 1, _, hold, hnew, hrename, hv, hat, eq_ok_of_toOption ?_, operations,
    ?_, (hall .standard .stopped).2.1⟩
  · decide
  · rw [hperm.length_eq, List.length_cons, List.length_map, hlength, hreferences]

end SchemaDelta
