import SchemaDelta.Proofs.Analysis.Definitions
import SchemaDelta.Proofs.Edit.Exchange
import SchemaDelta.Proofs.Graph.Types

/-!
Changes of type. An element that has another type now than before is at one end of a record, or its
old or its new type has an event, unless both types are built-in scalars that come and go and the
search is given up.
-/

namespace SchemaDelta

/-- Whether a report shows that the type of an element is another now: by a record of an edge at the
element, or by an event of its old or its new type. -/
def Delta.ShowsType (diff : Delta) (place : Place) (oldType newType : String) : Prop :=
  (∃ record ∈ diff.unclassified, record.one = place ∨ record.two = place) ∨
    ∃ event ∈ diff.changes, event.subject.element.isType = true ∧
      (event.subject.name = oldType ∨ event.subject.name = newType)

theorem Analysis.mem_unclassified {findings : List Finding} {finding : Finding}
    {record : EdgeRecord} (hmem : finding ∈ findings)
    (hrecord : finding.unclassified? = some record) : record ∈ (ofFindings findings).unclassified :=
  List.mem_filterMap.2 ⟨finding, hmem, hrecord⟩

namespace Comparison.IsTelling

variable {c : Comparison} {m kept : Matching} {operations : List Edit} {findings : List Finding}
  {place : Place} {source target edge : Nat} {v w type : Vertex} {e : Edge}

theorem isDefinition_of_isType {kind : ElementKind} (h : kind.isType = true) :
    kind.isDefinition = true :=
  ElementKind.isDefinition_iff.2 (Or.inl h)

variable (h : c.IsTelling m kept operations findings)

include h

/-- The removal of a type is told if it is not a built-in scalar. -/
theorem exists_removed_type {id : Nat} (hdeleted : .deleteVertex id ∈ operations)
    (htype : c.oldGraph.vertex? id = some type) (hkind : type.kind.isType = true)
    (hbuiltIn : type.isBuiltIn = false) :
    ∃ subject, .removed subject ∈ (Analysis.ofFindings findings).changes ∧
      subject.element = type.kind ∧ subject.name = type.name := by
  obtain ⟨subject, -, hsubject⟩ := h.built.exists_subject .old htype
  have helement := hsubject.kind_eq htype
  refine ⟨subject, ?_, helement.symm, (hsubject.name_eq htype).symm⟩
  exact (h.removed_mem_iff (helement ▸ isDefinition_of_isType hkind)
    ((hsubject.isBuiltIn_eq h.built.old htype).trans hbuiltIn)).2 ⟨id, hdeleted, hsubject⟩

/-- The addition of a type is told if it is not a built-in scalar. -/
theorem exists_added_type {id : Nat} (hinserted : .insertVertex id ∈ operations)
    (htype : c.newGraph.vertex? id = some type) (hkind : type.kind.isType = true)
    (hbuiltIn : type.isBuiltIn = false) :
    ∃ subject, .added subject ∈ (Analysis.ofFindings findings).changes ∧
      subject.element = type.kind ∧ subject.name = type.name := by
  obtain ⟨subject, -, hsubject⟩ := h.built.exists_subject .new htype
  have helement := hsubject.kind_eq htype
  refine ⟨subject, ?_, helement.symm, (hsubject.name_eq htype).symm⟩
  exact (h.added_mem_iff (helement ▸ isDefinition_of_isType hkind)
    ((hsubject.isBuiltIn_eq h.built.new htype).trans hbuiltIn)).2 ⟨id, hinserted, hsubject⟩

/-- An old edge from a matched element to its type is in a record, is covered by the removal of the
type, or is kept. -/
theorem exists_record_of_oldEdge (hpair : (source, target) ∈ m.pairs)
    (hv : c.oldGraph.vertex? source = some v) (hw : c.newGraph.vertex? target = some w)
    (hplace : v.place = place) (hplace' : w.place = place)
    (he : c.oldGraph.edge? edge = some e) (hone : e.one = source)
    (htype : c.oldGraph.vertex? e.two = some type) (hkind : type.kind.isType = true) :
    (∃ record ∈ (Analysis.ofFindings findings).unclassified, record.one = place) ∨
      (∃ subject, .removed subject ∈ (Analysis.ofFindings findings).changes ∧
        subject.element = type.kind ∧ subject.name = type.name) ∨
      (type.isBuiltIn = true ∧ .deleteVertex e.two ∈ operations) ∨
      ∃ e' ∈ c.newGraph.edges, e'.one = target ∧ e'.label = e.label := by
  have hlt : edge < c.oldGraph.edges.length := (List.getElem?_eq_some_iff.1 he).1
  -- the script deletes the edge, changes it or keeps it
  rcases h.account.oldEdges edge hlt with ⟨hdeleted, -⟩ | ⟨-, ⟨new, hchanged⟩, -⟩ |
    ⟨-, -, new, hkept⟩
  · obtain ⟨finding, hfinding, htells⟩ := h.exists_finding hdeleted
    cases htells with
    | deletedEdge he' hone' htwo' hends =>
      cases he.symm.trans he'
      rw [hone, hv] at hone'
      cases hone'
      exact Or.inl ⟨_, Analysis.mem_unclassified hfinding rfl, hplace⟩
    | coveredEdgeDeletion he' hends =>
      cases he.symm.trans he'
      rw [comesOrGoes_old, comesOrGoes_old, hone] at hends
      rcases hends with hends | hends
      · -- the element itself is matched
        exact absurd hpair (((h.account.deleteVertex_mem_iff source).1 hends).2 target)
      · cases hbuiltIn : type.isBuiltIn with
        | true => exact Or.inr (Or.inr (Or.inl ⟨rfl, hends⟩))
        | false => exact Or.inr (Or.inl (h.exists_removed_type hends htype hkind hbuiltIn))
  · obtain ⟨finding, hfinding, htells⟩ := h.exists_finding hchanged
    obtain ⟨x, y, hx, hy, hends, -⟩ := h.account.changeEdge_related edge new hchanged
    cases he.symm.trans hx
    rw [hone] at hends
    have htarget := h.correspondence.isOneToOne.eq_target hends hpair
    cases htells with
    | changedEdge hx' hy' hone' htwo' =>
      cases hy.symm.trans hy'
      rw [htarget, hw] at hone'
      cases hone'
      exact Or.inl ⟨_, Analysis.mem_unclassified hfinding rfl, hplace'⟩
  · obtain ⟨x, y, hx, hy, hends, -, hlabel⟩ := h.account.kept_related edge new hkept
    cases he.symm.trans hx
    rw [hone] at hends
    exact Or.inr (Or.inr (Or.inr ⟨y, List.mem_of_getElem? hy,
      h.correspondence.isOneToOne.eq_target hends hpair, hlabel.symm⟩))

/-- A new edge from a matched element to its type is in a record, is covered by the addition of the
type, or is kept. -/
theorem exists_record_of_newEdge (hpair : (source, target) ∈ m.pairs)
    (hw : c.newGraph.vertex? target = some w) (hplace : w.place = place)
    (he : c.newGraph.edge? edge = some e) (hone : e.one = target)
    (hlabel : Label.isImplements e.label = false)
    (htype : c.newGraph.vertex? e.two = some type) (hkind : type.kind.isType = true) :
    (∃ record ∈ (Analysis.ofFindings findings).unclassified, record.one = place) ∨
      (∃ subject, .added subject ∈ (Analysis.ofFindings findings).changes ∧
        subject.element = type.kind ∧ subject.name = type.name) ∨
      (type.isBuiltIn = true ∧ .insertVertex e.two ∈ operations) ∨
      ∃ e' ∈ c.oldGraph.edges, e'.one = source ∧ e'.label = e.label := by
  have hlt : edge < c.newGraph.edges.length := (List.getElem?_eq_some_iff.1 he).1
  rcases h.account.newEdges edge hlt with ⟨hinserted, -⟩ | ⟨-, ⟨old, hchanged⟩, -⟩ |
    ⟨-, -, old, hkept⟩
  · obtain ⟨finding, hfinding, htells⟩ := h.exists_finding hinserted
    cases htells with
    | gainedInterface he' hlabel' =>
      cases he.symm.trans he'
      rw [hlabel] at hlabel'
      cases hlabel'
    | insertedEdge he' hone' htwo' hends =>
      cases he.symm.trans he'
      rw [hone, hw] at hone'
      cases hone'
      exact Or.inl ⟨_, Analysis.mem_unclassified hfinding rfl, hplace⟩
    | coveredEdgeInsertion he' hends =>
      cases he.symm.trans he'
      rw [comesOrGoes_new, comesOrGoes_new, hone] at hends
      rcases hends with hends | hends
      · exact absurd hpair (((h.account.insertVertex_mem_iff target).1 hends).2 source)
      · cases hbuiltIn : type.isBuiltIn with
        | true => exact Or.inr (Or.inr (Or.inl ⟨rfl, hends⟩))
        | false => exact Or.inr (Or.inl (h.exists_added_type hends htype hkind hbuiltIn))
  · obtain ⟨finding, hfinding, htells⟩ := h.exists_finding hchanged
    obtain ⟨x, y, hx, hy, -⟩ := h.account.changeEdge_related old edge hchanged
    cases he.symm.trans hy
    cases htells with
    | changedEdge hx' hy' hone' htwo' =>
      cases hy.symm.trans hy'
      rw [hone, hw] at hone'
      cases hone'
      exact Or.inl ⟨_, Analysis.mem_unclassified hfinding rfl, hplace⟩
  · obtain ⟨x, y, hx, hy, hends, -, hlabel⟩ := h.account.kept_related old edge hkept
    cases he.symm.trans hy
    rw [hone] at hends
    exact Or.inr (Or.inr (Or.inr ⟨x, List.mem_of_getElem? hx,
      h.correspondence.isOneToOne.eq_source hends hpair, hlabel⟩))

/-- A change of type is shown, or both types are built-in scalars of which the old one goes and the
new one comes. -/
theorem showsType_or_comeAndGo {oldType newType : TypeRef} {approximate : Bool}
    (hold : c.oldSystem.IsTyped place oldType) (hnew : c.newSystem.IsTyped place newType)
    (hne : oldType.rendered ≠ newType.rendered) :
    Delta.ShowsType ⟨(Analysis.ofFindings findings).changes,
      (Analysis.ofFindings findings).unclassified, approximate⟩ place oldType.name newType.name ∨
    ∃ source target, .deleteVertex source ∈ operations ∧ .insertVertex target ∈ operations ∧
      c.oldGraph.IsSubject source (.definition .scalar oldType.name) ∧
      c.newGraph.IsSubject target (.definition .scalar newType.name) ∧
      isBuiltIn oldType.name = true ∧ isBuiltIn newType.name = true := by
  obtain ⟨source, v, hv, hplace⟩ := hold.exists_vertex? h.built.old
  obtain ⟨target, w, hw, hplace'⟩ := hnew.exists_vertex? h.built.new
  have hpair := h.correspondence.places hv hw (hplace.trans hplace'.symm)
  obtain ⟨oldEdge, e, t, he, hone, hlabel, ht, hkind, hname⟩ :=
    hold.exists_edge h.built.old hv hplace
  obtain ⟨newEdge, e', t', he', hone', hlabel', ht', hkind', hname'⟩ :=
    hnew.exists_edge h.built.new hw hplace'
  have himplements : Label.isImplements e'.label = false := by
    rw [hlabel']
    exact Label.isImplements_typeOf _
  rcases h.exists_record_of_oldEdge hpair hv hw hplace hplace' he hone ht hkind with
    ⟨record, hrecord, hend⟩ | ⟨subject, hremoved, helement, hsubject⟩ | ⟨hbuiltIn, hdeleted⟩ |
    ⟨kept, hkept, hkeptOne, hkeptLabel⟩
  · exact Or.inl (Or.inl ⟨record, hrecord, Or.inl hend⟩)
  · exact Or.inl (Or.inr ⟨_, hremoved, helement ▸ hkind, Or.inl (hsubject.trans hname)⟩)
  · rcases h.exists_record_of_newEdge hpair hw hplace' he' hone' himplements ht' hkind' with
      ⟨record, hrecord, hend⟩ | ⟨subject, hadded, helement, hsubject⟩ | ⟨hbuiltIn', hinserted⟩ |
      ⟨kept, hkept, hkeptOne, hkeptLabel⟩
    · exact Or.inl (Or.inl ⟨record, hrecord, Or.inl hend⟩)
    · exact Or.inl (Or.inr ⟨_, hadded, helement ▸ hkind', Or.inr (hsubject.trans hname')⟩)
    · rw [(TypeSystem.has_of_vertex? h.built.old ht).isBuiltIn_iff h.built.old, hname] at hbuiltIn
      rw [(TypeSystem.has_of_vertex? h.built.new ht').isBuiltIn_iff h.built.new, hname'] at hbuiltIn'
      exact Or.inr ⟨_, _, hdeleted, hinserted, .of_definition ht hbuiltIn.1 hname rfl,
        .of_definition ht' hbuiltIn'.1 hname' rfl, hbuiltIn.2, hbuiltIn'.2⟩
    · exact absurd (hold.eq_of_edge h.built.old hv hplace hkept hkeptOne
        (hkeptLabel.trans hlabel')) hne
  · -- an edge that is kept has the label of the old type
    exact absurd (hnew.eq_of_edge h.built.new hw hplace' hkept hkeptOne
      (hkeptLabel.trans hlabel)).symm hne

end Comparison.IsTelling

/-- Whatever the search may do, a change of type is shown, unless the search is given up and both
types are built-in scalars of which the old one is not in the new graph and the new one not in the
old graph. -/
theorem changes_of_type_are_shown_unless_built_in_scalars_trade_places {old new : TypeSystem}
    {oldGraph newGraph : Graph} (hold : Graph.ofTypeSystem old = .ok oldGraph)
    (hnew : Graph.ofTypeSystem new = .ok newGraph) (config : Config) (clock : Clock) :
    ∃ diff, Delta.between old new config clock = .ok diff ∧
      ∀ place oldType newType, old.IsTyped place oldType → new.IsTyped place newType →
        oldType.rendered ≠ newType.rendered →
          diff.ShowsType place oldType.name newType.name ∨
            (diff.approximate = true ∧
              isBuiltIn oldType.name = true ∧ isBuiltIn newType.name = true ∧
              (∃ source, IsOnlyIn oldGraph newGraph (.definition .scalar oldType.name) source) ∧
              ∃ target, IsOnlyIn newGraph oldGraph (.definition .scalar newType.name) target) := by
  obtain ⟨m, kept, findings, htelling, hdiff⟩ := Delta.exists_between hold hnew config clock
  refine ⟨_, hdiff, fun place oldType newType holdTyped hnewTyped hne => ?_⟩
  rcases htelling.showsType_or_comeAndGo holdTyped hnewTyped hne with hshown |
    ⟨source, target, hdeleted, hinserted, hsource, htarget, hbuiltIn, hbuiltIn'⟩
  · exact Or.inl hshown
  · obtain ⟨v, hv, -⟩ := hsource.exists_vertex?
    obtain ⟨w, hw, -⟩ := htarget.exists_vertex?
    -- a search that is carried out would have matched the two
    have hkind : v.kind = .scalar := hsource.kind_eq hv
    have hkind' : w.kind = .scalar := htarget.kind_eq hw
    have happroximate := Script.approximate_of_deleted_and_inserted hv hw (hkind.trans hkind'.symm)
      (TypeSystem.owner?_eq_none hold hv (by rw [hkind]; rfl))
      (TypeSystem.owner?_eq_none hnew hw (by rw [hkind']; rfl)) hdeleted hinserted
    exact Or.inr ⟨happroximate, hbuiltIn, hbuiltIn',
      ⟨source, htelling.isOnlyIn_of_deleted hdeleted hv hsource⟩,
      ⟨target, htelling.isOnlyIn_of_inserted hinserted hw htarget⟩⟩

/-- The configuration of a search that may take no branch. -/
def Config.unsearched : Config :=
  { Config.standard with budget := ⟨0, none⟩ }

/-- The field of an object that has no other. -/
theorem TypeSystem.isTyped_of_only_field {ts : TypeSystem} {type : TypeRef}
    (hmem : ⟨"Q", none, [], .object [] [⟨"a", type, [], none, []⟩]⟩ ∈ ts.types.entries) :
    ts.IsTyped ⟨.field, "Q.a"⟩ type := by
  have hpath : innerPath ⟨.object, "Q"⟩ "a" = "Q.a" := by decide
  rw [← hpath]
  exact .field (f := ⟨"a", type, [], none, []⟩) hmem (List.mem_singleton_self _)

/-- Two documents with a field each, of one built-in scalar and of another. -/
theorem TypeSystem.ofDocument_integer_or_string_field :
    TypeSystem.ofDocument "type Q { a: Int }" =
      ⟨⟨[⟨"Q", none, [], .object [] [⟨"a", .named "Int", [], none, []⟩]⟩], by decide⟩, .empty⟩ ∧
    TypeSystem.ofDocument "type Q { a: String }" =
      ⟨⟨[⟨"Q", none, [], .object [] [⟨"a", .named "String", [], none, []⟩]⟩], by decide⟩,
        .empty⟩ := by
  decide +kernel

set_option maxRecDepth 20000 in
/-- The type of a field changes from one built-in scalar to another, and nothing is told. -/
theorem a_change_between_built_in_scalars_is_not_shown :
    let old : TypeSystem := .ofDocument "type Q { a: Int }"
    let new : TypeSystem := .ofDocument "type Q { a: String }"
    (Graph.ofTypeSystem old).toOption.isSome = true ∧
      (Graph.ofTypeSystem new).toOption.isSome = true ∧
      old.IsTyped ⟨.field, "Q.a"⟩ (.named "Int") ∧ new.IsTyped ⟨.field, "Q.a"⟩ (.named "String") ∧
      (TypeRef.named "Int").rendered ≠ (TypeRef.named "String").rendered ∧
      ∃ diff, Delta.between old new .unsearched .stopped = .ok diff ∧
        ¬ diff.ShowsType ⟨.field, "Q.a"⟩ "Int" "String" := by
  rw [TypeSystem.ofDocument_integer_or_string_field.1,
    TypeSystem.ofDocument_integer_or_string_field.2]
  intro old new
  have hdiff : (Delta.between old new .unsearched .stopped).toOption = some ⟨[], [], true⟩ := by
    decide
  obtain ⟨oldGraph, newGraph, hold, hnew⟩ := Delta.exists_graphs_of_between hdiff
  rw [hold, hnew]
  refine ⟨rfl, rfl, TypeSystem.isTyped_of_only_field (List.mem_singleton_self _),
    TypeSystem.isTyped_of_only_field (List.mem_singleton_self _), by decide, _,
    eq_ok_of_toOption hdiff, ?_⟩
  simp [Delta.ShowsType]

set_option maxRecDepth 20000 in
/-- There the old type goes and the new one comes. -/
theorem built_in_scalars_trade_places :
    let old : TypeSystem := .ofDocument "type Q { a: Int }"
    let new : TypeSystem := .ofDocument "type Q { a: String }"
    ∃ oldGraph newGraph source target, Graph.ofTypeSystem old = .ok oldGraph ∧
      Graph.ofTypeSystem new = .ok newGraph ∧
      IsOnlyIn oldGraph newGraph (.definition .scalar "Int") source ∧
      IsOnlyIn newGraph oldGraph (.definition .scalar "String") target := by
  rw [TypeSystem.ofDocument_integer_or_string_field.1,
    TypeSystem.ofDocument_integer_or_string_field.2]
  intro old new
  have hdiff : (Delta.between old new .unsearched .stopped).toOption = some ⟨[], [], true⟩ := by
    decide
  obtain ⟨oldGraph, newGraph, hold, hnew⟩ := Delta.exists_graphs_of_between hdiff
  obtain ⟨diff, hbetween, hshown⟩ :=
    changes_of_type_are_shown_unless_built_in_scalars_trade_places hold hnew .unsearched .stopped
  cases hbetween.symm.trans (eq_ok_of_toOption hdiff)
  have holdTyped : old.IsTyped ⟨.field, "Q.a"⟩ (.named "Int") :=
    TypeSystem.isTyped_of_only_field (List.mem_singleton_self _)
  have hnewTyped : new.IsTyped ⟨.field, "Q.a"⟩ (.named "String") :=
    TypeSystem.isTyped_of_only_field (List.mem_singleton_self _)
  rcases hshown _ _ _ holdTyped hnewTyped (by decide) with
    hshown | ⟨-, -, -, ⟨source, hsource⟩, target, htarget⟩
  · simp [Delta.ShowsType] at hshown
  · exact ⟨oldGraph, newGraph, source, target, hold, hnew, hsource, htarget⟩

end SchemaDelta
