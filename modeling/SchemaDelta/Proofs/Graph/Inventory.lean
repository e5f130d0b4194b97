import Mathlib.Data.Multiset.Bind
import SchemaDelta.Proofs.Edit.Common
import SchemaDelta.Proofs.Graph.References
import SchemaDelta.Proofs.Graph.Types
import SchemaDelta.Proofs.Sums

/-!
What a type system holds, kind by kind: its fields, arguments and so on, each with the place of what
it is inside, and which of them is related to which definition. The outline of a type system, which
goes through it in the order of reading, has just these elements and relations.
-/

namespace SchemaDelta

/-! ## Contents of types -/

/-- The interfaces that a type lists. -/
def TypeBody.interfaces : TypeBody → List String
  | object interfaces _ | interface interfaces _ => interfaces
  | _ => []

/-- The members that a union lists. -/
def TypeBody.members : TypeBody → List String
  | union members => members
  | _ => []

/-- The values of an enum. -/
def TypeBody.values : TypeBody → List EnumValue
  | enum values => values
  | _ => []

/-- Applied directives, each with the number of those before it that have its name. -/
def numbered (directives : List AppliedDirective) : List (Nat × AppliedDirective) :=
  directives.zipIdx.map fun (d, i) =>
    (((directives.take i).map AppliedDirective.name).count d.name, d)

namespace TypeSystem

/-! ## Elements by their kinds -/

/-- The fields, each with the place of its type. -/
def fields (ts : TypeSystem) : List (Place × Field) :=
  ts.types.entries.flatMap fun d => d.body.fields.map fun f => (d.place, f)

/-- The input fields, each with the place of its type. -/
def inputFields (ts : TypeSystem) : List (Place × InputValue) :=
  ts.types.entries.flatMap fun d => d.body.inputFields.map fun a => (d.place, a)

/-- The enum values, each with the place of its enum. -/
def enumValues (ts : TypeSystem) : List (Place × EnumValue) :=
  ts.types.entries.flatMap fun d => d.body.values.map fun value => (d.place, value)

/-- The arguments, each with the place of its field or directive. -/
def arguments (ts : TypeSystem) : List (Place × InputValue) :=
  (ts.fields.flatMap fun (owner, f) => f.arguments.map fun a => ((f.vertex owner).place, a)) ++
    ts.directives.entries.flatMap fun d => d.arguments.map fun a => (directivePlace d.name, a)

/-- What directives can be applied to, with those that are applied to it. -/
def applied (ts : TypeSystem) : List (Place × List AppliedDirective) :=
  (ts.types.entries.map fun d => (d.place, d.directives)) ++
  (ts.fields.map fun (owner, f) => ((f.vertex owner).place, f.directives)) ++
  (ts.inputFields.map fun (owner, a) => ((a.vertex owner .inputField).place, a.directives)) ++
  (ts.arguments.map fun (owner, a) => ((a.vertex owner .argument).place, a.directives)) ++
  (ts.enumValues.map fun (owner, value) => ((value.vertex owner).place, value.directives))

/-- The applied directives, each with the place of what it is applied to and with the number of
those before it there that have its name. -/
def applications (ts : TypeSystem) : List (Place × Nat × AppliedDirective) :=
  ts.applied.flatMap fun (owner, directives) =>
    (numbered directives).map fun (number, d) => (owner, number, d)

/-- What has a type, with its type. -/
def typed (ts : TypeSystem) : List (Place × TypeRef) :=
  (ts.fields.map fun (owner, f) => ((f.vertex owner).place, f.type)) ++
  (ts.inputFields.map fun (owner, a) => ((a.vertex owner .inputField).place, a.type)) ++
  (ts.arguments.map fun (owner, a) => ((a.vertex owner .argument).place, a.type))

/-- The built-in scalars that something refers to and nothing defines. -/
def impliedScalars (ts : TypeSystem) : List String :=
  builtInScalars.filter fun name =>
    (ts.references.map Reference.name).contains name && !ts.types.names.contains name

/-- The vertices of a type system, kind by kind. -/
def inventory (ts : TypeSystem) : List Vertex :=
  ts.types.entries.map TypeDefinition.vertex ++
  ts.directives.entries.map DirectiveDefinition.vertex ++
  (ts.fields.map fun (owner, f) => f.vertex owner) ++
  (ts.inputFields.map fun (owner, a) => a.vertex owner .inputField) ++
  (ts.arguments.map fun (owner, a) => a.vertex owner .argument) ++
  (ts.enumValues.map fun (owner, value) => value.vertex owner) ++
  (ts.applications.map fun (owner, number, d) => d.vertex owner number) ++
  ts.impliedScalars.map builtInScalarVertex

/-! ## Relations by their kinds -/

/-- The place of the type of a name, which is a scalar if it is not defined. -/
def namedPlace (ts : TypeSystem) (name : String) : Place :=
  ⟨((ts.type? name).map fun d => d.body.kind).getD .scalar, name⟩

/-- The relations of a type system, kind by kind. -/
def relations (ts : TypeSystem) : List Link :=
  (ts.types.entries.flatMap fun d => d.body.interfaces.map fun name =>
    ⟨d.place, ⟨.interface, name⟩, Label.implementing name⟩) ++
  (ts.types.entries.flatMap fun d => d.body.members.map fun name =>
    ⟨d.place, ⟨.object, name⟩, Label.member⟩) ++
  (ts.fields.map fun (owner, f) => ⟨owner, (f.vertex owner).place, Label.field⟩) ++
  (ts.inputFields.map fun (owner, a) =>
    ⟨owner, (a.vertex owner .inputField).place, Label.inputField⟩) ++
  (ts.arguments.map fun (owner, a) =>
    ⟨owner, (a.vertex owner .argument).place, Label.argument⟩) ++
  (ts.enumValues.map fun (owner, value) =>
    ⟨owner, (value.vertex owner).place, Label.enumValue⟩) ++
  (ts.applications.map fun (owner, number, d) =>
    ⟨owner, (d.vertex owner number).place, Label.appliedDirective⟩) ++
  (ts.typed.map fun (place, type) =>
    ⟨place, ts.namedPlace type.name, Label.typeOf type.rendered⟩) ++
  (ts.applications.filterMap fun (owner, number, d) => (ts.directive? d.name).map fun _ =>
    ⟨(d.vertex owner number).place, directivePlace d.name, Label.directive⟩)

/-! ## The outline by kinds -/

/-- The entries of a type system, kind by kind. -/
def entriesByKind (ts : TypeSystem) : List Entry :=
  (ts.types.entries.flatMap fun d => d.body.interfaces.map fun name =>
    Entry.mention d.place name .interface) ++
  (ts.types.entries.flatMap fun d => d.body.members.map fun name =>
    Entry.mention d.place name .member) ++
  (ts.fields.map fun (owner, f) => Entry.element owner Label.field (f.vertex owner)) ++
  (ts.inputFields.map fun (owner, a) =>
    Entry.element owner Label.inputField (a.vertex owner .inputField)) ++
  (ts.arguments.map fun (owner, a) => Entry.element owner Label.argument (a.vertex owner .argument)) ++
  (ts.enumValues.map fun (owner, value) =>
    Entry.element owner Label.enumValue (value.vertex owner)) ++
  (ts.applications.map fun (owner, number, d) =>
    Entry.element owner Label.appliedDirective (d.vertex owner number)) ++
  (ts.typed.map fun (place, type) => Entry.mention place type.name (.typeOf type.rendered)) ++
  (ts.applications.map fun (owner, number, d) =>
    Entry.mention (d.vertex owner number).place d.name .directive)

end TypeSystem

/-- Directives after others count those of their name before them and among themselves. -/
theorem applicationEntries_eq (owner : Place) (before : List String)
    (directives : List AppliedDirective) :
    applicationEntries owner before directives = directives.zipIdx.flatMap fun (d, i) =>
      let number := before.count d.name + ((directives.take i).map AppliedDirective.name).count d.name
      [.element owner Label.appliedDirective (d.vertex owner number)] ++
        [.mention (d.vertex owner number).place d.name .directive] := by
  induction directives generalizing before with
  | nil => rfl
  | cons d directives ih =>
    rw [applicationEntries, ih, List.zipIdx_cons', List.flatMap_cons, List.flatMap_map]
    simp [List.count_cons, Nat.add_assoc, Nat.add_comm]

theorem applicationEntries_nil (owner : Place) (directives : List AppliedDirective) :
    applicationEntries owner [] directives = (numbered directives).flatMap fun (number, d) =>
      [.element owner Label.appliedDirective (d.vertex owner number)] ++
        [.mention (d.vertex owner number).place d.name .directive] := by
  rw [applicationEntries_eq, numbered, List.flatMap_map]
  simp only [List.count_nil, Nat.zero_add]

theorem InputValue.entries_eq (owner : Place) (kind : ElementKind) (label : String) :
    InputValue.entries owner kind label = fun a =>
      [.element owner label (a.vertex owner kind)] ++
        ([.mention (a.vertex owner kind).place a.type.name (.typeOf a.type.rendered)] ++
          applicationEntries (a.vertex owner kind).place [] a.directives) :=
  rfl

theorem Field.entries_eq (owner : Place) : Field.entries owner = fun f =>
    [.element owner Label.field (f.vertex owner)] ++
      ([.mention (f.vertex owner).place f.type.name (.typeOf f.type.rendered)] ++
        (f.arguments.flatMap
            (InputValue.entries (f.vertex owner).place .argument Label.argument) ++
          applicationEntries (f.vertex owner).place [] f.directives)) :=
  rfl

theorem EnumValue.entries_eq (owner : Place) : EnumValue.entries owner = fun value =>
    [.element owner Label.enumValue (value.vertex owner)] ++
      applicationEntries (value.vertex owner).place [] value.directives :=
  rfl

/-- The contents of a type, of which it has only what is of its kind. -/
theorem TypeBody.entries_eq (owner : Place) (body : TypeBody) : body.entries owner =
    (body.interfaces.map fun name => .mention owner name .interface) ++
      (body.members.map fun name => .mention owner name .member) ++
      body.fields.flatMap (Field.entries owner) ++
      body.inputFields.flatMap (InputValue.entries owner .inputField Label.inputField) ++
      body.values.flatMap (EnumValue.entries owner) := by
  cases body <;> simp [entries, interfaces, members, fields, inputFields, values]

theorem TypeDefinition.entries_eq : TypeDefinition.entries = fun d =>
    applicationEntries d.place [] d.directives ++ d.body.entries d.place :=
  rfl

theorem DirectiveDefinition.entries_eq : DirectiveDefinition.entries = fun d =>
    d.arguments.flatMap (InputValue.entries (directivePlace d.name) .argument Label.argument) :=
  rfl

namespace TypeSystem

/-- The order of reading apart, a type system has the entries that are listed kind by kind. -/
theorem entries_perm (ts : TypeSystem) : ts.entries.Perm ts.entriesByKind := by
  rw [← Multiset.coe_eq_coe]
  -- both are sums of the same single entries over the types and directives and what is in them
  simp only [entries, entriesByKind, applications, applied, typed, arguments, fields, inputFields,
    enumValues, TypeDefinition.entries_eq, DirectiveDefinition.entries_eq, TypeBody.entries_eq,
    Field.entries_eq, InputValue.entries_eq, EnumValue.entries_eq, applicationEntries_nil,
    List.map_eq_flatMap, List.flatMap_append, List.flatMap_assoc, List.flatMap_cons,
    List.flatMap_nil, List.append_nil]
  simp only [← Multiset.coe_add, ← Multiset.coe_bind, Multiset.bind_add]
  ac_rfl

/-! ## Vertices -/

variable {ts : TypeSystem} {g : Graph}

theorem filterMap_mentionedType? (ts : TypeSystem) :
    ts.entries.filterMap mentionedType? = ts.references.map Reference.name := by
  rw [← filterMap_reference?, List.map_filterMap]
  refine List.filterMap_congr fun entry _ => ?_
  cases entry with
  | element => rfl
  | mention source name role => cases role <;> rfl

theorem mem_impliedScalars_iff {name : String} : name ∈ ts.impliedScalars ↔
    isBuiltIn name = true ∧ name ∈ ts.references.map Reference.name ∧
      (!ts.types.names.contains name) = true := by
  unfold impliedScalars isBuiltIn
  rw [List.mem_filter, Bool.and_eq_true, List.contains_iff_mem, List.contains_iff_mem]

/-- What is mentioned and not known are built-in scalars, each of which counts once. -/
theorem unknownTypes_perm_impliedScalars (hfault : ts.firstFault? = none) :
    (unknownTypes ts.types.names ts.entries).Perm ts.impliedScalars := by
  have hdistinct : ts.impliedScalars.Nodup :=
    (show builtInScalars.Nodup by decide).filter _
  refine (List.perm_ext_iff_of_nodup (nodup_eraseDups _) hdistinct).2 fun name => ?_
  rw [List.mem_eraseDups, List.mem_filter, mem_impliedScalars_iff, ← filterMap_mentionedType?]
  refine ⟨fun ⟨hmentioned, hunknown⟩ => ⟨?_, hmentioned, hunknown⟩, fun ⟨_, hboth⟩ => hboth⟩
  obtain ⟨entry, hmem, hname⟩ := List.mem_filterMap.1 hmentioned
  obtain ⟨source, role, hrole, rfl⟩ := mentionedType?_eq_some_iff.1 hname
  refine isBuiltIn_of_fault?_eq_none hrole ?_ (List.findSome?_eq_none_iff.1 hfault _ hmem)
  exact Catalog.find?_eq_none_iff.2 (by simpa using hunknown)

/-- If no reference is at fault, there is one vertex for each element. -/
theorem vertices_perm_inventory (hfault : ts.firstFault? = none) :
    ts.vertices.Perm ts.inventory := by
  have hparts : (ts.entries.filterMap Entry.vertex?).Perm (
      (ts.fields.map fun (owner, f) => f.vertex owner) ++
      (ts.inputFields.map fun (owner, a) => a.vertex owner .inputField) ++
      (ts.arguments.map fun (owner, a) => a.vertex owner .argument) ++
      (ts.enumValues.map fun (owner, value) => value.vertex owner) ++
      (ts.applications.map fun (owner, number, d) => d.vertex owner number)) := by
    have hnone (ds : List TypeDefinition) : ds.flatMap (fun _ => ([] : List Vertex)) = [] :=
      List.flatMap_eq_nil_iff.2 fun _ _ => rfl
    refine (ts.entries_perm.filterMap _).trans (.of_eq ?_)
    simp [entriesByKind, Entry.vertex?, List.filterMap_flatMap, Function.comp_def, hnone]
  rw [vertices, definitionVertices, inventory]
  refine (List.Perm.append_left _ ((entryVertices_perm _ _).trans
    (hparts.append ((unknownTypes_perm_impliedScalars hfault).map _)))).trans (.of_eq ?_)
  simp only [List.append_assoc]

theorem vertices_perm (h : Graph.ofTypeSystem ts = .ok g) : g.vertices.Perm ts.inventory := by
  rw [vertices_eq h]
  exact vertices_perm_inventory (Graph.ofTypeSystem_eq_ok_iff.1 h).1

/-! ## Edges -/

/-- The relation that an entry states if nothing is wrong with it. -/
def statedLink? (ts : TypeSystem) : Entry → Option Link
  | .element owner label v => some ⟨owner, v.place, label⟩
  | .mention source name (.typeOf rendered) =>
    some ⟨source, ts.namedPlace name, Label.typeOf rendered⟩
  | .mention source name .interface =>
    some ⟨source, ⟨.interface, name⟩, Label.implementing name⟩
  | .mention source name .member => some ⟨source, ⟨.object, name⟩, Label.member⟩
  | .mention source name .directive =>
    (ts.directive? name).map fun _ => ⟨source, directivePlace name, Label.directive⟩

section Built

variable (h : Graph.ofTypeSystem ts = .ok g)

include h

theorem typePlace?_eq {source : Place} {name : String} {role : MentionRole}
    (hmem : .mention source name role ∈ ts.entries) (hrole : role ≠ .directive) :
    ts.typePlace? name = some (ts.namedPlace name) := by
  unfold typePlace? namedPlace
  cases htype : ts.type? name with
  | some d =>
    obtain ⟨-, rfl⟩ := Catalog.find?_eq_some_iff.1 htype
    rfl
  | none => exact if_pos (isBuiltIn_of_mention h hmem hrole htype)

/-- Interfaces and members are of the kinds that their roles ask for. -/
theorem namedPlace_eq {source : Place} {name : String} {role : MentionRole} {kind : ElementKind}
    {fault : GraphError} (hmem : .mention source name role ∈ ts.entries) (hrole : role ≠ .directive)
    (hwanted : ts.fault? (.mention source name role) =
      ts.mentionFault? source name (some (kind, fault))) : ts.namedPlace name = ⟨kind, name⟩ := by
  have hfault := fault?_eq_none h hmem
  rw [hwanted, mentionFault?, typePlace?_eq h hmem hrole] at hfault
  have hkind : (ts.namedPlace name).kind = kind := by simpa using hfault
  rw [← hkind]
  rfl

theorem link?_eq_statedLink? {entry : Entry} (hmem : entry ∈ ts.entries) :
    ts.link? entry = ts.statedLink? entry := by
  cases entry with
  | element owner label v => rfl
  | mention source name role =>
    cases role with
    | directive => rfl
    | typeOf rendered =>
      rw [link?_mention MentionRole.noConfusion, typePlace?_eq h hmem MentionRole.noConfusion]
      rfl
    | interface =>
      rw [link?_mention MentionRole.noConfusion, typePlace?_eq h hmem MentionRole.noConfusion,
        namedPlace_eq h hmem MentionRole.noConfusion rfl]
      rfl
    | member =>
      rw [link?_mention MentionRole.noConfusion, typePlace?_eq h hmem MentionRole.noConfusion,
        namedPlace_eq h hmem MentionRole.noConfusion rfl]
      rfl

/-- There is one edge for each relation. -/
theorem placedEdges_perm : g.placedEdges.Perm (ts.relations.map Link.placed) := by
  rw [placedEdges_eq h, links, List.filterMap_congr fun _ => link?_eq_statedLink? h]
  refine ((ts.entries_perm.filterMap _).trans (.of_eq ?_)).map _
  simp [entriesByKind, relations, statedLink?, List.filterMap_flatMap, Function.comp_def]

end Built

end TypeSystem

end SchemaDelta
