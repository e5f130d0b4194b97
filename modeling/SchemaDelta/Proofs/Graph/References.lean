import SchemaDelta.Proofs.Graph.Builder

/-!
When a type system has a graph, and which error it has otherwise. What can be wrong is one of its
references to types, which are listed here as a schema is read, or two elements at one place; the
first reference that is wrong is the error before anything else.
-/

namespace SchemaDelta

/-! ## References -/

/-- What a type is referred to as. -/
inductive ReferenceUse where
  /-- The type of a field, input field or argument. -/
  | type
  | interface
  | member
  deriving DecidableEq

/-- A type that is referred to by name. -/
structure Reference where
  /-- The path of the element that refers to the type. -/
  location : String
  name : String
  use : ReferenceUse

/-- The type of an argument or input field. -/
def InputValue.reference (path : String) (v : InputValue) : Reference :=
  ⟨path ++ "." ++ v.name, v.type.name, .type⟩

/-- The type of a field, then those of its arguments. -/
def Field.references (path : String) (f : Field) : List Reference :=
  ⟨path ++ "." ++ f.name, f.type.name, .type⟩ ::
    f.arguments.map (InputValue.reference (path ++ "." ++ f.name))

/-- The interfaces or members of a type, then what its fields refer to. -/
def TypeBody.references (path : String) : TypeBody → List Reference
  | object interfaces fields | interface interfaces fields =>
    (interfaces.map fun name => ⟨path, name, .interface⟩) ++
      fields.flatMap (Field.references path)
  | union members => members.map fun name => ⟨path, name, .member⟩
  | inputObject fields => fields.map (InputValue.reference path)
  | enum _ | scalar => []

namespace TypeSystem

variable {ts : TypeSystem}

/-- What the types refer to, then what the directives do. -/
def references (ts : TypeSystem) : List Reference :=
  ts.types.entries.flatMap (fun d => d.body.references d.name) ++
    ts.directives.entries.flatMap fun d => d.arguments.map (InputValue.reference ("@" ++ d.name))

/-- Whether a name is that of a type that is defined or built in. -/
def Knows (ts : TypeSystem) (name : String) : Prop :=
  (∃ d, ts.type? name = some d) ∨ isBuiltIn name = true

/-- Whether a name is that of a type of a certain kind that is defined. -/
def Defines (ts : TypeSystem) (kind : ElementKind) (name : String) : Prop :=
  ∃ d, ts.type? name = some d ∧ d.body.kind = kind

end TypeSystem

/-- What is wrong with a reference. -/
@[mk_iff]
inductive Reference.Offends (ts : TypeSystem) (r : Reference) : GraphError → Prop where
  | dangling (h : ¬ ts.Knows r.name) : Offends ts r (.danglingTypeReference r.location r.name)
  | notAnInterface (huse : r.use = .interface) (hknown : ts.Knows r.name)
    (h : ¬ ts.Defines .interface r.name) : Offends ts r (.notAnInterface r.location r.name)
  | notAnObject (huse : r.use = .member) (hknown : ts.Knows r.name)
    (h : ¬ ts.Defines .object r.name) : Offends ts r (.invalidUnionMember r.location r.name)

/-- Whether all references are to types that are there and of the kind that is asked for, and all
elements of one kind have paths of their own. -/
structure TypeSystem.IsConsistent (ts : TypeSystem) : Prop where
  known : ∀ r ∈ ts.references, ts.Knows r.name
  interfaces : ∀ r ∈ ts.references, r.use = .interface → ts.Defines .interface r.name
  members : ∀ r ∈ ts.references, r.use = .member → ts.Defines .object r.name
  distinct : (ts.vertices.map Vertex.place).Nodup

/-- Whether none of some references offends. -/
def TypeSystem.IsSound (ts : TypeSystem) (references : List Reference) : Prop :=
  ∀ r ∈ references, ∀ fault, ¬ r.Offends ts fault

/-- Whether an error is that of the first reference that offends. -/
def TypeSystem.IsFirstOffence (ts : TypeSystem) (error : GraphError) : Prop :=
  ∃ before r after, ts.references = before ++ r :: after ∧ ts.IsSound before ∧ r.Offends ts error

/-- Whether an error is that of the first vertex at a place that an earlier one has. -/
def IsFirstDuplicate (vertices : List Vertex) (error : GraphError) : Prop :=
  ∃ before v after, vertices = before ++ v :: after ∧ (before.map Vertex.place).Nodup ∧
    v.place ∈ before.map Vertex.place ∧ error = .duplicateElement v.place

/-! ## References among the entries -/

/-- The reference that an entry is. -/
def Entry.reference? : Entry → Option Reference
  | .mention source name (.typeOf _) => some ⟨source.path, name, .type⟩
  | .mention source name .interface => some ⟨source.path, name, .interface⟩
  | .mention source name .member => some ⟨source.path, name, .member⟩
  | _ => none

theorem filterMap_applicationEntries (owner : Place) (before : List String)
    (directives : List AppliedDirective) :
    (applicationEntries owner before directives).filterMap Entry.reference? = [] := by
  induction directives generalizing before with
  | nil => rfl
  | cons d ds ih => exact ih (d.name :: before)

theorem filterMap_mentions {owner : Place} {role : MentionRole} {use : ReferenceUse}
    (h : ∀ name, Entry.reference? (.mention owner name role) = some ⟨owner.path, name, use⟩)
    (names : List String) :
    (names.map fun name => Entry.mention owner name role).filterMap Entry.reference? =
      names.map fun name => ⟨owner.path, name, use⟩ := by
  rw [List.filterMap_map, ← List.filterMap_eq_map]
  exact List.filterMap_congr fun name _ => h name

theorem InputValue.filterMap_entries (owner : Place) (kind : ElementKind) (label : String)
    (v : InputValue) :
    (v.entries owner kind label).filterMap Entry.reference? = [v.reference owner.path] := by
  unfold entries
  simp only [List.filterMap_cons, Entry.reference?, filterMap_applicationEntries]
  rfl

theorem filterMap_inputValues (owner : Place) (kind : ElementKind) (label : String)
    (values : List InputValue) :
    (values.flatMap (InputValue.entries owner kind label)).filterMap Entry.reference? =
      values.map (InputValue.reference owner.path) := by
  rw [List.filterMap_flatMap, List.map_eq_flatMap]
  simp only [InputValue.filterMap_entries]

theorem Field.filterMap_entries (owner : Place) (f : Field) :
    (f.entries owner).filterMap Entry.reference? = f.references owner.path := by
  unfold entries
  simp only [List.filterMap_cons, Entry.reference?, List.filterMap_append, filterMap_inputValues,
    filterMap_applicationEntries, List.append_nil]
  rfl

theorem filterMap_fields (owner : Place) (interfaces : List String) (fields : List Field) :
    ((interfaces.map fun name => Entry.mention owner name .interface) ++
      fields.flatMap (Field.entries owner)).filterMap Entry.reference? =
      (interfaces.map fun name => ⟨owner.path, name, .interface⟩) ++
        fields.flatMap (Field.references owner.path) := by
  have hinterfaces :
      (interfaces.map fun name => Entry.mention owner name .interface).filterMap Entry.reference? =
        interfaces.map fun name => ⟨owner.path, name, .interface⟩ :=
    filterMap_mentions (fun _ => rfl) interfaces
  rw [List.filterMap_append, hinterfaces, List.filterMap_flatMap]
  simp only [Field.filterMap_entries]

theorem EnumValue.filterMap_entries (owner : Place) (v : EnumValue) :
    (v.entries owner).filterMap Entry.reference? = [] := by
  unfold entries
  rw [List.filterMap_cons_none rfl, filterMap_applicationEntries]

theorem TypeBody.filterMap_entries (owner : Place) (body : TypeBody) :
    (body.entries owner).filterMap Entry.reference? = body.references owner.path := by
  cases body with
  | object interfaces fields => exact filterMap_fields owner interfaces fields
  | interface interfaces fields => exact filterMap_fields owner interfaces fields
  | union members => exact filterMap_mentions (fun _ => rfl) members
  | inputObject fields => exact filterMap_inputValues owner .inputField Label.inputField fields
  | enum values => simp [entries, references, List.filterMap_flatMap, EnumValue.filterMap_entries]
  | scalar => rfl

namespace TypeSystem

variable {ts : TypeSystem}

/-- The references are entries, in their order. -/
theorem filterMap_reference? (ts : TypeSystem) :
    ts.entries.filterMap Entry.reference? = ts.references := by
  have htype (d : TypeDefinition) :
      d.entries.filterMap Entry.reference? = d.body.references d.name := by
    rw [TypeDefinition.entries, List.filterMap_append, filterMap_applicationEntries,
      TypeBody.filterMap_entries]
    rfl
  have hdirective (d : DirectiveDefinition) : d.entries.filterMap Entry.reference? =
      d.arguments.map (InputValue.reference ("@" ++ d.name)) :=
    filterMap_inputValues (directivePlace d.name) .argument Label.argument d.arguments
  simp only [entries, references, List.filterMap_append, List.filterMap_flatMap, htype, hdirective]

/-! ## References that offend -/

theorem typePlace?_eq_none_iff {name : String} : ts.typePlace? name = none ↔ ¬ ts.Knows name := by
  unfold typePlace? Knows
  cases ts.type? name <;> simp

/-- The type of a name is of a kind that is not that of scalars exactly if it is defined so. -/
theorem kind_eq_iff {name : String} {place : Place} {kind : ElementKind} (hkind : kind ≠ .scalar)
    (h : ts.typePlace? name = some place) : place.kind = kind ↔ ts.Defines kind name := by
  unfold typePlace? at h
  unfold Defines
  cases htype : ts.type? name with
  | some d =>
    rw [htype] at h
    cases h
    simp [TypeDefinition.place]
  | none =>
    simp only [htype] at h
    split at h
    · cases h
      simp [hkind.symm]
    · cases h

theorem mentionFault?_none_eq_some_iff {source : Place} {name : String} {error : GraphError} :
    ts.mentionFault? source name none = some error ↔
      ¬ ts.Knows name ∧ error = .danglingTypeReference source.path name := by
  unfold mentionFault?
  rw [← typePlace?_eq_none_iff]
  cases ts.typePlace? name <;> simp [eq_comm]

theorem mentionFault?_eq_some_iff {source : Place} {name : String} {kind : ElementKind}
    {fault error : GraphError} (hkind : kind ≠ .scalar) :
    ts.mentionFault? source name (some (kind, fault)) = some error ↔
      ¬ ts.Knows name ∧ error = .danglingTypeReference source.path name ∨
        ts.Knows name ∧ ¬ ts.Defines kind name ∧ error = fault := by
  unfold mentionFault?
  cases hplace : ts.typePlace? name with
  | none =>
    have hunknown := typePlace?_eq_none_iff.1 hplace
    simp [hunknown, eq_comm]
  | some place =>
    have hknown : ts.Knows name := by
      by_contra hunknown
      rw [typePlace?_eq_none_iff.2 hunknown] at hplace
      cases hplace
    have hiff := kind_eq_iff hkind hplace
    by_cases hdefines : ts.Defines kind name
    · simp [hiff, hknown, hdefines]
    · simp [hiff, hknown, hdefines, eq_comm]

/-- An entry is at fault if it is a reference that offends. -/
theorem fault?_eq_some_iff {entry : Entry} {error : GraphError} :
    ts.fault? entry = some error ↔ ∃ r, entry.reference? = some r ∧ r.Offends ts error := by
  cases entry with
  | element owner label v => simp [fault?, Entry.reference?]
  | mention source name role =>
    cases role with
    | directive => simp [fault?, Entry.reference?]
    | typeOf rendered =>
      rw [fault?, mentionFault?_none_eq_some_iff]
      simp [Entry.reference?, Reference.offends_iff]
    | interface =>
      rw [fault?, mentionFault?_eq_some_iff (show ElementKind.interface ≠ .scalar by decide)]
      simp [Entry.reference?, Reference.offends_iff]
    | member =>
      rw [fault?, mentionFault?_eq_some_iff (show ElementKind.object ≠ .scalar by decide)]
      simp [Entry.reference?, Reference.offends_iff]

theorem isSound_filterMap_iff {entries : List Entry} :
    ts.IsSound (entries.filterMap Entry.reference?) ↔
      ∀ entry ∈ entries, ts.fault? entry = none := by
  constructor
  · intro h entry hentry
    by_contra hfault
    obtain ⟨error, herror⟩ := Option.ne_none_iff_exists'.1 hfault
    obtain ⟨r, hr, hoffends⟩ := fault?_eq_some_iff.1 herror
    exact h r (List.mem_filterMap.2 ⟨entry, hentry, hr⟩) error hoffends
  · intro h r hr error hoffends
    obtain ⟨entry, hentry, hreference⟩ := List.mem_filterMap.1 hr
    have herror := fault?_eq_some_iff.2 ⟨r, hreference, hoffends⟩
    rw [h entry hentry] at herror
    cases herror

theorem firstFault?_eq_none_iff : ts.firstFault? = none ↔ ts.IsSound ts.references := by
  rw [← filterMap_reference?, isSound_filterMap_iff, firstFault?, List.findSome?_eq_none_iff]

/-- The first fault is what is wrong with the first reference that offends. -/
theorem firstFault?_eq_some_iff {error : GraphError} :
    ts.firstFault? = some error ↔ ts.IsFirstOffence error := by
  rw [firstFault?, List.findSome?_eq_some_iff]
  unfold IsFirstOffence
  rw [← filterMap_reference?]
  constructor
  · rintro ⟨before, entry, after, hentries, herror, hbefore⟩
    obtain ⟨r, hr, hoffends⟩ := fault?_eq_some_iff.1 herror
    refine ⟨_, r, after.filterMap Entry.reference?, ?_, isSound_filterMap_iff.2 hbefore, hoffends⟩
    rw [hentries, List.filterMap_append, List.filterMap_cons_some hr]
  · rintro ⟨before, r, after, hreferences, hbefore, hoffends⟩
    obtain ⟨entries, more, hentries, rfl, hmore⟩ := List.filterMap_eq_append_iff.1 hreferences
    obtain ⟨others, entry, rest, rfl, hothers, hr, -⟩ := List.filterMap_eq_cons_iff.1 hmore
    have hsound : ts.IsSound ((entries ++ others).filterMap Entry.reference?) := by
      rw [List.filterMap_append, List.filterMap_eq_nil_iff.2 hothers, List.append_nil]
      exact hbefore
    refine ⟨entries ++ others, entry, rest, by rw [hentries, List.append_assoc], ?_,
      isSound_filterMap_iff.1 hsound⟩
    exact fault?_eq_some_iff.2 ⟨r, hr, hoffends⟩

theorem isConsistent_iff : ts.IsConsistent ↔
    ts.firstFault? = none ∧ (ts.vertices.map Vertex.place).Nodup := by
  rw [firstFault?_eq_none_iff]
  constructor
  · intro h
    refine ⟨fun r hr error hoffends => ?_, h.distinct⟩
    cases hoffends with
    | dangling hunknown => exact hunknown (h.known r hr)
    | notAnInterface huse _ hkind => exact hkind (h.interfaces r hr huse)
    | notAnObject huse _ hkind => exact hkind (h.members r hr huse)
  · rintro ⟨hsound, hdistinct⟩
    have hknown (r : Reference) (hr : r ∈ ts.references) : ts.Knows r.name := by
      by_contra hunknown
      exact hsound r hr _ (.dangling hunknown)
    refine ⟨hknown, fun r hr huse => ?_, fun r hr huse => ?_, hdistinct⟩
    · by_contra hkind
      exact hsound r hr _ (.notAnInterface huse (hknown r hr) hkind)
    · by_contra hkind
      exact hsound r hr _ (.notAnObject huse (hknown r hr) hkind)

end TypeSystem

/-! ## The result of the build -/

theorem firstRepeat?_places_eq_some_iff {vertices : List Vertex} {error : GraphError} :
    (∃ place, firstRepeat? (vertices.map Vertex.place) = some place ∧
      error = .duplicateElement place) ↔ IsFirstDuplicate vertices error := by
  constructor
  · rintro ⟨place, hrepeat, rfl⟩
    obtain ⟨before, after, heq, hnodup, hmem⟩ := firstRepeat?_eq_some_iff.1 hrepeat
    obtain ⟨earlier, rest, rfl, rfl, hrest⟩ := List.map_eq_append_iff.1 heq
    obtain ⟨v, later, rfl, rfl, -⟩ := List.map_eq_cons_iff.1 hrest
    exact ⟨earlier, v, later, rfl, hnodup, hmem, rfl⟩
  · rintro ⟨before, v, after, rfl, hnodup, hmem, rfl⟩
    refine ⟨v.place, firstRepeat?_eq_some_iff.2 ⟨_, after.map Vertex.place, ?_, hnodup, hmem⟩, rfl⟩
    rw [List.map_append, List.map_cons]

/-- There is no graph for want of a sound reference, or else because a place is taken twice. -/
theorem Graph.ofTypeSystem_eq_error_iff {ts : TypeSystem} {error : GraphError} :
    Graph.ofTypeSystem ts = .error error ↔ ts.firstFault? = some error ∨
      ts.firstFault? = none ∧ IsFirstDuplicate ts.vertices error := by
  rw [← firstRepeat?_places_eq_some_iff]
  cases hfault : ts.firstFault? with
  | some fault => simp [Graph.ofTypeSystem, hfault]
  | none =>
    cases hrepeat : firstRepeat? (ts.vertices.map Vertex.place) with
    | some place =>
      have hgraph : Graph.ofTypeSystem ts = .error (.duplicateElement place) := by
        rw [Graph.ofTypeSystem, hfault]
        exact Draft.toGraph_of_repeat hrepeat
      simp [hgraph, eq_comm]
    | none =>
      -- with places of their own no vertices have two owners
      obtain ⟨g, hg⟩ := TypeSystem.exists_graph hfault ((firstRepeat?_eq_none_iff _).1 hrepeat)
      simp [hg]

theorem Graph.exists_ofTypeSystem_iff {ts : TypeSystem} :
    (∃ g, Graph.ofTypeSystem ts = .ok g) ↔ ts.IsConsistent := by
  rw [TypeSystem.isConsistent_iff]
  constructor
  · rintro ⟨g, hg⟩
    refine ⟨(Graph.ofTypeSystem_eq_ok_iff.1 hg).1, ?_⟩
    rw [← TypeSystem.vertices_eq hg]
    exact g.places_distinct
  · rintro ⟨hfault, hdistinct⟩
    exact TypeSystem.exists_graph hfault hdistinct

/-- A graph is built exactly of a type system that is consistent: every name that it refers to is
that of a type or of a built-in scalar, only interfaces are implemented, only objects are members,
and elements of one kind have different paths. Otherwise the error is that of the first reference
that offends, or if none does that of the first vertex at a place that is taken; no vertex ever has
two owners, and no edge leads to a vertex that is not there. -/
theorem a_graph_is_built_unless_a_reference_offends_or_a_place_is_taken (ts : TypeSystem) :
    Graph.build ts = Graph.ofTypeSystem ts ∧
    ((∃ g, Graph.build ts = .ok g) ↔ ts.IsConsistent) ∧
    (∀ error, Graph.build ts = .error error ↔
      ts.IsFirstOffence error ∨ ts.IsSound ts.references ∧
        ∃ b, Builder.read ts = .ok b ∧ IsFirstDuplicate b.draft.vertices error) ∧
    (∀ path, Graph.build ts ≠ .error (.multipleParents path)) ∧
    ∀ id, Graph.build ts ≠ .error (.unknownVertex id) := by
  have herrors (error : GraphError) : Graph.build ts = .error error ↔
      ts.IsFirstOffence error ∨ ts.IsSound ts.references ∧
        ∃ b, Builder.read ts = .ok b ∧ IsFirstDuplicate b.draft.vertices error := by
    rw [Graph.build_eq, Graph.ofTypeSystem_eq_error_iff, TypeSystem.firstFault?_eq_some_iff,
      ← TypeSystem.firstFault?_eq_none_iff]
    refine or_congr_right (and_congr_right fun hfault => ?_)
    obtain ⟨b, hb, hread⟩ := Builder.exists_read hfault
    simp [hb, hread.vertices_eq]
  refine ⟨Graph.build_eq ts, ?_, herrors, fun path h => ?_, fun id h => ?_⟩
  · rw [Graph.build_eq]
    exact Graph.exists_ofTypeSystem_iff
  all_goals
    -- no reference offends in such a way, and a place that is taken is another error
    rcases (herrors _).1 h with ⟨-, r, -, -, -, hoffends⟩ | ⟨-, -, -, -, v, -, -, -, -, heq⟩
    · cases hoffends
    · cases heq

end SchemaDelta
