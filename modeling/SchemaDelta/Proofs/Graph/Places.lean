import SchemaDelta.Proofs.Graph.Inventory
import SchemaDelta.Proofs.Graph.Paths

/-!
The places of the elements of a type system. A path is the path of an owner with a name, and it is
read back from its end; so two elements of one kind are at one place only if one definition lists
two things of one name. Directives may be applied as often as one likes, for they are numbered.
-/

namespace SchemaDelta

/-! ## Numbers of applications -/

section Numbers

variable {directives : List AppliedDirective} {d : AppliedDirective} {n : Nat}

theorem numbered_concat (directives : List AppliedDirective) (d : AppliedDirective) :
    numbered (directives ++ [d]) =
      numbered directives ++ [((directives.map AppliedDirective.name).count d.name, d)] := by
  unfold numbered
  rw [List.zipIdx_append, List.map_append]
  congr 1
  · refine List.map_congr_left fun ⟨e, i⟩ hmem => ?_
    have hlt : i < directives.length := by
      have := List.mk_mem_zipIdx_iff_getElem?.1 hmem
      exact (List.getElem?_eq_some_iff.1 this).1
    simp only [List.take_append_of_le_length (Nat.le_of_lt hlt)]
  · simp

/-- An application has a smaller number than there are applications of its directive. -/
theorem number_lt_of_mem_numbered (h : (n, d) ∈ numbered directives) :
    n < (directives.map AppliedDirective.name).count d.name := by
  induction directives using List.reverseRecOn with
  | nil => cases h
  | append_singleton directives e ih =>
    rw [numbered_concat, List.mem_append, List.mem_singleton] at h
    rw [List.map_append, List.count_append]
    rcases h with hmem | heq
    · exact Nat.lt_of_lt_of_le (ih hmem) (Nat.le_add_right ..)
    · cases heq
      simp

theorem nodup_numbered (directives : List AppliedDirective) :
    ((numbered directives).map fun (n, d) => (d.name, n)).Nodup := by
  induction directives using List.reverseRecOn with
  | nil => exact List.nodup_nil
  | append_singleton directives e ih =>
    rw [numbered_concat, List.map_append, List.nodup_append']
    refine ⟨ih, List.nodup_singleton _, List.disjoint_singleton.2 fun hmem => ?_⟩
    obtain ⟨⟨n, d⟩, hd, heq⟩ := List.mem_map.1 hmem
    obtain ⟨hname, rfl⟩ := Prod.mk.inj heq
    have hlt := number_lt_of_mem_numbered hd
    rw [hname] at hlt
    exact Nat.lt_irrefl _ hlt

end Numbers

/-! ## Paths of their own -/

/-- Names that are listed once by owners with paths of their own make paths of their own. -/
theorem nodup_flatMap_innerPath {α : Type} {owners : List α} {place : α → Place}
    {names : α → List String} (howners : (owners.map fun a => (place a).path).Nodup)
    (hnames : ∀ a ∈ owners, ∀ name ∈ names a, IsName name)
    (hdistinct : ∀ a ∈ owners, (names a).Nodup) :
    (owners.flatMap fun a => (names a).map (innerPath (place a))).Nodup := by
  refine List.nodup_flatMap.2 ⟨fun a ha => ?_, ?_⟩
  · refine (hdistinct a ha).map_on fun name hname name' hname' heq => ?_
    exact (innerPath_inj (hnames a ha name hname) (hnames a ha name' hname') heq).2
  · refine (List.pairwise_map.1 howners).imp_of_mem fun {a a'} ha ha' hne path hpath hpath' => ?_
    obtain ⟨name, hname, rfl⟩ := List.mem_map.1 hpath
    obtain ⟨name', hname', heq⟩ := List.mem_map.1 hpath'
    exact hne (innerPath_inj (hnames a' ha' name' hname') (hnames a ha name hname) heq).1.symm

/-- However often directives are applied to what has paths of its own, the paths of the applications
are their own. -/
theorem nodup_flatMap_applicationPath {applied : List (Place × List AppliedDirective)}
    (howners : (applied.map fun a => a.1.path).Nodup)
    (hnames : ∀ a ∈ applied, ∀ d ∈ numbered a.2, IsName d.2.name) :
    (applied.flatMap fun a =>
      (numbered a.2).map fun (n, d) => applicationPath a.1 d.name n).Nodup := by
  refine List.nodup_flatMap.2 ⟨fun a ha => ?_, ?_⟩
  · have hnumbers := nodup_numbered a.2
    unfold List.Nodup at hnumbers ⊢
    rw [List.pairwise_map] at hnumbers ⊢
    refine hnumbers.imp_of_mem fun {x y} hx hy hne heq => hne ?_
    obtain ⟨-, hname, hnumber⟩ := applicationPath_inj (hnames a ha x hx) (hnames a ha y hy) heq
    exact Prod.ext hname hnumber
  · refine (List.pairwise_map.1 howners).imp_of_mem fun {a a'} ha ha' hne path hpath hpath' => ?_
    obtain ⟨x, hx, rfl⟩ := List.mem_map.1 hpath
    obtain ⟨y, hy, heq⟩ := List.mem_map.1 hpath'
    exact hne (applicationPath_inj (hnames a' ha' y hy) (hnames a ha x hx) heq).1.symm

/-- Vertices with paths of their own have places of their own. -/
theorem nodup_places {vs : List Vertex} (h : (vs.map Vertex.path).Nodup) :
    (vs.map Vertex.place).Nodup := by
  refine List.Nodup.of_map Place.path ?_
  rwa [List.map_map]

/-- Vertices of some kinds are not at the places of vertices of later kinds. -/
theorem nodup_places_append {vs ws : List Vertex} (rank : Nat)
    (hvs : (vs.map Vertex.place).Nodup) (hws : (ws.map Vertex.place).Nodup)
    (hlt : ∀ v ∈ vs, v.kind.rank < rank) (hle : ∀ w ∈ ws, rank ≤ w.kind.rank) :
    ((vs ++ ws).map Vertex.place).Nodup := by
  rw [List.map_append, List.nodup_append']
  refine ⟨hvs, hws, fun place hplace hplace' => ?_⟩
  obtain ⟨v, hv, rfl⟩ := List.mem_map.1 hplace
  obtain ⟨w, hw, heq⟩ := List.mem_map.1 hplace'
  have hkind : w.kind = v.kind := congrArg Place.kind heq
  have hrank := hlt v hv
  rw [← hkind] at hrank
  exact Nat.not_lt_of_le (hle w hw) hrank

/-! ## Names that are listed twice -/

namespace TypeSystem

/-- Whether some definition lists two things of one name. -/
inductive RepeatsName (ts : TypeSystem) : Prop where
  | fields {d : TypeDefinition} (hd : d ∈ ts.types.entries)
    (h : ¬ (d.body.fields.map Field.name).Nodup) : RepeatsName ts
  | inputFields {d : TypeDefinition} (hd : d ∈ ts.types.entries)
    (h : ¬ (d.body.inputFields.map InputValue.name).Nodup) : RepeatsName ts
  | enumValues {d : TypeDefinition} (hd : d ∈ ts.types.entries)
    (h : ¬ (d.body.values.map EnumValue.name).Nodup) : RepeatsName ts
  | fieldArguments {d : TypeDefinition} {f : Field} (hd : d ∈ ts.types.entries)
    (hf : f ∈ d.body.fields) (h : ¬ (f.arguments.map InputValue.name).Nodup) : RepeatsName ts
  | directiveArguments {d : DirectiveDefinition} (hd : d ∈ ts.directives.entries)
    (h : ¬ (d.arguments.map InputValue.name).Nodup) : RepeatsName ts

end TypeSystem

/-- The names of what is directly inside a type. -/
def TypeDefinition.partNames (d : TypeDefinition) : List String :=
  d.body.fields.map Field.name ++ d.body.inputFields.map InputValue.name ++
    d.body.values.map EnumValue.name

/-- A type has parts of one kind only. -/
theorem TypeDefinition.nodup_partNames {d : TypeDefinition}
    (hfields : (d.body.fields.map Field.name).Nodup)
    (hinputFields : (d.body.inputFields.map InputValue.name).Nodup)
    (hvalues : (d.body.values.map EnumValue.name).Nodup) : d.partNames.Nodup := by
  unfold partNames
  cases hbody : d.body <;> simp_all [TypeBody.fields, TypeBody.inputFields, TypeBody.values]

namespace TypeSystem

variable {ts : TypeSystem}

/-- What lists arguments, with the arguments. -/
def argumentLists (ts : TypeSystem) : List (Place × List InputValue) :=
  (ts.fields.map fun (owner, f) => ((f.vertex owner).place, f.arguments)) ++
    ts.directives.entries.map fun d => (directivePlace d.name, d.arguments)

/-- What is inside definitions, directives that are applied apart. -/
def innerVertices (ts : TypeSystem) : List Vertex :=
  (ts.fields.map fun (owner, f) => f.vertex owner) ++
  (ts.inputFields.map fun (owner, a) => a.vertex owner .inputField) ++
  (ts.arguments.map fun (owner, a) => a.vertex owner .argument) ++
  (ts.enumValues.map fun (owner, value) => value.vertex owner)

theorem mem_fields {d : TypeDefinition} {f : Field} (hd : d ∈ ts.types.entries)
    (hf : f ∈ d.body.fields) : (d.place, f) ∈ ts.fields :=
  List.mem_flatMap.2 ⟨d, hd, List.mem_map.2 ⟨f, hf, rfl⟩⟩

theorem innerPaths_perm (ts : TypeSystem) : (ts.innerVertices.map Vertex.path).Perm
    ((ts.types.entries.flatMap fun d => d.partNames.map (innerPath d.place)) ++
      ts.argumentLists.flatMap fun a => (a.2.map InputValue.name).map (innerPath a.1)) := by
  rw [← Multiset.coe_eq_coe]
  -- both are sums of the same single paths over the types and directives
  simp only [innerVertices, argumentLists, TypeDefinition.partNames, fields, inputFields, arguments,
    enumValues, List.map_eq_flatMap, List.flatMap_append, List.flatMap_assoc, List.flatMap_cons,
    List.flatMap_nil, List.append_nil, Field.vertex, InputValue.vertex, EnumValue.vertex]
  simp only [← Multiset.coe_add, ← Multiset.coe_bind, Multiset.bind_add]
  ac_rfl

theorem exists_of_mem_innerVertices {v : Vertex} (h : v ∈ ts.innerVertices) :
    (ElementKind.field.rank ≤ v.kind.rank ∧ v.kind.rank < ElementKind.appliedDirective.rank) ∧
      ∃ owner name, v.path = innerPath owner name := by
  simp only [innerVertices, List.mem_append, List.mem_map] at h
  rcases h with ((⟨⟨owner, f⟩, -, rfl⟩ | ⟨⟨owner, a⟩, -, rfl⟩) | ⟨⟨owner, a⟩, -, rfl⟩) |
    ⟨⟨owner, value⟩, -, rfl⟩
  all_goals
    exact ⟨by simp [Field.vertex, InputValue.vertex, EnumValue.vertex, ElementKind.rank], owner, _,
      rfl⟩

/-- Whether everything that a type system holds has a name. -/
structure IsNamed (ts : TypeSystem) : Prop where
  type : ∀ d ∈ ts.types.entries, IsName d.name
  directive : ∀ d ∈ ts.directives.entries, IsName d.name
  part : ∀ d ∈ ts.types.entries, ∀ name ∈ d.partNames, IsName name
  argument : ∀ a ∈ ts.argumentLists, ∀ name ∈ a.2.map InputValue.name, IsName name
  application : ∀ a ∈ ts.applied, ∀ d ∈ numbered a.2, IsName d.2.name

theorem isNamed_of_inventory (h : ∀ v ∈ ts.inventory, IsName v.name) : ts.IsNamed := by
  simp only [inventory, applications, fields, inputFields, enumValues, List.forall_mem_append,
    List.forall_mem_map, List.forall_mem_flatMap] at h
  obtain ⟨⟨⟨⟨⟨⟨⟨htypes, hdirectives⟩, hfields⟩, hinputFields⟩, harguments⟩, hvalues⟩,
    happlications⟩, -⟩ := h
  refine ⟨htypes, hdirectives, fun d hd => ?_, ?_, happlications⟩
  · simp only [TypeDefinition.partNames, List.forall_mem_append, List.forall_mem_map]
    exact ⟨⟨hfields d hd, hinputFields d hd⟩, hvalues d hd⟩
  · simp only [arguments, argumentLists, List.forall_mem_append, List.forall_mem_map,
      List.forall_mem_flatMap] at harguments ⊢
    exact harguments

/-- The types, those that are implied among them. -/
def typeVertices (ts : TypeSystem) : List Vertex :=
  ts.types.entries.map TypeDefinition.vertex ++ ts.impliedScalars.map builtInScalarVertex

/-- What is not inside anything. -/
def outerVertices (ts : TypeSystem) : List Vertex :=
  ts.typeVertices ++ ts.directives.entries.map DirectiveDefinition.vertex

theorem inventory_perm (ts : TypeSystem) : ts.inventory.Perm (ts.outerVertices ++
    (ts.innerVertices ++ ts.applications.map fun (owner, number, d) => d.vertex owner number)) := by
  simp only [inventory, outerVertices, typeVertices, innerVertices, List.append_assoc]
  refine .append_left _ (.trans (.of_eq ?_) List.perm_append_comm)
  simp only [List.append_assoc]

theorem rank_of_mem_typeVertices {v : Vertex} (h : v ∈ ts.typeVertices) :
    v.kind.rank < ElementKind.directive.rank := by
  rcases List.mem_append.1 h with hdefined | himplied
  · obtain ⟨d, -, rfl⟩ := List.mem_map.1 hdefined
    exact of_decide_eq_true d.body.isType_kind
  · obtain ⟨name, -, rfl⟩ := List.mem_map.1 himplied
    exact (show ElementKind.scalar.rank < ElementKind.directive.rank by decide)

theorem rank_of_mem_outerVertices {v : Vertex} (h : v ∈ ts.outerVertices) :
    v.kind.rank < ElementKind.field.rank := by
  rcases List.mem_append.1 h with htype | hdirective
  · exact Nat.lt_succ_of_lt (rank_of_mem_typeVertices htype)
  · obtain ⟨d, -, rfl⟩ := List.mem_map.1 hdirective
    exact Nat.lt_succ_self _

/-- Scalars are implied only if they are not defined. -/
theorem nodup_typePaths (ts : TypeSystem) : (ts.typeVertices.map Vertex.path).Nodup := by
  have hpaths : ts.typeVertices.map Vertex.path =
      ts.types.entries.map TypeDefinition.name ++ ts.impliedScalars := by
    simp [typeVertices, Function.comp_def, TypeDefinition.vertex, builtInScalarVertex]
  rw [hpaths, List.nodup_append']
  refine ⟨ts.types.distinct, (show builtInScalars.Nodup by decide).filter _,
    fun name hname himplied => ?_⟩
  obtain ⟨-, -, hunknown⟩ := mem_impliedScalars_iff.1 himplied
  rw [Bool.not_eq_true', ← Bool.not_eq_true, List.contains_iff_mem] at hunknown
  exact hunknown hname

theorem nodup_directivePaths (ts : TypeSystem) :
    (ts.directives.entries.map fun d => (directivePlace d.name).path).Nodup := by
  have hnames := ts.directives.distinct.map fun name name' => (String.append_right_inj "@").1
  rwa [List.map_map] at hnames

theorem nodup_outerPlaces (ts : TypeSystem) : (ts.outerVertices.map Vertex.place).Nodup := by
  refine nodup_places_append ElementKind.directive.rank (nodup_places (nodup_typePaths ts))
    (nodup_places ?_) (fun v hv => rank_of_mem_typeVertices hv) ?_
  · rw [List.map_map]
    exact nodup_directivePaths ts
  · exact List.forall_mem_map.2 fun _ _ => Nat.le_refl _

/-- What lists arguments is a field or the definition of a directive. -/
theorem not_isName_of_mem_argumentLists {a : Place × List InputValue} (h : a ∈ ts.argumentLists) :
    ¬ IsName a.1.path := by
  simp only [argumentLists, List.mem_append, List.mem_map] at h
  rcases h with ⟨⟨owner, f⟩, -, rfl⟩ | ⟨d, -, rfl⟩
  · exact not_isName_innerPath owner f.name
  · exact not_isName_directivePlace d.name

section Distinct

variable (hnamed : ts.IsNamed) (hrepeats : ¬ ts.RepeatsName)

include hnamed hrepeats

theorem nodup_partPaths :
    (ts.types.entries.flatMap fun d => d.partNames.map (innerPath d.place)).Nodup := by
  refine nodup_flatMap_innerPath ts.types.distinct hnamed.part fun d hd => ?_
  by_contra hparts
  refine hparts (TypeDefinition.nodup_partNames ?_ ?_ ?_)
  · exact not_not.1 fun h => hrepeats (.fields hd h)
  · exact not_not.1 fun h => hrepeats (.inputFields hd h)
  · exact not_not.1 fun h => hrepeats (.enumValues hd h)

theorem nodup_fieldPaths : (ts.fields.map fun (owner, f) => innerPath owner f.name).Nodup := by
  have hpaths : (ts.fields.map fun (owner, f) => innerPath owner f.name) =
      ts.types.entries.flatMap fun d => (d.body.fields.map Field.name).map (innerPath d.place) := by
    simp [fields, List.map_flatMap, Function.comp_def]
  rw [hpaths]
  refine nodup_flatMap_innerPath ts.types.distinct (fun d hd name hname => ?_) fun d hd => ?_
  · exact hnamed.part d hd name (List.mem_append_left _ (List.mem_append_left _ hname))
  · exact not_not.1 fun h => hrepeats (.fields hd h)

theorem nodup_argumentPaths : (ts.argumentLists.flatMap fun a =>
    (a.2.map InputValue.name).map (innerPath a.1)).Nodup := by
  refine nodup_flatMap_innerPath ?_ hnamed.argument fun a ha => not_not.1 fun h => hrepeats ?_
  · rw [argumentLists, List.map_append, List.map_map, List.map_map, List.nodup_append']
    refine ⟨nodup_fieldPaths hnamed hrepeats, ?_, fun path hpath hpath' => ?_⟩
    · exact nodup_directivePaths ts
    · obtain ⟨⟨owner, f⟩, -, rfl⟩ := List.mem_map.1 hpath
      obtain ⟨d, hd, heq⟩ := List.mem_map.1 hpath'
      exact innerPath_ne_directivePlace owner (hnamed.directive d hd) f.name heq.symm
  · simp only [argumentLists, fields, List.mem_append, List.mem_map, List.mem_flatMap] at ha
    rcases ha with ⟨-, ⟨d, hd, f, hf, rfl⟩, rfl⟩ | ⟨d, hd, rfl⟩
    · exact .fieldArguments hd hf h
    · exact .directiveArguments hd h

theorem nodup_innerPaths : (ts.innerVertices.map Vertex.path).Nodup := by
  rw [(innerPaths_perm ts).nodup_iff, List.nodup_append']
  refine ⟨nodup_partPaths hnamed hrepeats, nodup_argumentPaths hnamed hrepeats,
    fun path hpath hpath' => ?_⟩
  obtain ⟨d, hd, hpart⟩ := List.mem_flatMap.1 hpath
  obtain ⟨name, hname, rfl⟩ := List.mem_map.1 hpart
  obtain ⟨a, ha, hargument⟩ := List.mem_flatMap.1 hpath'
  obtain ⟨name', hname', heq⟩ := List.mem_map.1 hargument
  have howner : a.1.path = d.name :=
    (innerPath_inj (hnamed.argument a ha name' hname') (hnamed.part d hd name hname) heq).1
  exact not_isName_of_mem_argumentLists ha (howner ▸ hnamed.type d hd)

theorem nodup_appliedPaths : (ts.applied.map fun a => a.1.path).Nodup := by
  have hpaths : (ts.applied.map fun a => a.1.path) =
      ts.types.entries.map TypeDefinition.name ++ ts.innerVertices.map Vertex.path := by
    simp [applied, innerVertices, Function.comp_def, TypeDefinition.place, Vertex.place]
  rw [hpaths, List.nodup_append']
  refine ⟨ts.types.distinct, nodup_innerPaths hnamed hrepeats, fun path hpath hpath' => ?_⟩
  obtain ⟨d, hd, rfl⟩ := List.mem_map.1 hpath
  obtain ⟨v, hv, heq⟩ := List.mem_map.1 hpath'
  obtain ⟨-, owner, name, hinner⟩ := exists_of_mem_innerVertices hv
  refine not_isName_innerPath owner name ?_
  rw [← hinner, heq]
  exact hnamed.type d hd

theorem nodup_applicationPaths : (ts.applications.map fun (owner, number, d) =>
    (d.vertex owner number).path).Nodup := by
  have hpaths : (ts.applications.map fun (owner, number, d) => (d.vertex owner number).path) =
      ts.applied.flatMap fun a =>
        (numbered a.2).map fun (n, d) => applicationPath a.1 d.name n := by
    simp [applications, List.map_flatMap, Function.comp_def, AppliedDirective.vertex]
  rw [hpaths]
  exact nodup_flatMap_applicationPath (nodup_appliedPaths hnamed hrepeats) hnamed.application

/-- No two elements of one kind have one path. -/
theorem nodup_inventory : (ts.inventory.map Vertex.place).Nodup := by
  have hinner := nodup_places (nodup_innerPaths hnamed hrepeats)
  have happlications : ((ts.applications.map fun (owner, number, d) =>
      d.vertex owner number).map Vertex.place).Nodup := by
    refine nodup_places ?_
    rw [List.map_map]
    exact nodup_applicationPaths hnamed hrepeats
  have hrank : ∀ v ∈ ts.applications.map fun (owner, number, d) => d.vertex owner number,
      ElementKind.appliedDirective.rank ≤ v.kind.rank :=
    List.forall_mem_map.2 fun _ _ => Nat.le_refl _
  rw [((inventory_perm ts).map _).nodup_iff]
  refine nodup_places_append ElementKind.field.rank (nodup_outerPlaces ts)
    (nodup_places_append ElementKind.appliedDirective.rank hinner happlications
      (fun v hv => (exists_of_mem_innerVertices hv).1.2) hrank)
    (fun v hv => rank_of_mem_outerVertices hv) fun v hv => ?_
  rcases List.mem_append.1 hv with hv | hv
  · exact (exists_of_mem_innerVertices hv).1.1
  · exact Nat.le_trans (by decide) (hrank v hv)

end Distinct

/-- Of things at different places, those that are listed together have different names. -/
theorem nodup_names {β : Type} {items : List (Place × β)} {kind : ElementKind} {name : β → String}
    (h : (items.map fun item => (⟨kind, innerPath item.1 (name item.2)⟩ : Place)).Nodup)
    {owner : Place} {listed : List β} (hlisted : (listed.map (owner, ·)).Sublist items) :
    (listed.map name).Nodup := by
  have hplaces := h.sublist (hlisted.map _)
  rw [List.map_map] at hplaces
  refine List.Nodup.of_map (fun name => (⟨kind, innerPath owner name⟩ : Place)) ?_
  rwa [List.map_map]

theorem not_repeatsName (h : (ts.inventory.map Vertex.place).Nodup) : ¬ ts.RepeatsName := by
  simp only [inventory, List.map_append, List.nodup_append', List.map_map] at h
  obtain ⟨⟨⟨⟨⟨⟨-, hfields, -⟩, hinputFields, -⟩, harguments, -⟩, hvalues, -⟩, -, -⟩, -, -⟩ := h
  rintro (⟨hd, hrepeat⟩ | ⟨hd, hrepeat⟩ | ⟨hd, hrepeat⟩ | ⟨hd, hf, hrepeat⟩ | ⟨hd, hrepeat⟩)
  · have hlisted := sublist_flatMap_of_mem
      (fun d : TypeDefinition => d.body.fields.map fun f => (d.place, f)) hd
    exact hrepeat (nodup_names hfields hlisted)
  · have hlisted := sublist_flatMap_of_mem
      (fun d : TypeDefinition => d.body.inputFields.map fun a => (d.place, a)) hd
    exact hrepeat (nodup_names hinputFields hlisted)
  · have hlisted := sublist_flatMap_of_mem
      (fun d : TypeDefinition => d.body.values.map fun value => (d.place, value)) hd
    exact hrepeat (nodup_names hvalues hlisted)
  · have hlisted := sublist_flatMap_of_mem
      (fun (owner, f) => f.arguments.map fun a => ((Field.vertex owner f).place, a))
      (mem_fields hd hf)
    exact hrepeat (nodup_names harguments (hlisted.trans (List.sublist_append_left ..)))
  · have hlisted := sublist_flatMap_of_mem
      (fun d : DirectiveDefinition => d.arguments.map fun a => (directivePlace d.name, a)) hd
    exact hrepeat (nodup_names harguments (hlisted.trans (List.sublist_append_right ..)))

end TypeSystem

theorem exists_isFirstDuplicate_iff {vertices : List Vertex} :
    (∃ place, IsFirstDuplicate vertices (.duplicateElement place)) ↔
      ¬ (vertices.map Vertex.place).Nodup := by
  rw [← firstRepeat?_eq_none_iff]
  simp only [← firstRepeat?_places_eq_some_iff]
  cases firstRepeat? (vertices.map Vertex.place) <;> simp

/-- If everything has a name and no reference offends, a type system has no graph exactly if a
definition lists two things of one name, and then two elements are at one place. Otherwise its
graph has one vertex for each element, and vertices of one kind have different paths. -/
theorem a_path_is_taken_only_by_a_repeated_name {ts : TypeSystem} (hnames : ts.HasNames)
    (hsound : ts.IsSound ts.references) :
    ((∃ place, Graph.build ts = .error (.duplicateElement place)) ↔ ts.RepeatsName) ∧
    (¬ ts.RepeatsName → (ts.inventory.map Vertex.place).Nodup ∧
      ∃ g, Graph.build ts = .ok g ∧ g.vertices.Perm ts.inventory ∧
        ∀ id id' v w, g.vertex? id = some v → g.vertex? id' = some w → v.kind = w.kind →
          v.path = w.path → id = id') := by
  have hfault : ts.firstFault? = none := TypeSystem.firstFault?_eq_none_iff.2 hsound
  have hperm := TypeSystem.vertices_perm_inventory hfault
  have hnodup : (ts.vertices.map Vertex.place).Nodup ↔ ¬ ts.RepeatsName := by
    rw [(hperm.map _).nodup_iff]
    refine ⟨TypeSystem.not_repeatsName, TypeSystem.nodup_inventory ?_⟩
    exact TypeSystem.isNamed_of_inventory fun v hv => hnames v (hperm.mem_iff.2 hv)
  rw [Graph.build_eq]
  constructor
  · simp only [Graph.ofTypeSystem_eq_error_iff, hfault, true_and, exists_isFirstDuplicate_iff,
      reduceCtorEq, false_or, hnodup, not_not]
  · intro hrepeats
    obtain ⟨g, hg⟩ := TypeSystem.exists_graph hfault (hnodup.2 hrepeats)
    refine ⟨(hperm.map _).nodup_iff.1 (hnodup.2 hrepeats), g, hg, TypeSystem.vertices_perm hg,
      fun id id' v w hv hw hkind hpath => Graph.eq_of_place hv hw ?_⟩
    rw [Vertex.place, Vertex.place, hkind, hpath]

theorem a_path_is_taken_only_by_a_repeated_name_of_directives_applied_twice :
    let d : AppliedDirective := ⟨"d", []⟩
    let a : InputValue := ⟨"a", .named "Int", none, none, [d, d]⟩
    let f : Field := ⟨"f", .named "E", [a], none, [d, ⟨"e", []⟩, d, d]⟩
    let types : Catalog TypeDefinition TypeDefinition.name :=
      ⟨[⟨"Q", none, [d, d], .object [] [f]⟩, ⟨"E", none, [d], .enum [⟨"a", none, [d, d]⟩]⟩,
        ⟨"I", none, [], .inputObject [a]⟩], by decide⟩
    let ts : TypeSystem := ⟨types, ⟨[⟨"d", [a], [], true, none⟩], by decide⟩⟩
    let ts' : TypeSystem := ⟨types, ⟨[⟨"d", [a, a], [], true, none⟩], by decide⟩⟩
    (∃ g, Graph.build ts = .ok g ∧ g.vertices.Perm ts.inventory ∧
      (ts.inventory.map Vertex.path).filter (·.toList.contains '#') =
        ["Q@d#1", "Q.f@d#1", "Q.f@d#2", "I.a@d#1", "Q.f.a@d#1", "@d.a@d#1", "E.a@d#1"]) ∧
      ∃ place, Graph.build ts' = .error (.duplicateElement place) := by
  intro d a f types ts ts'
  have hsound (ts : TypeSystem) (h : ts.firstFault? = none) : ts.IsSound ts.references :=
    TypeSystem.firstFault?_eq_none_iff.1 h
  have hrepeats : ¬ ts.RepeatsName := TypeSystem.not_repeatsName (by decide +kernel)
  have hrepeats' : ts'.RepeatsName := .directiveArguments List.mem_cons_self (by decide)
  obtain ⟨-, hbuilt⟩ := a_path_is_taken_only_by_a_repeated_name
    (show ts.HasNames by decide +kernel) (hsound ts (by decide +kernel))
  obtain ⟨hfails, -⟩ := a_path_is_taken_only_by_a_repeated_name
    (show ts'.HasNames by decide +kernel) (hsound ts' (by decide +kernel))
  obtain ⟨-, g, hg, hperm, -⟩ := hbuilt hrepeats
  exact ⟨⟨g, hg, hperm, by decide +kernel⟩, hfails.2 hrepeats'⟩

end SchemaDelta
