import SchemaDelta.Proofs.Graph.Ancestors
import SchemaDelta.Proofs.Graph.Inventory
import SchemaDelta.Proofs.Graph.Paths

/-!
A graph that is built depicts its type system: it has one vertex for each element and one edge for
each relation, between elements of the kinds that the relation asks for; what is inside an element
has that element as its one owner, and a path that begins with the path of the owner.
-/

namespace SchemaDelta

/-! ## Kinds and labels -/

/-- Which kinds of elements are related under which labels. -/
inductive Relates : ElementKind → String → ElementKind → Prop where
  | implementation {kind : ElementKind} {name : String} (h : kind = .object ∨ kind = .interface) :
    Relates kind (Label.implementing name) .interface
  | field {kind : ElementKind} (h : kind = .object ∨ kind = .interface) :
    Relates kind Label.field .field
  | inputField : Relates .inputObject Label.inputField .inputField
  | argument {kind : ElementKind} (h : kind = .field ∨ kind = .directive) :
    Relates kind Label.argument .argument
  | type {kind kind' : ElementKind} {rendered : String}
    (h : kind = .field ∨ kind = .inputField ∨ kind = .argument) (htype : kind'.isType = true) :
    Relates kind (Label.typeOf rendered) kind'
  | member : Relates .union Label.member .object
  | enumValue : Relates .enum Label.enumValue .enumValue
  | application {kind : ElementKind} (hdirective : kind ≠ .directive)
    (happlied : kind ≠ .appliedDirective) :
    Relates kind Label.appliedDirective .appliedDirective
  | definition : Relates .appliedDirective Label.directive .directive

theorem TypeBody.kind_of_mem_fields {body : TypeBody} {f : Field} (h : f ∈ body.fields) :
    body.kind = .object ∨ body.kind = .interface := by
  cases body with
  | object => exact Or.inl rfl
  | interface => exact Or.inr rfl
  | _ => cases h

theorem TypeBody.kind_of_mem_interfaces {body : TypeBody} {name : String}
    (h : name ∈ body.interfaces) : body.kind = .object ∨ body.kind = .interface := by
  cases body with
  | object => exact Or.inl rfl
  | interface => exact Or.inr rfl
  | _ => cases h

theorem TypeBody.kind_of_mem_members {body : TypeBody} {name : String} (h : name ∈ body.members) :
    body.kind = .union := by
  cases body with
  | union => rfl
  | _ => cases h

theorem TypeBody.kind_of_mem_inputFields {body : TypeBody} {a : InputValue}
    (h : a ∈ body.inputFields) : body.kind = .inputObject := by
  cases body with
  | inputObject => rfl
  | _ => cases h

theorem TypeBody.kind_of_mem_values {body : TypeBody} {value : EnumValue} (h : value ∈ body.values) :
    body.kind = .enum := by
  cases body with
  | enum => rfl
  | _ => cases h

namespace TypeSystem

variable {ts : TypeSystem} {owner : Place}

/-- What is directly inside a type is listed with the place of that type. -/
theorem exists_type_of_mem {α : Type} {parts : TypeBody → List α} {a : α}
    (h : (owner, a) ∈ ts.types.entries.flatMap fun d => (parts d.body).map fun a => (d.place, a)) :
    ∃ d ∈ ts.types.entries, d.place = owner ∧ a ∈ parts d.body := by
  obtain ⟨d, hd, h⟩ := List.mem_flatMap.1 h
  obtain ⟨a', ha, heq⟩ := List.mem_map.1 h
  cases heq
  exact ⟨d, hd, rfl, ha⟩

theorem kind_of_mem_arguments {a : InputValue} (h : (owner, a) ∈ ts.arguments) :
    owner.kind = .field ∨ owner.kind = .directive := by
  rcases List.mem_append.1 h with h | h
  · obtain ⟨⟨place, f⟩, -, h⟩ := List.mem_flatMap.1 h
    obtain ⟨a', -, heq⟩ := List.mem_map.1 h
    cases heq
    exact Or.inl rfl
  · obtain ⟨d, -, h⟩ := List.mem_flatMap.1 h
    obtain ⟨a', -, heq⟩ := List.mem_map.1 h
    cases heq
    exact Or.inr rfl

/-- Directives are applied to anything but directives. -/
theorem kind_of_mem_applied {directives : List AppliedDirective}
    (h : (owner, directives) ∈ ts.applied) :
    owner.kind ≠ .directive ∧ owner.kind ≠ .appliedDirective := by
  unfold applied at h
  simp only [List.mem_append, List.mem_map, Prod.exists, Prod.mk.injEq] at h
  rcases h with (((⟨d, -, rfl, -⟩ | ⟨_, f, -, rfl, -⟩) | ⟨_, a, -, rfl, -⟩) | ⟨_, a, -, rfl, -⟩) |
    ⟨_, value, -, rfl, -⟩
  · cases hbody : d.body <;> simp [TypeDefinition.place, hbody, TypeBody.kind]
  all_goals exact ⟨ElementKind.noConfusion, ElementKind.noConfusion⟩

theorem mem_applications_iff {number : Nat} {d : AppliedDirective} :
    (owner, number, d) ∈ ts.applications ↔
      ∃ directives, (owner, directives) ∈ ts.applied ∧ (number, d) ∈ numbered directives := by
  unfold applications
  rw [List.mem_flatMap]
  constructor
  · rintro ⟨⟨owner', directives⟩, hmem, h⟩
    obtain ⟨⟨number', d'⟩, hnumbered, heq⟩ := List.mem_map.1 h
    cases heq
    exact ⟨directives, hmem, hnumbered⟩
  · rintro ⟨directives, hmem, hnumbered⟩
    exact ⟨(owner, directives), hmem, List.mem_map.2 ⟨(number, d), hnumbered, rfl⟩⟩

theorem kind_of_mem_typed {place : Place} {type : TypeRef} (h : (place, type) ∈ ts.typed) :
    place.kind = .field ∨ place.kind = .inputField ∨ place.kind = .argument := by
  unfold typed at h
  simp only [List.mem_append, List.mem_map, Prod.exists, Prod.mk.injEq] at h
  rcases h with (⟨_, f, -, rfl, -⟩ | ⟨_, a, -, rfl, -⟩) | ⟨_, a, -, rfl, -⟩
  · exact Or.inl rfl
  · exact Or.inr (Or.inl rfl)
  · exact Or.inr (Or.inr rfl)

theorem isType_namedPlace (ts : TypeSystem) (name : String) :
    (ts.namedPlace name).kind.isType = true := by
  unfold namedPlace
  cases ts.type? name with
  | none => rfl
  | some d => exact TypeBody.isType_kind d.body

/-- The relations of a type system are between elements of the kinds that their labels ask for. -/
theorem relates_of_mem_relations {link : Link} (h : link ∈ ts.relations) :
    Relates link.source.kind link.label link.target.kind := by
  unfold relations at h
  simp only [List.mem_append, List.mem_flatMap, List.mem_map, List.mem_filterMap, Prod.exists,
    Option.map_eq_some_iff] at h
  rcases h with (((((((⟨d, -, name, hname, rfl⟩ | ⟨d, -, name, hname, rfl⟩) |
    ⟨owner, f, hf, rfl⟩) | ⟨owner, a, ha, rfl⟩) | ⟨owner, a, ha, rfl⟩) |
    ⟨owner, value, hvalue, rfl⟩) | ⟨owner, number, d, hd, rfl⟩) | ⟨place, type, htype, rfl⟩) |
    ⟨owner, number, d, hd, _, -, rfl⟩
  · exact .implementation (TypeBody.kind_of_mem_interfaces hname)
  · have hkind : d.place.kind = .union := TypeBody.kind_of_mem_members hname
    exact hkind ▸ .member
  · obtain ⟨d, -, rfl, hmem⟩ := exists_type_of_mem hf
    exact .field (TypeBody.kind_of_mem_fields hmem)
  · obtain ⟨d, -, rfl, hmem⟩ := exists_type_of_mem ha
    have hkind : d.place.kind = .inputObject := TypeBody.kind_of_mem_inputFields hmem
    exact hkind ▸ .inputField
  · exact .argument (kind_of_mem_arguments ha)
  · obtain ⟨d, -, rfl, hmem⟩ := exists_type_of_mem hvalue
    have hkind : d.place.kind = .enum := TypeBody.kind_of_mem_values hmem
    exact hkind ▸ .enumValue
  · obtain ⟨directives, hmem, -⟩ := mem_applications_iff.1 hd
    exact .application (kind_of_mem_applied hmem).1 (kind_of_mem_applied hmem).2
  · exact .type (kind_of_mem_typed htype) (ts.isType_namedPlace type.name)
  · exact .definition

end TypeSystem

/-! ## Owners -/

namespace Graph

variable {g : Graph} {id owner : Nat}

/-- Where the edges begin that lead to a vertex from an owner. -/
def owners (g : Graph) (id : Nat) : List Nat :=
  (g.edges.filter fun e => e.isOwnership && e.two == id).map Edge.one

/-- No vertex has two owners. -/
theorem owners_eq (g : Graph) (id : Nat) : g.owners id = (g.owner? id).toList := by
  let leads (e : Edge) : Bool := e.isOwnership && e.two == id
  have hsublist : (g.edges.filter leads).Sublist (g.edges.filter Edge.isOwnership) :=
    List.monotone_filter_right _ fun e he => (Bool.and_eq_true_iff.1 he).1
  have hdistinct := g.owned_once.sublist (hsublist.map Edge.two)
  have hid (e : Edge) (he : e ∈ g.edges.filter leads) : e.two = id :=
    beq_iff_eq.1 (Bool.and_eq_true_iff.1 (List.mem_filter.1 he).2).2
  unfold owners owner?
  rw [← List.head?_filter]
  change (g.edges.filter leads).map Edge.one = ((g.edges.filter leads).head?.map Edge.one).toList
  match g.edges.filter leads, hdistinct, hid with
  | [], _, _ => rfl
  | [e], _, _ => rfl
  | e :: e' :: rest, hdistinct, hid =>
    -- both would lead to the vertex
    refine absurd ?_ (List.nodup_cons.1 hdistinct).1
    rw [hid e List.mem_cons_self, ← hid e' (List.mem_cons_of_mem _ List.mem_cons_self)]
    exact List.mem_cons_self

end Graph

/-! ## Paths -/

/-- Whether the path of an element goes on from the path of what it is inside: after an at sign with
the name of an applied directive, and a number if it is repeated, or after a dot with its name. -/
def TypeSystem.Extends (ts : TypeSystem) (owner v : Vertex) : Prop :=
  if v.kind = .appliedDirective then
    ∃ number d, (owner.place, number, d) ∈ ts.applications ∧ d.name = v.name ∧
      v.path = owner.path ++ "@" ++ v.name ++ (if number = 0 then "" else "#" ++ toString number)
  else v.path = owner.path ++ "." ++ v.name

/-! ## Graphs and type systems -/

/-- Whether a graph depicts a type system. -/
structure Graph.Depicts (g : Graph) (ts : TypeSystem) : Prop where
  /-- There is one vertex for each element, and for each built-in scalar that is implied. -/
  vertices : g.vertices.Perm ts.inventory
  /-- There is one edge for each relation. -/
  edges : g.placedEdges.Perm (ts.relations.map TypeSystem.Link.placed)
  /-- Edges lead between elements of the kinds that their labels ask for. -/
  related : ∀ {e v w}, e ∈ g.edges → g.vertex? e.one = some v → g.vertex? e.two = some w →
    Relates v.kind e.label w.kind
  /-- Nothing owns a definition, whose path is its name. -/
  definition : ∀ {id v}, g.vertex? id = some v → v.kind.isDefinition = true →
    g.owners id = [] ∧ g.owner? id = none ∧
      v.path = if v.kind = .directive then "@" ++ v.name else v.name
  /-- Everything else has one owner, of a kind that comes before its own, and its path begins with
  that of its owner. -/
  part : ∀ {id v}, g.vertex? id = some v → v.kind.isDefinition = false →
    ∃ owner w, g.owners id = [owner] ∧ g.owner? id = some owner ∧ g.vertex? owner = some w ∧
      w.kind.rank < v.kind.rank ∧ ts.Extends w v
  /-- What is around an element ends with a definition. -/
  root : ∀ {id v}, g.vertex? id = some v → ∃ root w,
    (id :: g.allAncestors id).getLast? = some root ∧ g.vertex? root = some w ∧
      w.kind.isDefinition = true
  /-- Fields and input fields are inside what has fields. -/
  fieldOwner : ∀ {id v}, g.vertex? id = some v → v.kind = .field ∨ v.kind = .inputField →
    ∃ owner w, g.fieldOwner? id = some owner ∧ g.owner? id = some owner ∧
      g.vertex? owner = some w ∧ w.kind.hasFields = true

namespace TypeSystem

/-- The elements that are applied directives are those that are listed as such. -/
theorem exists_application {ts : TypeSystem} {owner : Place} {label : String} {v : Vertex}
    (hmem : .element owner label v ∈ ts.entries) (hkind : v.kind = .appliedDirective) :
    ∃ number d, (owner, number, d) ∈ ts.applications ∧ d.vertex owner number = v := by
  have hlisted := ts.entries_perm.mem_iff.1 hmem
  unfold entriesByKind at hlisted
  simp only [List.mem_append, List.mem_flatMap, List.mem_map, Prod.exists, reduceCtorEq, and_false,
    exists_false, false_or, or_false, Entry.element.injEq] at hlisted
  rcases hlisted with (((⟨_, f, -, -, -, rfl⟩ | ⟨_, a, -, -, -, rfl⟩) | ⟨_, a, -, -, -, rfl⟩) |
    ⟨_, value, -, -, -, rfl⟩) | ⟨_, number, d, happlication, rfl, -, rfl⟩
  · cases hkind
  · cases hkind
  · cases hkind
  · cases hkind
  · exact ⟨number, d, happlication, rfl⟩

section Built

variable {ts : TypeSystem} {g : Graph} (h : Graph.ofTypeSystem ts = .ok g) {id : Nat} {v : Vertex}

include h

theorem relates_of_mem_edges {e : Edge} {one two : Vertex} (he : e ∈ g.edges)
    (hone : g.vertex? e.one = some one) (htwo : g.vertex? e.two = some two) :
    Relates one.kind e.label two.kind := by
  have hmem : g.placedEdge e ∈ ts.relations.map Link.placed :=
    (placedEdges_perm h).mem_iff.1 (List.mem_map.2 ⟨e, he, rfl⟩)
  obtain ⟨link, hlink, heq⟩ := List.mem_map.1 hmem
  rw [Graph.placedEdge, hone, htwo, Link.placed] at heq
  simp only [Option.map_some, Prod.mk.injEq, Option.some.injEq] at heq
  obtain ⟨hsource, hlabel, htarget⟩ := heq
  have hkinds := relates_of_mem_relations hlink
  rw [hsource, hlabel, htarget] at hkinds
  exact hkinds

theorem exists_owner_extends (hv : g.vertex? id = some v) (hpart : v.kind.isDefinition = false) :
    ∃ owner w, g.owner? id = some owner ∧ g.vertex? owner = some w ∧
      w.kind.rank < v.kind.rank ∧ ts.Extends w v := by
  obtain ⟨owner, w, label, howner, hw, howns⟩ := exists_owner_of_part h hv hpart
  refine ⟨owner, w, howner, hw, howns.rank_lt, ?_⟩
  obtain ⟨v', w', label', hv', hw', hmem⟩ := exists_element_of_owner? h howner
  cases hv.symm.trans hv'
  cases hw.symm.trans hw'
  unfold Extends
  split
  · next hkind =>
    obtain ⟨number, d, happlication, rfl⟩ := exists_application hmem hkind
    exact ⟨number, d, happlication, rfl, rfl⟩
  · next hkind => exact (HasPaths.typeSystem ts).inner w.place label' v hmem hkind

theorem exists_root (hv : g.vertex? id = some v) : ∃ root w,
    (id :: g.allAncestors id).getLast? = some root ∧ g.vertex? root = some w ∧
      w.kind.isDefinition = true := by
  induction id using owner_induction h generalizing v with
  | definition id howner =>
    refine ⟨id, v, by rw [Graph.allAncestors_eq_nil howner]; rfl, hv, ?_⟩
    by_contra hpart
    obtain ⟨owner, -, howner', -⟩ := exists_owner_extends h hv (Bool.eq_false_iff.2 hpart)
    cases howner.symm.trans howner'
  | part id owner howner ih =>
    obtain ⟨v', w, label, hv', hw, howns⟩ := exists_owns_of_owner? h howner
    obtain ⟨root, u, hlast, hu⟩ := ih hw
    refine ⟨root, u, ?_, hu⟩
    rw [allAncestors_eq_cons h howner, List.getLast?_cons_cons]
    exact hlast

theorem exists_fieldOwner? (hv : g.vertex? id = some v)
    (hkind : v.kind = .field ∨ v.kind = .inputField) :
    ∃ owner w, g.fieldOwner? id = some owner ∧ g.owner? id = some owner ∧
      g.vertex? owner = some w ∧ w.kind.hasFields = true := by
  have hpart : v.kind.isDefinition = false := by rcases hkind with hkind | hkind <;> rw [hkind] <;> rfl
  obtain ⟨owner, w, label, howner, hw, howns⟩ := exists_owner_of_part h hv hpart
  have hfields := howns.hasFields hkind
  refine ⟨owner, w, ?_, howner, hw, hfields⟩
  unfold Graph.fieldOwner?
  rw [hv]
  simp [hkind, howner, hw, hfields, Option.filter]

end Built

end TypeSystem

/-- A graph that is built depicts its type system. It has just one vertex for each element, and one
for each built-in scalar that is referred to and not defined; it has just one edge for each relation,
between elements of the kinds that its label asks for. Nothing owns types and directives, and what
is around anything else ends with one of them, since it has one owner, which is of a smaller kind.
Paths go on from the paths of owners, and what has a field is found. -/
theorem a_graph_depicts_its_type_system {ts : TypeSystem} {g : Graph}
    (h : Graph.build ts = .ok g) : g.Depicts ts := by
  rw [Graph.build_eq] at h
  exact {
    vertices := TypeSystem.vertices_perm h
    edges := TypeSystem.placedEdges_perm h
    related := TypeSystem.relates_of_mem_edges h
    definition := fun {id v} hv hkind => by
      have howner := TypeSystem.owner?_eq_none h hv hkind
      exact ⟨by rw [Graph.owners_eq, howner]; rfl, howner,
        (TypeSystem.has_of_vertex? h hv).path_eq hkind⟩
    part := fun {id v} hv hpart => by
      obtain ⟨owner, w, howner, hw, hrank, hpath⟩ := TypeSystem.exists_owner_extends h hv hpart
      exact ⟨owner, w, by rw [Graph.owners_eq, howner]; rfl, howner, hw, hrank, hpath⟩
    root := TypeSystem.exists_root h
    fieldOwner := TypeSystem.exists_fieldOwner? h }

set_option maxRecDepth 20000 in
/-- So it is with elements of every kind, a directive that is applied twice and one that is applied
and not defined, and a built-in scalar that is referred to twice. -/
theorem a_graph_depicts_its_type_system_of_every_kind :
    let d : AppliedDirective := ⟨"d", []⟩
    let e : AppliedDirective := ⟨"e", []⟩
    let a : InputValue := ⟨"a", .named "Int", none, none, []⟩
    let i : Field := ⟨"i", .named "Int", [], none, []⟩
    let n : Field := ⟨"n", .named "N", [a], none, [d]⟩
    let ts : TypeSystem :=
      ⟨⟨[⟨"N", none, [], .interface [] [i]⟩, ⟨"Q", none, [d, e, d], .object ["N"] [i, n]⟩,
        ⟨"U", none, [], .union ["Q"]⟩, ⟨"I", none, [], .inputObject [a]⟩,
        ⟨"E", none, [], .enum [⟨"A", none, []⟩]⟩], by decide⟩,
        ⟨[⟨"d", [a], [], true, none⟩], by decide⟩⟩
    ∃ g, Graph.build ts = .ok g ∧ g.Depicts ts ∧
      ts.inventory.map Vertex.path = ["N", "Q", "U", "I", "E", "@d", "N.i", "Q.i", "Q.n", "I.a",
        "Q.n.a", "@d.a", "E.A", "Q@d", "Q@e", "Q@d#1", "Q.n@d", "Int"] ∧
      ts.relations.map TypeSystem.Link.label = ["implements N", "member", "field", "field", "field",
        "input-field", "argument", "argument", "enum-value", "applied-directive",
        "applied-directive", "applied-directive", "applied-directive", "type=Int", "type=Int",
        "type=N", "type=Int", "type=Int", "type=Int", "directive", "directive", "directive"] := by
  intro d e a i n ts
  obtain ⟨g, hg⟩ := exists_eq_ok (show (Graph.build ts).toOption.isSome = true by decide +kernel)
  exact ⟨g, hg, a_graph_depicts_its_type_system hg, by decide +kernel, by decide +kernel⟩

end SchemaDelta
