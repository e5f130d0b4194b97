import SchemaDelta.Graph.Basic
import SchemaDelta.Graph.Outline

/-!
The graph of a type system. It has a vertex for each element of the outline and one for each
built-in scalar that is mentioned and not defined, and an edge for each owner and each mention.

The vertices of the definitions come first and the others in the order of reading, so a type
system always has the same graph. There is no graph if a mention is at fault, which is reported
first, or if two elements have one place.
-/

namespace SchemaDelta

namespace TypeSystem

/-! ## Mentions -/

/-- The place of the type of a name. Built-in scalars need no definition. -/
def typePlace? (ts : TypeSystem) (name : String) : Option Place :=
  match ts.type? name with
  | some d => some d.place
  | none => if isBuiltIn name then some ⟨.scalar, name⟩ else none

/-- What is wrong with the mention of a type in a role that asks for the kind `wanted`. -/
def mentionFault? (ts : TypeSystem) (source : Place) (name : String)
    (wanted : Option (ElementKind × GraphError)) : Option GraphError :=
  match ts.typePlace? name with
  | none => some (.danglingTypeReference source.path name)
  | some place =>
    match wanted with
    | none => none
    | some (kind, fault) => if place.kind = kind then none else some fault

/-- What is wrong with an entry: the type it mentions is missing or of a wrong kind. -/
def fault? (ts : TypeSystem) : Entry → Option GraphError
  | .mention source name (.typeOf _) => ts.mentionFault? source name none
  | .mention source name .interface =>
    ts.mentionFault? source name (some (.interface, .notAnInterface source.path name))
  | .mention source name .member =>
    ts.mentionFault? source name (some (.object, .invalidUnionMember source.path name))
  | .mention _ _ .directive => none
  | .element .. => none

/-- The first thing that is wrong with a mention. -/
def firstFault? (ts : TypeSystem) : Option GraphError :=
  ts.entries.findSome? ts.fault?

/-! ## Vertices -/

/-- The vertices of entries, after the types with the names `known`: the elements, and at its first
mention each type that is not known. -/
def entryVertices (known : List String) : List Entry → List Vertex
  | [] => []
  | .element _ _ vertex :: rest => vertex :: entryVertices known rest
  | .mention _ _ .directive :: rest => entryVertices known rest
  | .mention _ name _ :: rest =>
    if name ∈ known then entryVertices known rest
    else builtInScalarVertex name :: entryVertices (name :: known) rest

/-- The vertices of a type system, in order. -/
def vertices (ts : TypeSystem) : List Vertex :=
  ts.definitionVertices ++ entryVertices ts.types.names ts.entries

/-! ## Edges -/

/-- A relation between two elements that are given by their places. -/
structure Link where
  source : Place
  target : Place
  label : String
  deriving DecidableEq, Repr

/-- The relation that an entry states. A directive that is applied and not defined relates to
nothing. -/
def link? (ts : TypeSystem) : Entry → Option Link
  | .element owner label vertex => some ⟨owner, vertex.place, label⟩
  | .mention source name .directive =>
    (ts.directive? name).map fun _ => ⟨source, directivePlace name, Label.directive⟩
  | .mention source name role =>
    (ts.typePlace? name).map fun target => ⟨source, target, role.label name⟩

/-- The relations of a type system, in the order of reading. -/
def links (ts : TypeSystem) : List Link :=
  ts.entries.filterMap ts.link?

/-- The edge between vertices that a relation stands for. -/
def Link.edge? (vertices : List Vertex) (link : Link) : Option Edge := do
  let one ← vertices.findIdx? fun v => v.place == link.source
  let two ← vertices.findIdx? fun v => v.place == link.target
  return ⟨one, two, link.label⟩

theorem Link.ends_lt_of_edge? {vertices : List Vertex} {link : Link} {e : Edge}
    (h : link.edge? vertices = some e) : e.one < vertices.length ∧ e.two < vertices.length := by
  simp only [edge?, Option.bind_eq_bind, Option.bind_eq_some_iff, Option.pure_def] at h
  obtain ⟨one, hone, two, htwo, he⟩ := h
  obtain rfl := Option.some.inj he
  exact ⟨(List.findIdx?_eq_some_iff_getElem.1 hone).1, (List.findIdx?_eq_some_iff_getElem.1 htwo).1⟩

/-- The vertices and edges of a type system. -/
def draft (ts : TypeSystem) : Draft where
  vertices := ts.vertices
  edges := ts.links.filterMap (Link.edge? ts.vertices)
  ends_known e he := by
    obtain ⟨link, -, hlink⟩ := List.mem_filterMap.1 he
    exact Link.ends_lt_of_edge? hlink

end TypeSystem

/-- The graph of a type system. -/
def Graph.ofTypeSystem (ts : TypeSystem) : Except GraphError Graph :=
  match ts.firstFault? with
  | some fault => .error fault
  | none => ts.draft.toGraph

end SchemaDelta
