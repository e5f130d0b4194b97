import SchemaDelta.Ordering
import SchemaDelta.Graph.Element
import SchemaDelta.Graph.Relation

/-!
Graphs of schemas. A draft is put together vertex by vertex and edge by edge; a finished graph has
no two vertices at one place and no vertex with two owners, and answers questions.
-/

namespace SchemaDelta

/-! ## Errors -/

/-- Why there is no graph. -/
inductive GraphError where
  /-- The element at `location` mentions a type that is not defined. -/
  | danglingTypeReference (location name : String)
  /-- A type implements one that is not an interface. -/
  | notAnInterface (implementer name : String)
  /-- A union has a member that is not an object. -/
  | invalidUnionMember (union member : String)
  /-- Two elements have one place. -/
  | duplicateElement (place : Place)
  /-- The element at `path` has two owners. -/
  | multipleParents (path : String)
  /-- An edge was to begin or end at a vertex that is not there. -/
  | unknownVertex (id : Nat)
  deriving DecidableEq, Repr

/-- What went wrong, in words. -/
def GraphError.message : GraphError → String
  | danglingTypeReference location name => location ++ " references the undefined type " ++ name
  | notAnInterface implementer name =>
    implementer ++ " implements " ++ name ++ ", which is not an interface"
  | invalidUnionMember union member =>
    "The union " ++ union ++ " has " ++ member ++ " as a member, which is not an object type"
  | duplicateElement place =>
    "The " ++ place.kind.text ++ " " ++ place.path ++ " is defined more than once"
  | multipleParents path => path ++ " is owned by more than one element"
  | unknownVertex id => "Edge endpoint v" ++ toString id ++ " is not a vertex of the graph"

/-! ## Drafts -/

/-- Vertices and edges between them, numbered in the order in which they were added. -/
structure Draft where
  vertices : List Vertex
  edges : List Edge
  /-- Every edge begins and ends at a vertex. -/
  ends_known : ∀ e ∈ edges, e.one < vertices.length ∧ e.two < vertices.length

namespace Draft

/-- The draft without vertices. -/
def empty : Draft :=
  ⟨[], [], by simp⟩

instance : Inhabited Draft := ⟨empty⟩

/-- A draft with one more vertex, the last. -/
def addVertex (d : Draft) (v : Vertex) : Draft where
  vertices := d.vertices ++ [v]
  edges := d.edges
  ends_known e he := by
    have := d.ends_known e he
    simp only [List.length_append, List.length_singleton]
    omega

/-- A draft with one more edge, the last. The first end that is not a vertex is an error. -/
def addEdge (d : Draft) (e : Edge) : Except GraphError Draft :=
  if hone : e.one < d.vertices.length then
    if htwo : e.two < d.vertices.length then
      .ok {
        vertices := d.vertices
        edges := d.edges ++ [e]
        ends_known := by
          intro e' he'
          rcases List.mem_append.1 he' with h | h
          · exact d.ends_known e' h
          · rw [List.mem_singleton.1 h]
            exact ⟨hone, htwo⟩ }
    else .error (.unknownVertex e.two)
  else .error (.unknownVertex e.one)

/-- The vertex of a number. -/
def vertex? (d : Draft) (id : Nat) : Option Vertex :=
  d.vertices[id]?

/-- The edge of a number. -/
def edge? (d : Draft) (id : Nat) : Option Edge :=
  d.edges[id]?

/-- The places of the vertices, in order. -/
def places (d : Draft) : List Place :=
  d.vertices.map Vertex.place

/-- The vertices to which edges lead from an owner, in the order of the edges. -/
def owned (d : Draft) : List Nat :=
  (d.edges.filter Edge.isOwnership).map Edge.two

end Draft

/-! ## Finished graphs -/

/-- A graph in which a place names at most one vertex and a vertex has at most one owner. -/
structure Graph extends Draft where
  places_distinct : toDraft.places.Nodup
  owned_once : toDraft.owned.Nodup

instance : Inhabited Graph := ⟨⟨.empty, .nil, .nil⟩⟩

/-- The graph of a draft. The first vertex whose place is taken is an error; after that, the first
ownership of a vertex that has an owner. -/
def Draft.toGraph (d : Draft) : Except GraphError Graph :=
  match hplaces : firstRepeat? d.places with
  | some place => .error (.duplicateElement place)
  | none =>
    match howned : firstRepeat? d.owned with
    | some child => .error (.multipleParents ((d.vertex? child).elim "" Vertex.path))
    | none => .ok {
        toDraft := d
        places_distinct := (firstRepeat?_eq_none_iff _).1 hplaces
        owned_once := (firstRepeat?_eq_none_iff _).1 howned }

namespace Graph

/-- The numbers of the vertices, in order. -/
def vertexIds (g : Graph) : List Nat :=
  List.range g.vertices.length

/-- The edges with their numbers, in order. -/
def numberedEdges (g : Graph) : List (Edge × Nat) :=
  g.edges.zipIdx

/-- The vertex at a place. -/
def find? (g : Graph) (place : Place) : Option Nat :=
  g.vertices.findIdx? fun v => v.place == place

/-- The vertices of a kind, in order. -/
def ofKind (g : Graph) (kind : ElementKind) : List Nat :=
  g.vertexIds.filter fun id => (g.vertex? id).any (·.kind == kind)

/-- The owner of a vertex. -/
def owner? (g : Graph) (id : Nat) : Option Nat :=
  (g.edges.find? fun e => e.isOwnership && e.two == id).map Edge.one

/-- The object, interface or input object that owns a field or input field. -/
def fieldOwner? (g : Graph) (id : Nat) : Option Nat :=
  match g.vertex? id with
  | none => none
  | some v =>
    if v.kind == .field || v.kind == .inputField then
      (g.owner? id).filter fun owner => (g.vertex? owner).any (·.kind.hasFields)
    else none

/-- The first `n` vertices up the chain of owners, closest first. -/
def ancestors (g : Graph) : Nat → Nat → List Nat
  | 0, _ => []
  | n + 1, id =>
    match g.owner? id with
    | none => []
    | some owner => owner :: g.ancestors n owner

/-- Everything up the chain of owners: a chain without repeats is no longer than the graph. -/
def allAncestors (g : Graph) (id : Nat) : List Nat :=
  g.ancestors g.vertices.length id

/-- The edges from a vertex, with their numbers. -/
def outgoing (g : Graph) (id : Nat) : List (Edge × Nat) :=
  g.numberedEdges.filter fun e => e.1.one == id

/-- The edges to a vertex, with their numbers. -/
def incoming (g : Graph) (id : Nat) : List (Edge × Nat) :=
  g.numberedEdges.filter fun e => e.1.two == id

end Graph

end SchemaDelta
