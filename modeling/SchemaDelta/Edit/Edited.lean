import SchemaDelta.Edit.Matching
import SchemaDelta.Edit.Operation

/-!
Graphs that steps are carried out on. A step takes what it puts in from the new graph, so that a
vertex or edge of an edited graph is one of the old graph or one taken over from the new one.

Edges that are put in lead between new vertices. If such a vertex is matched, the old vertex stands
for it.
-/

namespace SchemaDelta

/-- Where a vertex or edge of an edited graph comes from. -/
inductive Origin where
  | old (id : Nat)
  | new (id : Nat)
  deriving DecidableEq, Repr, Inhabited

/-- A vertex of an edited graph. -/
structure EditedVertex where
  origin : Origin
  kind : ElementKind
  name : String
  properties : Properties
  deriving DecidableEq, Inhabited

/-- An edge of an edited graph, with the origins of the vertices at its ends. -/
structure EditedEdge where
  origin : Origin
  one : Origin
  two : Origin
  label : String
  deriving DecidableEq, Repr, Inhabited

/-- A graph on which some steps have been carried out. -/
structure EditedGraph where
  vertices : List EditedVertex
  edges : List EditedEdge
  deriving DecidableEq, Inhabited

namespace EditedGraph

/-! ## One list -/

/-- What a step does to the vertices or to the edges. -/
inductive Alteration (α : Type) where
  | insert (a : α)
  | delete (id : Nat)
  | change (id : Nat) (changed : α → α)

/-- Vertices or edges, altered. Those of the old graph are known by their numbers. -/
def alter {α : Type} (origin : α → Origin) (as : List α) : Alteration α → List α
  | .insert a => as ++ [a]
  | .delete id => as.filter fun a => origin a != .old id
  | .change id changed => as.map fun a => if origin a = .old id then changed a else a

/-! ## Steps -/

/-- An old vertex before all steps. -/
def oldVertex (old : Graph) (id : Nat) : EditedVertex :=
  let v := (old.vertex? id).getD default
  ⟨.old id, v.kind, v.name, v.properties⟩

/-- An old edge before all steps. -/
def oldEdge (old : Graph) (id : Nat) : EditedEdge :=
  let e := (old.edge? id).getD default
  ⟨.old id, .old e.one, .old e.two, e.label⟩

/-- The old graph before all steps. -/
def start (old : Graph) : EditedGraph where
  vertices := old.vertexIds.map (oldVertex old)
  edges := (List.range old.edges.length).map (oldEdge old)

/-- A new vertex as it is put in. -/
def newVertex (new : Graph) (id : Nat) : EditedVertex :=
  let v := (new.vertex? id).getD default
  ⟨.new id, v.kind, v.name, v.properties⟩

/-- A vertex that becomes a new one. -/
def becomeVertex (new : Graph) (id : Nat) (vertex : EditedVertex) : EditedVertex :=
  let v := (new.vertex? id).getD default
  { vertex with name := v.name, properties := v.properties }

/-- What stands for a new vertex in an edited graph. -/
def standIn (m : Matching) (id : Nat) : Origin :=
  match m.preimage? id with
  | some source => .old source
  | none => .new id

/-- A new edge as it is put in. -/
def newEdge (new : Graph) (m : Matching) (id : Nat) : EditedEdge :=
  let e := (new.edge? id).getD default
  ⟨.new id, standIn m e.one, standIn m e.two, e.label⟩

/-- An edge that becomes a new one. -/
def becomeEdge (new : Graph) (id : Nat) (edge : EditedEdge) : EditedEdge :=
  { edge with label := ((new.edge? id).getD default).label }

/-- What a step does to the vertices. -/
def vertexAlteration? (new : Graph) : Edit → Option (Alteration EditedVertex)
  | .insertVertex target => some (.insert (newVertex new target))
  | .deleteVertex source => some (.delete source)
  | .changeVertex source target => some (.change source (becomeVertex new target))
  | _ => none

/-- What a step does to the edges. -/
def edgeAlteration? (new : Graph) (m : Matching) : Edit → Option (Alteration EditedEdge)
  | .insertEdge target => some (.insert (newEdge new m target))
  | .deleteEdge source => some (.delete source)
  | .changeEdge source target => some (.change source (becomeEdge new target))
  | _ => none

/-- An edited graph after one more step. -/
def step (new : Graph) (m : Matching) (g : EditedGraph) (operation : Edit) : EditedGraph where
  vertices :=
    match vertexAlteration? new operation with
    | some alteration => alter EditedVertex.origin g.vertices alteration
    | none => g.vertices
  edges :=
    match edgeAlteration? new m operation with
    | some alteration => alter EditedEdge.origin g.edges alteration
    | none => g.edges

/-- The old graph after some steps. -/
def after (old new : Graph) (m : Matching) (operations : List Edit) : EditedGraph :=
  operations.foldl (step new m) (start old)

/-! ## What is shown -/

/-- Whether an edited graph is a given graph up to paths, if its vertices are numbered in some way:
it has the vertices of the graph with their kinds, names and properties, and its edges with their
labels. -/
structure IsNumberedAs (g : EditedGraph) (goal : Graph) (number? : Origin → Option Nat) : Prop where
  vertices : (g.vertices.map fun v => (number? v.origin, v.kind, v.name, v.properties)).Perm
    (goal.vertices.zipIdx.map fun (v, id) => (some id, v.kind, v.name, v.properties))
  edges : (g.edges.map fun e => (number? e.one, number? e.two, e.label)).Perm
    (goal.edges.map fun e => (some e.one, some e.two, e.label))
  /-- Edges lead between vertices of the edited graph itself. -/
  ends : ∀ e ∈ g.edges, e.one ∈ g.vertices.map EditedVertex.origin ∧
    e.two ∈ g.vertices.map EditedVertex.origin

end EditedGraph

end SchemaDelta
