import SchemaDelta.Graph.Basic

/-!
The indices of a graph, and how they come about. A draft is put together call by call, and a call
for an edge that has no vertex at an end changes nothing. When all is there the draft is finished
in two passes: the vertices are filed under their kinds and their places, and the owners are noted
of those that have one. A place that is taken stops the first pass, and a second owner the second.

`SchemaDelta.Graph.Basic` says which drafts are graphs, and what these answer.
-/

namespace SchemaDelta

/-! ## Calls -/

namespace Draft

/-- What can be asked of a draft. -/
inductive Call where
  | vertex (v : Vertex)
  | edge (e : Edge)

/-- A draft after one more call. An edge that is refused leaves it as it was. -/
def after (d : Draft) : Call → Draft
  | .vertex v => d.addVertex v
  | .edge e =>
    match d.addEdge e with
    | .ok d' => d'
    | .error _ => d

/-- What some calls put together. -/
def assembled (calls : List Call) : Draft :=
  calls.foldl after empty

end Draft

/-! ## Indices -/

/-- What the vertices of a graph are found by. -/
structure Indices where
  /-- The vertices of each kind that there are vertices of. -/
  byKind : List (ElementKind × List Nat)
  /-- The vertices by their places, the latest first. -/
  byPlace : List (Place × Nat)
  /-- The owners of the vertices that have one, the latest first. -/
  owners : List (Nat × Nat)

namespace Indices

/-- Before anything is filed. -/
def empty : Indices :=
  ⟨[], [], []⟩

/-- Files a vertex after those of its kind. -/
def fileUnder (kind : ElementKind) (id : Nat) :
    List (ElementKind × List Nat) → List (ElementKind × List Nat)
  | [] => [(kind, [id])]
  | entry :: rest =>
    if entry.1 = kind then (kind, entry.2 ++ [id]) :: rest
    else entry :: fileUnder kind id rest

/-- Files a vertex with its number. It takes its place even from an earlier one, and then that is
an error. -/
def fileVertex (ix : Indices) (numbered : Vertex × Nat) : Except GraphError Indices :=
  let (v, id) := numbered
  let earlier := ix.byPlace.lookup v.place
  let ix := { ix with
    byKind := fileUnder v.kind id ix.byKind
    byPlace := (v.place, id) :: ix.byPlace }
  if earlier.isSome then .error (.duplicateElement v.place) else .ok ix

/-- Notes the owner from which an edge leads. It takes the place even of an earlier one, and then
that is an error. Other edges are passed over. -/
def noteOwner (d : Draft) (ix : Indices) (e : Edge) : Except GraphError Indices :=
  if e.isOwnership then
    let earlier := ix.owners.lookup e.two
    let ix := { ix with owners := (e.two, e.one) :: ix.owners }
    if earlier.isSome then .error (.multipleParents ((d.vertex? e.two).elim "" Vertex.path))
    else .ok ix
  else .ok ix

end Indices

/-! ## Graphs with indices -/

/-- A finished draft with its indices. -/
structure IndexedGraph extends Draft, Indices

/-- Finishes a draft. -/
def Draft.finish (d : Draft) : Except GraphError IndexedGraph := do
  let ix ← d.vertices.zipIdx.foldlM Indices.fileVertex .empty
  let ix ← d.edges.foldlM (Indices.noteOwner d) ix
  return ⟨d, ix⟩

namespace IndexedGraph

/-- The vertex at a place. -/
def find? (g : IndexedGraph) (place : Place) : Option Nat :=
  g.byPlace.lookup place

/-- The vertices of a kind, in order. -/
def ofKind (g : IndexedGraph) (kind : ElementKind) : List Nat :=
  (g.byKind.lookup kind).getD []

/-- The owner of a vertex. -/
def owner? (g : IndexedGraph) (id : Nat) : Option Nat :=
  g.owners.lookup id

/-- The edges from a vertex, with their numbers. -/
def outgoing (g : IndexedGraph) (id : Nat) : List (Edge × Nat) :=
  g.edges.zipIdx.filter fun e => e.1.one == id

/-- The edges to a vertex, with their numbers. -/
def incoming (g : IndexedGraph) (id : Nat) : List (Edge × Nat) :=
  g.edges.zipIdx.filter fun e => e.1.two == id

end IndexedGraph

end SchemaDelta
