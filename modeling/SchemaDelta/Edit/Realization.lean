import SchemaDelta.Edit.Matching
import SchemaDelta.Edit.Operation

/-!
The steps that realize a matching, in a fixed order. Vertices without a counterpart are deleted or
inserted, and so are the edges at them; matched vertices are changed where they differ.

The edges between two matched vertices are compared by their labels. Equal labels cancel, those of
the smallest numbers first, and what is left is paired off in the order of the labels.
-/

namespace SchemaDelta

namespace Realization

/-! ## Vertices -/

/-- What becomes of an old vertex. -/
def oldVertexOperation? (m : Matching) (new : Graph) (entry : Vertex × Nat) :
    Option Edit :=
  match m.image? entry.2 with
  | none => some (.deleteVertex entry.2)
  | some target =>
    let v := (new.vertex? target).getD default
    if entry.1.name = v.name ∧ entry.1.properties = v.properties then none
    else some (.changeVertex entry.2 target)

/-- The step to a new vertex that was not there. -/
def newVertexOperation? (m : Matching) (target : Nat) : Option Edit :=
  match m.preimage? target with
  | none => some (.insertVertex target)
  | some _ => none

/-- The steps on vertices. -/
def vertexOperations (old new : Graph) (m : Matching) : List Edit :=
  old.vertices.zipIdx.filterMap (oldVertexOperation? m new) ++
    new.vertexIds.filterMap (newVertexOperation? m)

/-! ## Parallel edges -/

/-- An edge between matched vertices: the new vertices of both its ends, and its number. -/
structure Strand where
  one : Nat
  two : Nat
  label : String
  id : Nat
  deriving DecidableEq, Repr

/-- The order in which edges between the same vertices are paired off. -/
def Strand.compare : Strand → Strand → Ordering :=
  compareLex (compareOn label) (compareOn id)

/-- An old edge, if both its ends are matched. -/
def oldStrand? (m : Matching) (entry : Edge × Nat) : Option Strand := do
  let one ← m.image? entry.1.one
  let two ← m.image? entry.1.two
  return ⟨one, two, entry.1.label, entry.2⟩

/-- A new edge, if both its ends are matched. -/
def newStrand? (m : Matching) (entry : Edge × Nat) : Option Strand :=
  if (m.preimage? entry.1.one).isSome && (m.preimage? entry.1.two).isSome then
    some ⟨entry.1.one, entry.1.two, entry.1.label, entry.2⟩
  else none

/-- What is left of two lists when equal labels cancel, each with the first one of the other list
that is still there. -/
def cancel : List Strand → List Strand → List Strand × List Strand
  | [], news => ([], news)
  | old :: olds, news =>
    if news.any fun new => new.label == old.label then
      cancel olds (news.eraseP fun new => new.label == old.label)
    else
      let rest := cancel olds news
      (old :: rest.1, rest.2)

/-- The steps on edges whose labels have nothing in common: as many as can be are changed, and the
rest is deleted or inserted. -/
def pairOff : List Strand → List Strand → List Edit
  | [], news => news.map fun new => .insertEdge new.id
  | olds, [] => olds.map fun old => .deleteEdge old.id
  | old :: olds, new :: news => .changeEdge old.id new.id :: pairOff olds news

/-- The steps on the edges between two matched vertices. -/
def bundleOperations (olds news : List Strand) : List Edit :=
  let rest := cancel (sortBy Strand.compare olds) (sortBy Strand.compare news)
  pairOff rest.1 rest.2

/-- The ends of an edge. -/
def Strand.ends (strand : Strand) : Nat × Nat :=
  (strand.one, strand.two)

/-! ## Edges -/

/-- The steps on edges. -/
def edgeOperations (old new : Graph) (m : Matching) : List Edit :=
  let olds := old.numberedEdges.filterMap (oldStrand? m)
  let news := new.numberedEdges.filterMap (newStrand? m)
  let deleted := old.numberedEdges.filter fun entry => (oldStrand? m entry).isNone
  let inserted := new.numberedEdges.filter fun entry => (newStrand? m entry).isNone
  (deleted.map fun entry => .deleteEdge entry.2) ++
    (inserted.map fun entry => .insertEdge entry.2) ++
    ((olds ++ news).map Strand.ends).eraseDups.flatMap fun ends =>
      bundleOperations (olds.filter fun strand => strand.ends == ends)
        (news.filter fun strand => strand.ends == ends)

/-! ## Order -/

/-- What steps are ordered by. -/
structure OrderKey where
  /-- Steps on vertices come before those on edges. -/
  isEdge : Nat
  firstKind : ElementKind
  first : String
  secondKind : ElementKind
  second : String
  label : String
  /-- Deletions come before changes, and those before insertions. -/
  rank : Nat
  id : Nat
  deriving DecidableEq, Repr

namespace OrderKey

/-- The order of the keys, field by field. -/
def compare : OrderKey → OrderKey → Ordering :=
  compareLex (compareOn isEdge) <|
  compareLex (compareOn firstKind) <|
  compareLex (compareOn first) <|
  compareLex (compareOn secondKind) <|
  compareLex (compareOn second) <|
  compareLex (compareOn label) <|
  compareLex (compareOn rank) (compareOn id)

/-- The key of a step on a vertex: its kind, its name, its path. -/
def ofVertex (g : Graph) (rank id : Nat) : OrderKey :=
  let v := (g.vertex? id).getD default
  ⟨0, v.kind, v.name, v.kind, v.path, "", rank, id⟩

/-- The key of a step on an edge: the places of its ends, its label. -/
def ofEdge (g : Graph) (rank id : Nat) : OrderKey :=
  let e := (g.edge? id).getD default
  let one := (g.vertex? e.one).getD default
  let two := (g.vertex? e.two).getD default
  ⟨1, one.kind, one.path, two.kind, two.path, e.label, rank, id⟩

/-- The key of a step. Deletions are looked up in the old graph and all else in the new one. -/
def ofOperation (old new : Graph) : Edit → OrderKey
  | .deleteVertex source => ofVertex old 0 source
  | .changeVertex _ target => ofVertex new 1 target
  | .insertVertex target => ofVertex new 2 target
  | .deleteEdge source => ofEdge old 0 source
  | .changeEdge _ target => ofEdge new 1 target
  | .insertEdge target => ofEdge new 2 target

end OrderKey

/-- Steps in order. -/
def ordered (old new : Graph) (operations : List Edit) : List Edit :=
  let keyed := operations.map fun operation => (OrderKey.ofOperation old new operation, operation)
  let compareKeys (a b : OrderKey × Edit) : Ordering := OrderKey.compare a.1 b.1
  (sortBy compareKeys keyed).map (·.2)

end Realization

/-- The steps that realize a matching, in order. -/
def Matching.operations (m : Matching) (old new : Graph) : List Edit :=
  Realization.ordered old new
    (Realization.vertexOperations old new m ++ Realization.edgeOperations old new m)

end SchemaDelta
