import SchemaDelta.Assignment.Sharing
import SchemaDelta.Edit.Matching

/-!
What the anchors leave over. Vertices without a counterpart at their place are searched if there
are such vertices of their kind on the other side too; the others can only be deleted or inserted.
-/

namespace SchemaDelta.Unanchored

open Assignment

/-- The order in which vertices are searched. -/
def compareVertices (g : Graph) : Nat → Nat → Ordering :=
  let vertex (id : Nat) : Vertex := (g.vertex? id).getD default
  compareLex (compareOn fun id => (vertex id).kind)
    (compareLex (compareOn fun id => (vertex id).name) (compareOn fun id => (vertex id).path))

/-- The vertices of one graph that are not anchored and of a kind with such vertices in the other
graph, in their order. -/
def searched (g other : Graph) (isAnchored isAnchoredThere : Nat → Bool) : List Nat :=
  let kind? (g : Graph) (id : Nat) : Option ElementKind := (g.vertex? id).map Vertex.kind
  let kinds := (other.vertexIds.filter fun id => !isAnchoredThere id).map (kind? other)
  sortBy (compareVertices g)
    (g.vertexIds.filter fun id => !isAnchored id && kinds.contains (kind? g id))

/-- The searched vertices of the old graph. -/
def oldSearched (old new : Graph) : List Nat :=
  let anchors := Matching.anchors old new
  searched old new (fun id => (anchors.image? id).isSome) (fun id => (anchors.preimage? id).isSome)

/-- The searched vertices of the new graph. -/
def newSearched (old new : Graph) : List Nat :=
  let anchors := Matching.anchors old new
  searched new old (fun id => (anchors.preimage? id).isSome) (fun id => (anchors.image? id).isSome)

/-- The role of a vertex, given the old vertex of its anchor and the searched vertices. -/
def role (anchor? : Nat → Option Nat) (searched : List Nat) (id : Nat) : Role :=
  match anchor? id with
  | some source => .anchored source
  | none =>
    match searched.idxOf? id with
    | some position => .searched position
    | none => .fixed

/-- The edges of a vertex as it sees them, with the roles of their other ends. -/
def ties (g : Graph) (role : Nat → Role) (id : Nat) : List Tie :=
  let outgoing : List Tie :=
    (g.edges.filter fun e => e.one == id).map fun e => ⟨true, role e.two, e.label⟩
  let incoming : List Tie :=
    (g.edges.filter fun e => e.two == id && e.one != id).map fun e => ⟨false, role e.one, e.label⟩
  (outgoing ++ incoming).filter fun tie => tie.other != .fixed

/-- A searched vertex as an element of the assignment problem. -/
def member (g : Graph) (role : Nat → Role) (id : Nat) : Member :=
  let v := (g.vertex? id).getD default
  ⟨v.kind, v.name, (g.owner? id).map role, ties g role id⟩

/-- The problem of assigning the searched vertices. -/
def problem (old new : Graph) : Problem :=
  let anchors := Matching.anchors old new
  let olds := oldSearched old new
  let news := newSearched old new
  let oldRole := role (fun id => (anchors.image? id).map fun _ => id) olds
  let newRole := role anchors.preimage? news
  ⟨olds.map (member old oldRole), news.map (member new newRole)⟩

/-- The pairs of vertices that an assignment stands for. -/
def pairs (old new : Graph) (assignment : List Choice) : List (Nat × Nat) :=
  let news := newSearched old new
  ((oldSearched old new).zip assignment).filterMap fun (source, choice) =>
    match choice with
    | .unmatched => none
    | .candidate position => (news[position]?).map fun target => (source, target)

end SchemaDelta.Unanchored
