/-!
The steps that turn an old graph into a new one, and scripts of them. Sources are numbers of
vertices or edges of the old graph, and targets of the new one.
-/

namespace SchemaDelta

/-- One step. -/
inductive Edit where
  | insertVertex (target : Nat)
  | deleteVertex (source : Nat)
  | changeVertex (source target : Nat)
  | insertEdge (target : Nat)
  | deleteEdge (source : Nat)
  | changeEdge (source target : Nat)
  deriving DecidableEq, Repr, Inhabited

/-- The kinds of steps. -/
inductive EditKind where
  | insertVertex | deleteVertex | changeVertex | insertEdge | deleteEdge | changeEdge
  deriving DecidableEq, Repr, Inhabited

namespace EditKind

/-- All kinds of steps. -/
def all : List EditKind :=
  [insertVertex, deleteVertex, changeVertex, insertEdge, deleteEdge, changeEdge]

/-- The name of a kind in messages and documents. -/
def text : EditKind → String
  | insertVertex => "INSERT_VERTEX"
  | deleteVertex => "DELETE_VERTEX"
  | changeVertex => "CHANGE_VERTEX"
  | insertEdge => "INSERT_EDGE"
  | deleteEdge => "DELETE_EDGE"
  | changeEdge => "CHANGE_EDGE"

/-- The kind of a name. -/
def ofText? (name : String) : Option EditKind :=
  all.find? fun kind => kind.text == name

theorem ofText?_text (kind : EditKind) : ofText? kind.text = some kind := by
  cases kind <;> decide

end EditKind

/-- The kind of a step. -/
def Edit.kind : Edit → EditKind
  | insertVertex _ => .insertVertex
  | deleteVertex _ => .deleteVertex
  | changeVertex _ _ => .changeVertex
  | insertEdge _ => .insertEdge
  | deleteEdge _ => .deleteEdge
  | changeEdge _ _ => .changeEdge

/-- The steps from one graph to another, in order. -/
structure Script where
  operations : List Edit
  /-- The search was given up, so that the script may be longer than it has to be. -/
  approximate : Bool
  deriving DecidableEq, Repr, Inhabited

namespace Script

/-- What a script costs: one for each step. -/
def cost (script : Script) : Nat :=
  script.operations.length

/-- Whether a script has no steps. -/
def isEmpty (script : Script) : Bool :=
  script.operations.isEmpty

end Script

end SchemaDelta
