import SchemaDelta.Config
import SchemaDelta.Edit.Operation
import SchemaDelta.Graph.Basic
import SchemaDelta.Schema.TypeSystem

/-!
Two schemas side by side, as the steps between their graphs are looked up in them.
-/

namespace SchemaDelta

/-- One of the two schemas. -/
inductive Side where
  | old | new
  deriving DecidableEq, Repr, Inhabited

/-- The name of a side in messages. -/
def Side.text : Side → String
  | old => "old"
  | new => "new"

/-- Why steps cannot be told as events: they do not fit the schemas. -/
inductive AnalysisError where
  | missingVertex (operation : EditKind) (id : Nat) (side : Side)
  | missingEdge (operation : EditKind) (id : Nat) (side : Side)
  /-- A part of a definition has no owner. -/
  | missingContainer (place : Place) (side : Side)
  /-- A definition is in the graph of a schema and not in its type system. -/
  | undefinedType (kind : ElementKind) (name : String) (side : Side)
  deriving DecidableEq, Repr

/-- What went wrong, in words. -/
def AnalysisError.message : AnalysisError → String
  | missingVertex operation id side =>
    operation.text ++ " references the vertex v" ++ toString id ++ ", which is not in the " ++
      side.text ++ " graph"
  | missingEdge operation id side =>
    operation.text ++ " references the edge e" ++ toString id ++ ", which is not in the " ++
      side.text ++ " graph"
  | missingContainer place side =>
    "The " ++ place.kind.text ++ " " ++ place.path ++ " has no parent in the " ++ side.text ++
      " graph"
  | undefinedType kind name side =>
    "The " ++ kind.text ++ " " ++ name ++ " is not defined in the " ++ side.text ++ " type system"

/-- Two schemas with their graphs, and what is to be reported. -/
structure Comparison where
  oldSystem : TypeSystem
  newSystem : TypeSystem
  oldGraph : Graph
  newGraph : Graph
  /-- Report what is inside added definitions too. -/
  additions : Bool
  /-- Report what is inside removed definitions too. -/
  removals : Bool
  deriving Inhabited

namespace Comparison

/-- The type system of a side. -/
def system (c : Comparison) : Side → TypeSystem
  | .old => c.oldSystem
  | .new => c.newSystem

/-- The graph of a side. -/
def graph (c : Comparison) : Side → Graph
  | .old => c.oldGraph
  | .new => c.newGraph

/-- Whether what is inside definitions is reported when they come or go on a side. -/
def reportsNested (c : Comparison) : Side → Bool
  | .old => c.removals
  | .new => c.additions

/-- The vertex of a number. -/
def vertex (c : Comparison) (operation : EditKind) (side : Side) (id : Nat) :
    Except AnalysisError Vertex :=
  match (c.graph side).vertex? id with
  | some v => .ok v
  | none => .error (.missingVertex operation id side)

/-- The edge of a number. -/
def edge (c : Comparison) (operation : EditKind) (side : Side) (id : Nat) :
    Except AnalysisError Edge :=
  match (c.graph side).edge? id with
  | some e => .ok e
  | none => .error (.missingEdge operation id side)

/-- The owner of a vertex. -/
def owner (c : Comparison) (side : Side) (id : Nat) (v : Vertex) : Except AnalysisError Vertex :=
  match ((c.graph side).owner? id).bind (c.graph side).vertex? with
  | some owner => .ok owner
  | none => .error (.missingContainer v.place side)

/-- The object, interface or input object that owns a field. -/
def container (c : Comparison) (side : Side) (id : Nat) (v : Vertex) :
    Except AnalysisError Vertex :=
  match ((c.graph side).fieldOwner? id).bind (c.graph side).vertex? with
  | some owner => .ok owner
  | none => .error (.missingContainer v.place side)

/-- Whether the type system of a side knows a vertex. Parts of definitions it need not know. -/
def isDefined (c : Comparison) (side : Side) (v : Vertex) : Bool :=
  if v.kind.isType then ((c.system side).type? v.name).isSome
  else if v.kind = .directive then ((c.system side).directive? v.name).isSome
  else true

/-- Fails for a vertex that the type system of its side does not know. -/
def requireDefined (c : Comparison) (side : Side) (v : Vertex) : Except AnalysisError Unit :=
  if c.isDefined side v then .ok () else .error (.undefinedType v.kind v.name side)

end Comparison

end SchemaDelta
