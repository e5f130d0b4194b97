import SchemaDelta.Analysis.Comparison
import SchemaDelta.Analysis.Finding

/-!
What each step between two graphs comes to. It depends on the step, on the two schemas, and on
which vertices are inserted and deleted by all the steps.

Vertices inside a definition that comes or goes as a whole are not reported, unless that is asked
for, and built-in scalars never are. An edge at a vertex that comes or goes is covered by the event
of that vertex.
-/

namespace SchemaDelta

/-- How an element was revised: its old name if that is another, then the properties that differ
in the order of their keys. -/
def revisions (old new : Vertex) : List Revision :=
  (if old.name = new.name then [] else [.renamed old.name]) ++
    (old.properties.jointKeys new.properties).filterMap fun key =>
      if old.property? key = new.property? key then none
      else some (.propertyChanged ⟨key, old.property? key, new.property? key⟩)

/-- Whether a vertex is inserted or deleted by one of the steps. -/
def comesOrGoes (operations : List Edit) : Side → Nat → Bool
  | .old, id => operations.contains (.deleteVertex id)
  | .new, id => operations.contains (.insertVertex id)

namespace Comparison

/-! ## Vertices -/

/-- What an event about a vertex is about. Parts are told with the name of their owner, and those
that can be owned by parts with its path. -/
def subject (c : Comparison) (side : Side) (id : Nat) (v : Vertex) :
    Except AnalysisError Subject := do
  match v.kind with
  | .object => return .object v.name
  | .interface => return .definition .interface v.name
  | .union => return .definition .union v.name
  | .inputObject => return .definition .inputObject v.name
  | .enum => return .definition .enum v.name
  | .scalar => return .definition .scalar v.name
  | .directive => return .definition .directive v.name
  | .field => return .part .field v.name (← c.container side id v).name
  | .inputField => return .part .inputField v.name (← c.container side id v).name
  | .argument => return .part .argument v.name (← c.owner side id v).path
  | .enumValue => return .part .enumValue v.name (← c.owner side id v).name
  | .appliedDirective => return .part .appliedDirective v.name (← c.owner side id v).path

/-- Whether a vertex is inside something that comes or goes too, and need not be reported. -/
def isCovered (c : Comparison) (operations : List Edit) (side : Side) (id : Nat) : Bool :=
  !c.reportsNested side && ((c.graph side).allAncestors id).any (comesOrGoes operations side)

/-- What it comes to when a vertex comes or goes. -/
def vertexFinding (c : Comparison) (operations : List Edit) (operation : EditKind)
    (side : Side) (event : Subject → Change) (id : Nat) : Except AnalysisError Finding := do
  let v ← c.vertex operation side id
  if v.isBuiltIn || c.isCovered operations side id then return .nothing
  c.requireDefined side v
  return .change (event (← c.subject side id v))

/-- What it comes to when something is revised. -/
def revisionFinding (details : List Revision) : Subject → Finding
  | .object name => .object name (details.map .revised)
  | .definition .interface name => .interface name details
  | .definition kind name => .change (.definitionChanged kind name details)
  | .part kind name owner => .change (.partChanged kind name owner details)

/-- What it comes to when a vertex is changed. -/
def changedVertexFinding (c : Comparison) (source target : Nat) :
    Except AnalysisError Finding := do
  let old ← c.vertex .changeVertex .old source
  let new ← c.vertex .changeVertex .new target
  if old.isBuiltIn || new.isBuiltIn then return .nothing
  c.requireDefined .new new
  let details := revisions old new
  if details.isEmpty then return .nothing
  return revisionFinding details (← c.subject .new target new)

/-! ## Edges -/

/-- The record of a step on an edge for which there is no event. -/
def unclassifiedFinding (c : Comparison) (operation : EditKind) (side : Side) (e : Edge)
    (oldLabel : Option String) : Except AnalysisError Finding := do
  let one ← c.vertex operation side e.one
  let two ← c.vertex operation side e.two
  return .unclassified ⟨operation, e.label, oldLabel, one.place, two.place⟩

/-- What it comes to when an edge comes or goes, interfaces apart. -/
def edgeFinding (c : Comparison) (operations : List Edit) (operation : EditKind)
    (side : Side) (e : Edge) : Except AnalysisError Finding :=
  if comesOrGoes operations side e.one || comesOrGoes operations side e.two then .ok .nothing
  else c.unclassifiedFinding operation side e none

/-- The number of the object, the object and the interface among the ends of an edge. -/
def objectAndInterface? (e : Edge) (one two : Vertex) : Option (Nat × Vertex × Vertex) :=
  match one.kind, two.kind with
  | .object, .interface => some (e.one, one, two)
  | .interface, .object => some (e.two, two, one)
  | _, _ => none

/-- What it comes to when an edge is inserted. An object that gains an interface is changed, unless
it is itself new. -/
def insertedEdgeFinding (c : Comparison) (operations : List Edit) (target : Nat) :
    Except AnalysisError Finding := do
  let e ← c.edge .insertEdge .new target
  if Label.isImplements e.label then
    let one ← c.vertex .insertEdge .new e.one
    let two ← c.vertex .insertEdge .new e.two
    match objectAndInterface? e one two with
    | none => c.edgeFinding operations .insertEdge .new e
    | some (id, object, interface) =>
      if !c.additions && comesOrGoes operations .new id then return .nothing
      return .object object.name [.addedInterface interface.name]
  else c.edgeFinding operations .insertEdge .new e

/-- What it comes to when an edge is deleted. -/
def deletedEdgeFinding (c : Comparison) (operations : List Edit) (source : Nat) :
    Except AnalysisError Finding := do
  let e ← c.edge .deleteEdge .old source
  c.edgeFinding operations .deleteEdge .old e

/-- What it comes to when the label of an edge is changed. -/
def changedEdgeFinding (c : Comparison) (source target : Nat) : Except AnalysisError Finding := do
  let old ← c.edge .changeEdge .old source
  let new ← c.edge .changeEdge .new target
  c.unclassifiedFinding .changeEdge .new new (some old.label)

/-! ## All steps -/

/-- What a step comes to, among all the steps. -/
def finding (c : Comparison) (operations : List Edit) :
    Edit → Except AnalysisError Finding
  | .insertVertex target => c.vertexFinding operations .insertVertex .new .added target
  | .deleteVertex source => c.vertexFinding operations .deleteVertex .old .removed source
  | .changeVertex source target => c.changedVertexFinding source target
  | .insertEdge target => c.insertedEdgeFinding operations target
  | .deleteEdge source => c.deletedEdgeFinding operations source
  | .changeEdge source target => c.changedEdgeFinding source target

/-- What steps add up to. The first step that does not fit the schemas is an error. -/
def analyze (c : Comparison) (operations : List Edit) :
    Except AnalysisError Analysis := do
  return .ofFindings (← operations.mapM (c.finding operations))

end Comparison

end SchemaDelta
