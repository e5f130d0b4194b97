import SchemaDelta.Analysis.Classification

/-!
The telling of steps, one after the other. The vertices that come or go are marked first; then each
step adds to what is told: an event by itself, details under the name of an object or an interface,
or an edge for which there is no event. The telling stops at the first step that does not fit the
schemas.

`SchemaDelta.Analysis.Classification` says what comes of it.
-/

namespace SchemaDelta

/-- Puts details under a name, after those that are there. A new name comes last. -/
def putUnder {δ : Type} (name : String) (details : List δ) :
    List (String × List δ) → List (String × List δ)
  | [] => [(name, details)]
  | entry :: rest =>
    if entry.1 = name then (name, entry.2 ++ details) :: rest
    else entry :: putUnder name details rest

/-- What is known and what is told after some of the steps. -/
structure Analyzer where
  /-- The new vertices that come with one of all the steps. -/
  inserted : List Nat
  /-- The old vertices that go. -/
  deleted : List Nat
  changes : List Change
  objects : List (String × List ObjectDetail)
  interfaces : List (String × List Revision)
  unclassified : List EdgeRecord
  deriving DecidableEq, Repr, Inhabited

namespace Analyzer

/-- Before the first step. -/
def empty : Analyzer :=
  ⟨[], [], [], [], [], []⟩

/-! ## Marks -/

/-- Marks the vertex that a step inserts or deletes. -/
def mark (a : Analyzer) : Edit → Analyzer
  | .insertVertex target => { a with inserted := target :: a.inserted }
  | .deleteVertex source => { a with deleted := source :: a.deleted }
  | _ => a

/-- Whether a vertex is marked. -/
def isMarked (a : Analyzer) : Side → Nat → Bool
  | .old, id => a.deleted.contains id
  | .new, id => a.inserted.contains id

/-! ## Telling -/

/-- Tells an event. -/
def tell (a : Analyzer) (event : Change) : Analyzer :=
  { a with changes := a.changes ++ [event] }

/-- Tells something about an object. -/
def tellObject (a : Analyzer) (name : String) (details : List ObjectDetail) : Analyzer :=
  { a with objects := putUnder name details a.objects }

/-- Tells something about an interface. -/
def tellInterface (a : Analyzer) (name : String) (details : List Revision) : Analyzer :=
  { a with interfaces := putUnder name details a.interfaces }

/-- Keeps an edge for which there is no event. -/
def keep (a : Analyzer) (edge : EdgeRecord) : Analyzer :=
  { a with unclassified := a.unclassified ++ [edge] }

/-- Tells how something was revised. -/
def tellRevised (a : Analyzer) (details : List Revision) : Subject → Analyzer
  | .object name => a.tellObject name (details.map .revised)
  | .definition .interface name => a.tellInterface name details
  | .definition kind name => a.tell (.definitionChanged kind name details)
  | .part kind name owner => a.tell (.partChanged kind name owner details)

/-! ## Steps -/

/-- A vertex comes or goes. -/
def vertexStep (c : Comparison) (a : Analyzer) (operation : EditKind) (side : Side)
    (event : Subject → Change) (id : Nat) : Except AnalysisError Analyzer := do
  let v ← c.vertex operation side id
  if v.isBuiltIn then return a
  if !c.reportsNested side && ((c.graph side).allAncestors id).any (a.isMarked side) then return a
  c.requireDefined side v
  return a.tell (event (← c.subject side id v))

/-- A vertex is changed. -/
def changedVertexStep (c : Comparison) (a : Analyzer) (source target : Nat) :
    Except AnalysisError Analyzer := do
  let old ← c.vertex .changeVertex .old source
  let new ← c.vertex .changeVertex .new target
  if old.isBuiltIn || new.isBuiltIn then return a
  c.requireDefined .new new
  let details := revisions old new
  if details.isEmpty then return a
  return a.tellRevised details (← c.subject .new target new)

/-- An edge is kept, with the places of its ends. -/
def unclassifiedStep (c : Comparison) (a : Analyzer) (operation : EditKind) (side : Side) (e : Edge)
    (oldLabel : Option String) : Except AnalysisError Analyzer := do
  let one ← c.vertex operation side e.one
  let two ← c.vertex operation side e.two
  return a.keep ⟨operation, e.label, oldLabel, one.place, two.place⟩

/-- An edge comes or goes, interfaces apart. -/
def edgeStep (c : Comparison) (a : Analyzer) (operation : EditKind) (side : Side) (e : Edge) :
    Except AnalysisError Analyzer :=
  if a.isMarked side e.one || a.isMarked side e.two then .ok a
  else a.unclassifiedStep c operation side e none

/-- An edge comes that says that something implements something. -/
def implementsStep (c : Comparison) (a : Analyzer) (e : Edge) : Except AnalysisError Analyzer := do
  let one ← c.vertex .insertEdge .new e.one
  let two ← c.vertex .insertEdge .new e.two
  match Comparison.objectAndInterface? e one two with
  | none => a.edgeStep c .insertEdge .new e
  | some (id, object, interface) =>
    if !c.additions && a.isMarked .new id then return a
    return a.tellObject object.name [.addedInterface interface.name]

/-- An edge comes. -/
def insertedEdgeStep (c : Comparison) (a : Analyzer) (target : Nat) :
    Except AnalysisError Analyzer := do
  let e ← c.edge .insertEdge .new target
  if Label.isImplements e.label then a.implementsStep c e
  else a.edgeStep c .insertEdge .new e

/-- An edge goes. -/
def deletedEdgeStep (c : Comparison) (a : Analyzer) (source : Nat) :
    Except AnalysisError Analyzer := do
  let e ← c.edge .deleteEdge .old source
  a.edgeStep c .deleteEdge .old e

/-- The label of an edge is changed. -/
def changedEdgeStep (c : Comparison) (a : Analyzer) (source target : Nat) :
    Except AnalysisError Analyzer := do
  let old ← c.edge .changeEdge .old source
  let new ← c.edge .changeEdge .new target
  a.unclassifiedStep c .changeEdge .new new (some old.label)

/-- Goes on by one step. -/
def step (c : Comparison) (a : Analyzer) : Edit → Except AnalysisError Analyzer
  | .insertVertex target => a.vertexStep c .insertVertex .new .added target
  | .deleteVertex source => a.vertexStep c .deleteVertex .old .removed source
  | .changeVertex source target => a.changedVertexStep c source target
  | .insertEdge target => a.insertedEdgeStep c target
  | .deleteEdge source => a.deletedEdgeStep c source
  | .changeEdge source target => a.changedEdgeStep c source target

/-- All that is told, the objects and the interfaces after the other events. -/
def analysis (a : Analyzer) : Analysis where
  changes :=
    a.changes ++ a.objects.map (fun (name, details) => .objectChanged name details)
      ++ a.interfaces.map fun (name, details) => .definitionChanged .interface name details
  unclassified := a.unclassified

end Analyzer

/-- Tells steps one after the other. -/
def Comparison.analyzeInTurn (c : Comparison) (operations : List Edit) :
    Except AnalysisError Analysis := do
  let marked := operations.foldl Analyzer.mark .empty
  return (← operations.foldlM (Analyzer.step c) marked).analysis

end SchemaDelta
