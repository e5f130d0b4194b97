import SchemaDelta.Analysis.Classification
import SchemaDelta.Change.Basic
import SchemaDelta.Edit.Script
import SchemaDelta.Graph.Build
import SchemaDelta.Sdl.Document

/-!
The comparison of two schemas from beginning to end: their graphs, the script between them, and
what the script comes to.

`Report.between` says what a comparison comes to. As it is carried out, it ends without report and
without error if the search cannot begin: that is `Report.between?`.
-/

namespace SchemaDelta

/-- Why there is no report. -/
inductive ReportError where
  /-- A text is not a schema document. -/
  | notADocument
  | graph (error : GraphError)
  | analysis (error : AnalysisError)
  deriving DecidableEq, Repr

/-- Everything that is computed on the way to a report, and the report. -/
structure Report where
  oldGraph : Graph
  newGraph : Graph
  script : Script
  diff : Delta
  deriving Inhabited

/-- The report that a script between the graphs of two type systems comes to. -/
def Report.ofScript (old new : TypeSystem) (oldGraph newGraph : Graph) (config : Config)
    (script : Script) : Except ReportError Report := do
  let comparison : Comparison := ⟨old, new, oldGraph, newGraph, config.additions, config.removals⟩
  let analysis ← (comparison.analyze script.operations).mapError .analysis
  return ⟨oldGraph, newGraph, script,
    ⟨analysis.changes, analysis.unclassified, script.approximate⟩⟩

/-- Compares two type systems. An error in the old one comes before one in the new one. A deadline
that the clock cannot tell is taken for none. -/
def Report.between (old new : TypeSystem) (config : Config) (clock : Clock) :
    Except ReportError Report := do
  let oldGraph ← (Graph.ofTypeSystem old).mapError .graph
  let newGraph ← (Graph.ofTypeSystem new).mapError .graph
  Report.ofScript old new oldGraph newGraph config (Script.between oldGraph newGraph config clock)

/-- What is reported of two type systems. -/
def Delta.between (old new : TypeSystem) (config : Config) (clock : Clock) :
    Except ReportError Delta := do
  return (← Report.between old new config clock).diff

/-- Reads a schema document. -/
def readSchema (document : String) : Except ReportError TypeSystem :=
  match TypeSystem.ofSdl? document with
  | some ts => .ok ts
  | none => .error .notADocument

/-! ## Comparisons as they are carried out -/

/-- Compares two type systems, if the search can begin. -/
def Report.between? (old new : TypeSystem) (config : Config) (clock : Clock) :
    Option (Except ReportError Report) :=
  match Graph.ofTypeSystem old, Graph.ofTypeSystem new with
  | .ok oldGraph, .ok newGraph =>
    (Script.between? oldGraph newGraph config clock).map
      (Report.ofScript old new oldGraph newGraph config)
  | .error fault, _ | .ok _, .error fault => some (.error (.graph fault))

/-- What is reported of two type systems, if the search can begin. -/
def Delta.between? (old new : TypeSystem) (config : Config) (clock : Clock) :
    Option (Except ReportError Delta) :=
  (Report.between? old new config clock).map fun report => report.map Report.diff

/-- What is reported of two schema documents, if the search can begin. -/
def Delta.betweenDocuments? (old new : String) (config : Config) (clock : Clock) :
    Option (Except ReportError Delta) :=
  match readSchema old, readSchema new with
  | .ok old, .ok new => Delta.between? old new config clock
  | .error fault, _ | .ok _, .error fault => some (.error fault)

end SchemaDelta
