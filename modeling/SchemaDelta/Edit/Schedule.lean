import SchemaDelta.Assignment.Pool
import SchemaDelta.Edit.Script

/-!
The scripts and matchings that workers can come to, in whatever order they make their steps.
-/

namespace SchemaDelta.Script

/-- The script that an assignment stands for; without one, that of the anchors alone. -/
def ofFound (old new : Graph) : Option (List Assignment.Choice) → Script
  | some assignment => ⟨(Matching.ofAssignment old new assignment).operations old new, false⟩
  | none => ⟨(Matching.anchors old new).operations old new, true⟩

/-- Whether the workers can come to a script, and be refused a branch or not on the way. -/
def CanBe (old new : Graph) (config : Config) (clock : Clock) (exhausted : Bool) (script : Script) :
    Prop :=
  ∃ found, (Unanchored.problem old new).Outcome config.workers (config.budget.allows clock)
    exhausted found ∧ script = ofFound old new found

theorem between_eq_ofFound (old new : Graph) (config : Config) (clock : Clock) :
    between old new config clock = ofFound old new
      ((Unanchored.problem old new).best? config.workers (config.budget.allows clock)) := by
  unfold between Matching.searched?
  cases (Unanchored.problem old new).best? config.workers (config.budget.allows clock) <;> rfl

end SchemaDelta.Script

namespace SchemaDelta

/-- Whether the workers can come to a matching at the end of their search, none of them refused a
branch. -/
def Matching.CanBeFound (old new : Graph) (config : Config) (clock : Clock) (m : Matching) : Prop :=
  ∃ exhausted assignment, (Unanchored.problem old new).Outcome config.workers
    (config.budget.allows clock) exhausted (some assignment) ∧ m = .ofAssignment old new assignment

/-- The matching that a script realizes: what the search arrives at, or the anchors if it is given
up. -/
def Matching.between (old new : Graph) (config : Config) (clock : Clock) : Matching :=
  (searched? old new config clock).getD (anchors old new)

end SchemaDelta
