import SchemaDelta.Graph.Build
import SchemaDelta.Proofs.Edit.Exchange

/-!
What matching saves. With one more pair there is a vertex less to delete and one less to insert, and
at most one change more; the edges take no more steps than before. So each pair that the search adds
to the anchors makes the script shorter, even where the search does not see the change it makes.
-/

namespace SchemaDelta

open Assignment

variable {old new : Graph} {m : Matching} {pairs : List (Nat × Nat)}

/-- Two matched vertices are changed once at most, whether their names differ or the properties
alone. -/
theorem countP_changes_le (old new : Graph) (pairs : List (Nat × Nat)) :
    pairs.countP (nameDiffers old new) + pairs.countP (propertiesAloneDiffer old new) ≤
      pairs.length := by
  induction pairs with
  | nil => exact Nat.le_refl 0
  | cons pair pairs ih =>
    have hone : ¬ (nameDiffers old new pair = true ∧ propertiesAloneDiffer old new pair = true) := by
      rintro ⟨hname, hproperties⟩
      simp [nameDiffers, propertiesAloneDiffer] at hname hproperties
      exact hname hproperties.1
    simp only [List.countP_cons, List.length_cons]
    split <;> split
    · next hname hproperties => exact absurd ⟨hname, hproperties⟩ hone
    all_goals omega

namespace Realization

section More

variable (h : m.IsCorrespondence old new) (h' : (m.extendedBy pairs).IsCorrespondence old new)

include h h'

theorem length_vertexOperations_extendedBy :
    (vertexOperations old new (m.extendedBy pairs)).length + pairs.length ≤
      (vertexOperations old new m).length := by
  have hfewer := length_vertexOperations h
  have hmore := length_vertexOperations h'
  have hchanges := countP_changes_le old new pairs
  simp only [Matching.extendedBy, List.length_append, List.countP_append] at hmore ⊢
  omega

/-- Every pair more saves at least one step. -/
theorem length_operations_extendedBy :
    ((m.extendedBy pairs).operations old new).length + pairs.length ≤
      (m.operations old new).length := by
  have hvertices := length_vertexOperations_extendedBy h h'
  have hsub : m.pairs ⊆ (m.extendedBy pairs).pairs := List.subset_append_left _ _
  have hnews {source target : Nat} (hmem : (source, target) ∈ (m.extendedBy pairs).pairs) :
      target ∈ Finset.range new.vertices.length := by
    obtain ⟨-, w, -, hw, -⟩ := h'.kinds hmem
    exact Finset.mem_range.2 (List.getElem?_eq_some_iff.1 hw).1
  have hedges := edgeCost_le h'.isOneToOne hsub old new old.vertexPairs hnews
  rw [length_operations h, length_operations h']
  unfold Graph.vertexPairs at hedges ⊢
  omega

end More

end Realization

namespace Unanchored

/-- Nothing is matched where everything is left unmatched. -/
theorem pairs_replicate_unmatched (old new : Graph) (n : Nat) :
    Unanchored.pairs old new (List.replicate n .unmatched) = [] := by
  rw [List.eq_nil_iff_forall_not_mem]
  rintro ⟨source, target⟩ hmem
  obtain ⟨position, candidate, -, hchoice, -⟩ := mem_pairs.1 hmem
  cases List.eq_of_mem_replicate (List.mem_of_getElem? hchoice)

end Unanchored

theorem Matching.ofAssignment_eq_anchors {assignment : List Choice}
    (h : Unanchored.pairs old new assignment = []) :
    Matching.ofAssignment old new assignment = .anchors old new := by
  rw [ofAssignment, h, extendedBy, List.append_nil]

/-- Only a search that is given up comes to an approximate script, and that is the one of the
anchors. -/
theorem Script.CanBe.cost_of_approximate {config : Config} {clock : Clock} {exhausted : Bool}
    {script : Script} (h : Script.CanBe old new config clock exhausted script)
    (happroximate : script.approximate = true) :
    script.cost = ((Matching.anchors old new).operations old new).length := by
  obtain ⟨found, -, rfl⟩ := h
  cases found with
  | none => rfl
  | some _ => cases happroximate

/-- Whatever the schedule of the workers, a search that is not given up saves at least as many steps
as it matches vertices, compared with a search between the same graphs that is given up. Both
scripts have as many steps as their assignments cost, but for a number that is common to both and
for the pairs of which the properties alone change: they take a step, and the search does not count
it. -/
theorem every_match_saves_a_step {config config' : Config} {clock clock' : Clock}
    {exhausted exhausted' : Bool} {assignment : List Choice} {given : Script}
    (hfound : (Unanchored.problem old new).Outcome config.workers (config.budget.allows clock)
      exhausted (some assignment))
    (hgiven : Script.CanBe old new config' clock' exhausted' given)
    (happroximate : given.approximate = true) :
    let found := Script.ofFound old new (some assignment)
    let pairs := Unanchored.pairs old new assignment
    found.cost + pairs.length ≤ given.cost ∧
    (found.cost = given.cost ↔ pairs = []) ∧
    ∃ common, found.cost = (Unanchored.problem old new).cost assignment + common +
        pairs.countP (propertiesAloneDiffer old new) ∧
      given.cost = (Unanchored.problem old new).start.cost + common := by
  intro found pairs
  have hassignment := hfound.isBest.1.isAssignment
  have hcost := hgiven.cost_of_approximate happroximate
  have hsaved : found.cost + pairs.length ≤ given.cost := by
    rw [hcost]
    exact Realization.length_operations_extendedBy (Matching.anchors_isCorrespondence old new)
      (Matching.ofAssignment_isCorrespondence hassignment)
  refine ⟨hsaved, ⟨fun heq => ?_, fun hnone => ?_⟩, Unanchored.commonCost old new,
    Unanchored.length_operations hassignment, ?_⟩
  · rw [← List.length_eq_zero_iff]
    omega
  · rw [hcost, ← Matching.ofAssignment_eq_anchors hnone]
    rfl
  · -- the anchors are what is left where everything searched stays unmatched
    have hnone := Unanchored.pairs_replicate_unmatched old new
      (Unanchored.problem old new).olds.length
    have hlength := Unanchored.length_operations
      (Problem.isFeasible_replicate_unmatched (Unanchored.problem old new)).isAssignment
    rw [Matching.ofAssignment_eq_anchors hnone, hnone] at hlength
    exact hcost.trans hlength

set_option maxRecDepth 20000 in
/-- A type is renamed, and its field described: the two pairs save six of eight steps. -/
theorem every_match_saves_a_step_of_a_renamed_type_with_a_described_field :
    let system (name : String) (description : Option String) : TypeSystem :=
      ⟨⟨[⟨name, none, [], .object [] [⟨"f", .named "Int", [], description, []⟩]⟩],
        List.nodup_singleton name⟩, .empty⟩
    let old := (Graph.ofTypeSystem (system "A" none)).toOption.getD default
    let new := (Graph.ofTypeSystem (system "B" (some "d"))).toOption.getD default
    let assignment : List Choice := [.candidate 0, .candidate 1]
    let found := Script.ofFound old new (some assignment)
    ∃ given : Script, (∃ exhausted, (Unanchored.problem old new).Outcome Config.standard.workers
        (Config.standard.budget.allows .stopped) exhausted (some assignment)) ∧
      (∃ exhausted, Script.CanBe old new { Config.standard with budget := ⟨0, none⟩ } .stopped
        exhausted given) ∧ given.approximate = true ∧
      (Unanchored.pairs old new assignment).length = 2 ∧ found.cost = 2 ∧ given.cost = 8 ∧
      found.cost + 2 ≤ given.cost := by
  intro system old new assignment found
  have hbest : (Unanchored.problem old new).best? Config.standard.workers
      (Config.standard.budget.allows .stopped) = some assignment := by
    decide
  obtain ⟨exhausted, hfound⟩ := (Unanchored.problem old new).exists_outcome_best?
    Config.standard.workers (Config.standard.budget.allows .stopped)
  obtain ⟨exhausted', hgiven⟩ := Script.exists_canBe_between old new
    { Config.standard with budget := ⟨0, none⟩ } .stopped
  rw [hbest] at hfound
  have happroximate : (Script.between old new { Config.standard with budget := ⟨0, none⟩ }
      .stopped).approximate = true := by
    decide
  have hpairs : (Unanchored.pairs old new assignment).length = 2 := by decide
  refine ⟨_, ⟨exhausted, hfound⟩, ⟨exhausted', hgiven⟩, happroximate, hpairs, by decide, by decide,
    ?_⟩
  rw [← hpairs]
  exact (every_match_saves_a_step hfound hgiven happroximate).1

end SchemaDelta
