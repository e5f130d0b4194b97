import SchemaDelta.Proofs.Assignment.Labels
import SchemaDelta.Proofs.Edit.Agreement
import SchemaDelta.Proofs.Edit.Choices
import SchemaDelta.Proofs.Edit.Schedules

/-!
Scripts there and back. A matching read the other way round is one between the graphs in the other
order, and takes as many steps, if those that change properties alone are not counted. The search
does not see such steps, and what it takes into account in one direction is what it takes into
account in the other; so it comes to the same number of steps in both.
-/

namespace SchemaDelta

open Assignment

theorem Assignment.labelCost_comm (old new : List String) : labelCost old new = labelCost new old := by
  unfold labelCost
  rw [length_commonLabels, length_commonLabels, Multiset.inter_comm, Nat.max_comm]

/-! ## Weights -/

/-- Whether a step changes a vertex into one of its name, so that the properties alone differ. -/
def Edit.keepsName (old new : Graph) : Edit → Bool
  | .changeVertex source target =>
    ((old.vertex? source).getD default).name == ((new.vertex? target).getD default).name
  | _ => false

/-- How many of some steps do more than change properties. -/
def Edit.weight (old new : Graph) (operations : List Edit) : Nat :=
  operations.countP fun operation => !operation.keepsName old new

variable {old new : Graph} {m m' : Matching} {source target : Nat}

theorem countP_keepsName_stepsOf (old new : Graph) (m : Matching) (edges : Settlement Nat) :
    (stepsOf (Realization.vertexSettlement old new m) edges).countP (Edit.keepsName old new) =
      m.pairs.countP (propertiesAloneDiffer old new) := by
  have hnone {α : Type} (as : List α) : as.countP (fun _ => false) = 0 := by simp
  have hchanged (pair : Nat × Nat) : ((Edit.changeVertex pair.1 pair.2).keepsName old new &&
      !decide (((old.vertex? pair.1).getD default).Agrees ((new.vertex? pair.2).getD default))) =
        propertiesAloneDiffer old new pair := by
    by_cases hname : ((old.vertex? pair.1).getD default).name =
        ((new.vertex? pair.2).getD default).name
    · simp [Edit.keepsName, Vertex.Agrees, propertiesAloneDiffer, hname, bne, beq_eq_decide]
    · simp [Edit.keepsName, propertiesAloneDiffer, beq_false_of_ne hname]
  -- of the steps on edges, and of deletions and insertions, none keeps a name
  simp only [stepsOf, Settlement.steps, Realization.vertexSettlement, List.countP_append,
    List.countP_map, Function.comp_def, List.countP_filter, hchanged]
  simp only [Edit.keepsName, Bool.false_and, hnone, Nat.add_zero]

theorem weight_add_countP (h : m.IsCorrespondence old new) :
    Edit.weight old new (m.operations old new) + m.pairs.countP (propertiesAloneDiffer old new) =
      (m.operations old new).length := by
  obtain ⟨edges, -, hperm⟩ := h.exists_operations_perm
  have hsplit : (m.operations old new).length = _ :=
    List.length_eq_countP_add_countP (Edit.keepsName old new)
  rw [← countP_keepsName_stepsOf old new m edges, ← hperm.countP_eq, hsplit, Nat.add_comm]
  simp [Edit.weight]

/-- Whatever is not matched comes or goes, and matched vertices weigh if their names differ. -/
theorem weight_eq (h : m.IsCorrespondence old new) :
    Edit.weight old new (m.operations old new) + 2 * m.pairs.length =
      old.vertices.length + new.vertices.length + m.pairs.countP (nameDiffers old new) +
        (∑ pair ∈ old.vertexPairs, m.pairCost old new pair +
          ∑ pair ∈ new.vertexPairs, m.insertionCost new pair) := by
  have hweight := weight_add_countP h
  have hlength := Realization.length_operations h
  have hvertices := Realization.length_vertexOperations h
  omega

/-- Matchings with the same pairs, in whatever order, weigh the same. -/
theorem weight_congr (h : m.IsCorrespondence old new) (h' : m'.IsCorrespondence old new)
    (hpairs : ∀ {source target : Nat}, (source, target) ∈ m.pairs ↔ (source, target) ∈ m'.pairs) :
    Edit.weight old new (m.operations old new) = Edit.weight old new (m'.operations old new) := by
  have hperm : m.pairs.Perm m'.pairs :=
    (List.perm_ext_iff_of_nodup (.of_map _ h.isOneToOne.sources)
      (.of_map _ h'.isOneToOne.sources)).2 fun _ => hpairs
  have himage (id : Nat) : m.image? id = m'.image? id := by
    ext target
    rw [h.isOneToOne.image?_eq_some_iff, h'.isOneToOne.image?_eq_some_iff, hpairs]
  have hpreimage (id : Nat) : m.preimage? id = m'.preimage? id := by
    ext source
    rw [h.isOneToOne.preimage?_eq_some_iff, h'.isOneToOne.preimage?_eq_some_iff, hpairs]
  have hweight := weight_eq h
  have hweight' := weight_eq h'
  simp only [Matching.pairCost, Matching.insertionCost, himage, hpreimage, hperm.length_eq,
    hperm.countP_eq] at hweight hweight'
  omega

/-! ## The other way round -/

namespace Matching

/-- A matching read the other way round. -/
def reversed (m : Matching) : Matching :=
  ⟨m.pairs.map Prod.swap⟩

@[simp]
theorem reversed_reversed (m : Matching) : m.reversed.reversed = m := by
  simp [reversed]

theorem mem_reversed : (target, source) ∈ m.reversed.pairs ↔ (source, target) ∈ m.pairs := by
  simp [reversed]

@[simp]
theorem image?_reversed (m : Matching) (id : Nat) : m.reversed.image? id = m.preimage? id := by
  simp [image?, preimage?, reversed, List.find?_map, Function.comp_def]

@[simp]
theorem preimage?_reversed (m : Matching) (id : Nat) : m.reversed.preimage? id = m.image? id := by
  rw [← image?_reversed, reversed_reversed]

theorem mem_anchors_swap : (target, source) ∈ (anchors new old).pairs ↔
    (source, target) ∈ (anchors old new).pairs := by
  rw [mem_anchors, mem_anchors]
  constructor <;> exact fun ⟨v, w, hv, hw, hplace⟩ => ⟨w, v, hw, hv, hplace.symm⟩

theorem IsCorrespondence.reversed (h : m.IsCorrespondence old new) :
    m.reversed.IsCorrespondence new old where
  isOneToOne := by
    refine ⟨?_, ?_⟩
    · simpa [Matching.reversed, Function.comp_def] using h.isOneToOne.targets
    · simpa [Matching.reversed, Function.comp_def] using h.isOneToOne.sources
  kinds hmem := by
    obtain ⟨v, w, hv, hw, hkind⟩ := h.kinds (mem_reversed.1 hmem)
    exact ⟨w, v, hw, hv, hkind.symm⟩
  places hv hw hplace := mem_reversed.2 (h.places hw hv hplace.symm)

theorem KeepsOwners.reversed (h : m.KeepsOwners old new) : m.reversed.KeepsOwners new old := by
  intro target source hmem hout
  rcases h source target (mem_reversed.1 hmem) (mt mem_anchors_swap.2 hout) with
    ⟨hnone, hnone'⟩ | ⟨owner, owner', howner, howner', hpair⟩
  · exact Or.inl ⟨hnone', hnone⟩
  · exact Or.inr ⟨owner', owner, howner', howner, mem_reversed.2 hpair⟩

end Matching

namespace Realization

theorem bothMatched_reversed (m : Matching) (pair : Nat × Nat) :
    bothMatched m.reversed pair =
      ((m.preimage? pair.1).isSome && (m.preimage? pair.2).isSome) := by
  simp [bothMatched]

/-- The counterparts of matched vertices are matched vertices, whose counterparts they are. -/
theorem preimage?_counterparts (h : m.IsOneToOne) {pair : Nat × Nat}
    (hpair : bothMatched m pair = true) : m.preimage? (counterparts m pair).1 = some pair.1 ∧
      m.preimage? (counterparts m pair).2 = some pair.2 := by
  obtain ⟨hone, htwo⟩ := counterparts_of_bothMatched hpair
  exact ⟨h.preimage?_eq_some_iff.2 (Matching.mem_of_image? hone),
    h.preimage?_eq_some_iff.2 (Matching.mem_of_image? htwo)⟩

theorem counterparts_counterparts (h : m.IsOneToOne) {pair : Nat × Nat}
    (hpair : bothMatched m pair = true) : counterparts m.reversed (counterparts m pair) = pair := by
  obtain ⟨hone, htwo⟩ := preimage?_counterparts h hpair
  simp [counterparts, Matching.image?_reversed] at hone htwo ⊢
  simp [hone, htwo]

theorem counterparts_mem (h : m.IsCorrespondence old new) {pair : Nat × Nat}
    (hpair : pair ∈ old.vertexPairs.filter fun pair => bothMatched m pair = true) :
    counterparts m pair ∈
      new.vertexPairs.filter fun pair => bothMatched m.reversed pair = true := by
  have hboth := (Finset.mem_filter.1 hpair).2
  have hlt {id : Nat} {source : Nat} (hpreimage : m.preimage? id = some source) :
      id ∈ Finset.range new.vertices.length := by
    obtain ⟨-, w, -, hw, -⟩ := h.kinds (Matching.mem_of_preimage? hpreimage)
    exact Finset.mem_range.2 (List.getElem?_eq_some_iff.1 hw).1
  obtain ⟨hone, htwo⟩ := preimage?_counterparts h.isOneToOne hboth
  refine Finset.mem_filter.2 ⟨Finset.mem_product.2 ⟨hlt hone, hlt htwo⟩, ?_⟩
  rw [bothMatched_reversed, hone, htwo]
  rfl

theorem pairCost_counterparts (h : m.IsOneToOne) {pair : Nat × Nat}
    (hpair : bothMatched m pair = true) :
    m.pairCost old new pair = m.reversed.pairCost new old (counterparts m pair) := by
  obtain ⟨hone, htwo⟩ := counterparts_of_bothMatched hpair
  obtain ⟨hone', htwo'⟩ := preimage?_counterparts h hpair
  simp only [Matching.pairCost, Matching.image?_reversed, hone, htwo, hone', htwo']
  exact labelCost_comm _ _

/-- The edges between matched vertices take as many steps the other way round. -/
theorem sum_pairCost_reversed (h : m.IsCorrespondence old new) :
    ∑ pair ∈ old.vertexPairs.filter (fun pair => bothMatched m pair = true),
        m.pairCost old new pair =
      ∑ pair ∈ new.vertexPairs.filter (fun pair => bothMatched m.reversed pair = true),
        m.reversed.pairCost new old pair := by
  refine Finset.sum_nbij' (counterparts m) (counterparts m.reversed)
    (fun pair hpair => counterparts_mem h hpair) (fun pair hpair => ?_)
    (fun pair hpair => counterparts_counterparts h.isOneToOne (Finset.mem_filter.1 hpair).2)
    (fun pair hpair => ?_)
    fun pair hpair => pairCost_counterparts h.isOneToOne (Finset.mem_filter.1 hpair).2
  · have hmem := counterparts_mem h.reversed hpair
    rwa [Matching.reversed_reversed] at hmem
  · have hback := counterparts_counterparts h.reversed.isOneToOne (Finset.mem_filter.1 hpair).2
    rwa [Matching.reversed_reversed] at hback

/-- What is deleted one way is inserted the other way. -/
theorem sum_insertionCost_reversed (old : Graph) (m : Matching) :
    ∑ pair ∈ old.vertexPairs, m.reversed.insertionCost old pair =
      ∑ pair ∈ old.vertexPairs.filter (fun pair => (!bothMatched m pair) = true),
        (old.labelsBetween pair.1 pair.2).length := by
  rw [sum_insertionCost]
  exact Finset.sum_congr (Finset.filter_congr fun pair _ => by
    rw [Matching.preimage?_reversed, Matching.preimage?_reversed, bothMatched]) fun _ _ => rfl

end Realization

theorem weight_reversed (h : m.IsCorrespondence old new) :
    Edit.weight new old (m.reversed.operations new old) =
      Edit.weight old new (m.operations old new) := by
  have hweight := weight_eq h
  have hback := weight_eq h.reversed
  have hlength : m.reversed.pairs.length = m.pairs.length := List.length_map _
  have hnames : m.reversed.pairs.countP (nameDiffers new old) =
      m.pairs.countP (nameDiffers old new) := by
    rw [Matching.reversed, List.countP_map]
    refine List.countP_congr fun pair _ => ?_
    simp only [Function.comp_apply, nameDiffers, Prod.fst_swap, Prod.snd_swap, bne_iff_ne]
    exact ne_comm
  have hmatched := Realization.sum_pairCost_reversed h
  have hsplit := Realization.sum_pairCost_split old new m
  have hsplit' := Realization.sum_pairCost_split new old m.reversed
  have hdeleted := Realization.sum_insertionCost_reversed old m
  have hinserted := Realization.sum_insertionCost_reversed new m.reversed
  rw [Matching.reversed_reversed] at hinserted
  omega

/-! ## The best matching -/

namespace Matching

open Unanchored

/-- The weight of an assignment is what it costs, but for a number that depends on the graphs
only. -/
theorem weight_ofAssignment {assignment : List Choice}
    (h : (problem old new).IsAssignment assignment) :
    Edit.weight old new ((ofAssignment old new assignment).operations old new) +
        (anchors old new).pairs.countP (propertiesAloneDiffer old new) =
      (problem old new).cost assignment + commonCost old new := by
  have hlength := Unanchored.length_operations h
  have hweight := weight_add_countP (ofAssignment_isCorrespondence h)
  simp only [ofAssignment, extendedBy, List.countP_append] at hlength hweight ⊢
  omega

/-- No matching that keeps kinds, places and owners weighs less than the one that the search finds
the best. -/
theorem weight_le_of_isBest {best : List Choice} (hbest : (problem old new).IsBest best)
    (h : m.IsCorrespondence old new) (howners : m.KeepsOwners old new) :
    Edit.weight old new ((ofAssignment old new best).operations old new) ≤
      Edit.weight old new (m.operations old new) := by
  have hfeasible := isFeasible_assignment h howners
  have hcost : (problem old new).cost best ≤ (problem old new).cost (m.assignment old new) :=
    Standing.cost_le_of_le (hbest.2 _ hfeasible)
  have hleast := weight_ofAssignment hbest.1.isAssignment
  have hweight := weight_ofAssignment hfeasible.isAssignment
  rw [weight_congr (ofAssignment_isCorrespondence hfeasible.isAssignment) h
    h.mem_ofAssignment_assignment] at hweight
  omega

/-- The best matching there weighs no more than the best matching back, which is one that can be
read the other way round. -/
theorem weight_le_of_isBest_back (hnew : new.OwnersComeFirst) {there back : List Choice}
    (hthere : (problem old new).IsBest there) (hback : (problem new old).IsBest back) :
    Edit.weight old new ((ofAssignment old new there).operations old new) ≤
      Edit.weight new old ((ofAssignment new old back).operations new old) := by
  have hcorrespondence := ofAssignment_isCorrespondence hback.1.isAssignment
  rw [← weight_reversed hcorrespondence]
  exact weight_le_of_isBest hthere hcorrespondence.reversed
    (ofAssignment_keepsOwners hnew hback.1).reversed

end Matching

theorem Script.CanBe.exists_isBest {config : Config} {clock : Clock} {exhausted : Bool}
    {script : Script} (h : Script.CanBe old new config clock exhausted script)
    (happroximate : script.approximate = false) :
    ∃ best, (Unanchored.problem old new).IsBest best ∧
      script.operations = (Matching.ofAssignment old new best).operations old new := by
  obtain ⟨found, houtcome, rfl⟩ := h
  cases found with
  | none => cases happroximate
  | some best => exact ⟨best, houtcome.isBest, rfl⟩

/-- Searches that are not given up come to scripts there and back that have the same number of
steps, those aside that change the properties of a vertex and not its name. -/
theorem scripts_there_and_back_weigh_the_same {ts ts' : TypeSystem}
    (hold : Graph.ofTypeSystem ts = .ok old) (hnew : Graph.ofTypeSystem ts' = .ok new)
    {config config' : Config} {clock clock' : Clock} {exhausted exhausted' : Bool}
    {there back : Script} (hthere : Script.CanBe old new config clock exhausted there)
    (hback : Script.CanBe new old config' clock' exhausted' back)
    (happroximate : there.approximate = false) (happroximate' : back.approximate = false) :
    Edit.weight old new there.operations = Edit.weight new old back.operations := by
  obtain ⟨best, hbest, hoperations⟩ := hthere.exists_isBest happroximate
  obtain ⟨best', hbest', hoperations'⟩ := hback.exists_isBest happroximate'
  rw [hoperations, hoperations']
  exact Nat.le_antisymm
    (Matching.weight_le_of_isBest_back (TypeSystem.ownersComeFirst hnew) hbest hbest')
    (Matching.weight_le_of_isBest_back (TypeSystem.ownersComeFirst hold) hbest' hbest)

set_option maxRecDepth 20000 in
/-- A type is renamed, and its field described: two steps there and two back, of which the change of
the field does not weigh. -/
theorem scripts_there_and_back_weigh_the_same_of_a_renamed_type_with_a_described_field :
    let system (name : String) (description : Option String) : TypeSystem :=
      ⟨⟨[⟨name, none, [], .object [] [⟨"f", .named "Int", [], description, []⟩]⟩],
        List.nodup_singleton name⟩, .empty⟩
    let old := (Graph.ofTypeSystem (system "A" none)).toOption.getD default
    let new := (Graph.ofTypeSystem (system "B" (some "d"))).toOption.getD default
    let there := Script.between old new .standard .stopped
    let back := Script.between new old .standard .stopped
    Graph.ofTypeSystem (system "A" none) = .ok old ∧
      Graph.ofTypeSystem (system "B" (some "d")) = .ok new ∧
      (∃ exhausted, Script.CanBe old new .standard .stopped exhausted there) ∧
      (∃ exhausted, Script.CanBe new old .standard .stopped exhausted back) ∧
      there.approximate = false ∧ back.approximate = false ∧ there.cost = 2 ∧
      Edit.weight old new there.operations = 1 ∧ Edit.weight new old back.operations = 1 := by
  intro system old new there back
  have hold : Graph.ofTypeSystem (system "A" none) = .ok old := eq_ok_getD (by decide)
  have hnew : Graph.ofTypeSystem (system "B" (some "d")) = .ok new := eq_ok_getD (by decide)
  have happroximate : there.approximate = false := by decide
  have happroximate' : back.approximate = false := by decide
  have hweight : Edit.weight old new there.operations = 1 := by decide
  obtain ⟨exhausted, hthere⟩ := Script.exists_canBe_between old new .standard .stopped
  obtain ⟨exhausted', hback⟩ := Script.exists_canBe_between new old .standard .stopped
  have hsame := scripts_there_and_back_weigh_the_same hold hnew hthere hback happroximate
    happroximate'
  exact ⟨hold, hnew, ⟨exhausted, hthere⟩, ⟨exhausted', hback⟩, happroximate, happroximate',
    by decide, hweight, hsame.symm.trans hweight⟩

end SchemaDelta
