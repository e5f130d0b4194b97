import SchemaDelta.Proofs.Edit.Leftover
import SchemaDelta.Proofs.Edit.Spending

/-!
The cost that the search accounts for and the length of the script that comes of it. They differ by
what all scripts have in common, and by the vertices of which only the properties change, which the
search does not see.
-/

namespace SchemaDelta

open Assignment

variable {old new : Graph} {m : Matching} {assignment : List Choice}

/-- Whether two vertices have different names. -/
def nameDiffers (old new : Graph) (pair : Nat × Nat) : Bool :=
  ((old.vertex? pair.1).getD default).name != ((new.vertex? pair.2).getD default).name

/-- Whether two vertices have one name and different properties. -/
def propertiesAloneDiffer (old new : Graph) (pair : Nat × Nat) : Bool :=
  ((old.vertex? pair.1).getD default).name == ((new.vertex? pair.2).getD default).name &&
    ((old.vertex? pair.1).getD default).properties !=
      ((new.vertex? pair.2).getD default).properties

/-! ## Steps on vertices -/

namespace Realization

theorem length_changed (pairs : List (Nat × Nat)) :
    (pairs.filter fun pair => !decide
      (((old.vertex? pair.1).getD default).Agrees ((new.vertex? pair.2).getD default))).length =
      pairs.countP (nameDiffers old new) + pairs.countP (propertiesAloneDiffer old new) := by
  induction pairs with
  | nil => rfl
  | cons pair pairs ih =>
    rw [List.filter_cons, List.countP_cons, List.countP_cons]
    unfold nameDiffers propertiesAloneDiffer Vertex.Agrees at ih ⊢
    by_cases hname : ((old.vertex? pair.1).getD default).name =
        ((new.vertex? pair.2).getD default).name
    · by_cases hproperties : ((old.vertex? pair.1).getD default).properties =
          ((new.vertex? pair.2).getD default).properties
      · simp [hname, hproperties] at ih ⊢
        omega
      · simp [hname, hproperties] at ih ⊢
        omega
    · simp [hname] at ih ⊢
      omega

theorem length_vertexOperations (h : m.IsCorrespondence old new) :
    (vertexOperations old new m).length + 2 * m.pairs.length =
      old.vertices.length + new.vertices.length +
        m.pairs.countP (nameDiffers old new) + m.pairs.countP (propertiesAloneDiffer old new) := by
  have hsettles := vertexSettlement_settles h
  have holds := hsettles.olds.length_eq
  have hnews := hsettles.news.length_eq
  have hchanged : (vertexSettlement old new m).changed.length = _ := length_changed m.pairs
  have hpairs := (List.filter_append_perm (fun pair => decide
    (((old.vertex? pair.1).getD default).Agrees ((new.vertex? pair.2).getD default)))
    m.pairs).length_eq
  have hkept : (vertexSettlement old new m).kept.length +
      (vertexSettlement old new m).changed.length = m.pairs.length := by
    rw [← hpairs, List.length_append]
    rfl
  rw [(vertexOperations_perm h).length_eq]
  simp only [Settlement.steps, Settlement.olds, Settlement.news, Graph.vertexIds,
    List.length_append, List.length_map, List.length_range] at holds hnews ⊢
  omega

theorem length_operations (h : m.IsCorrespondence old new) :
    (m.operations old new).length = (vertexOperations old new m).length +
      (∑ pair ∈ old.vertexPairs, m.pairCost old new pair +
        ∑ pair ∈ new.vertexPairs, m.insertionCost new pair) := by
  rw [← length_edgeOperations h, Matching.operations, (ordered_perm old new _).length_eq,
    List.length_append]

end Realization

/-! ## Searched pairs -/

namespace Unanchored

/-- The pair that a choice stands for. -/
def pairOf? (new old : Graph) (entry : Nat × Choice) : Option (Nat × Nat) :=
  match entry.2 with
  | .unmatched => none
  | .candidate candidate => ((newSearched old new)[candidate]?).map fun target => (entry.1, target)

/-- Each decision deletes a vertex or adds a pair, of vertices whose names may differ. -/
theorem sum_ownCost {entries : List (Nat × Choice)}
    (h : ∀ source (candidate : Nat), (source, .candidate candidate) ∈ entries →
      ∃ target, (newSearched old new)[candidate]? = some target) :
    (entries.map (ownCost old new)).sum + (entries.filterMap (pairOf? new old)).length =
      entries.length + (entries.filterMap (pairOf? new old)).countP (nameDiffers old new) := by
  induction entries with
  | nil => rfl
  | cons entry entries ih =>
    have hrest := ih fun source candidate hmem => h source candidate (List.mem_cons_of_mem _ hmem)
    obtain ⟨source, choice⟩ := entry
    rw [List.map_cons, List.sum_cons, List.filterMap_cons, List.length_cons]
    cases choice with
    | unmatched =>
      simp only [ownCost, pairOf?]
      omega
    | candidate candidate =>
      obtain ⟨target, htarget⟩ := h source candidate List.mem_cons_self
      simp only [ownCost, pairOf?, htarget, Option.map_some, List.length_cons, List.countP_cons,
        nameDiffers, bne_iff_ne]
      by_cases hname : ((old.vertex? source).getD default).name =
          ((new.vertex? target).getD default).name
      · simp [hname]
        omega
      · simp [hname]
        omega

/-- The new vertices that are left are the searched ones that are in no pair. -/
theorem card_left (h : (problem old new).IsAssignment assignment) :
    ((comparedNews old new).filter fun target =>
        ¬ ((Matching.ofAssignment old new assignment).preimage? target).isSome).card +
      (pairs old new assignment).length = (newSearched old new).length := by
  have hone := Matching.ofAssignment_isOneToOne h
  have hmatched : ((comparedNews old new).filter fun target =>
      ((Matching.ofAssignment old new assignment).preimage? target).isSome).card =
      (Matching.anchors old new).pairs.length + (pairs old new assignment).length := by
    have htargets : (comparedNews old new).filter (fun target =>
        ((Matching.ofAssignment old new assignment).preimage? target).isSome) =
        ((Matching.ofAssignment old new assignment).pairs.map (·.2)).toFinset := by
      ext target
      rw [Finset.mem_filter, List.mem_toFinset, ← Option.not_isNone, Bool.not_eq_true',
        ← Bool.not_eq_true, Matching.preimage?_isNone_iff, Decidable.not_not]
      apply and_iff_right_of_imp
      intro hmem
      obtain ⟨pair, hpair, rfl⟩ := List.mem_map.1 hmem
      rcases Matching.mem_ofAssignment.1 hpair with hanchor | hpair
      · exact mem_comparedNews_iff.2 (Or.inl ⟨pair.1, hanchor⟩)
      · exact mem_comparedNews_iff.2 (Or.inr (mem_searched_of_mem_pairs hpair).2)
    rw [htargets, List.toFinset_card_of_nodup hone.targets, List.length_map]
    exact List.length_append
  have hall := card_comparedNews old new
  have hsplit := Finset.card_filter_add_card_filter_not (s := comparedNews old new)
    fun target => ((Matching.ofAssignment old new assignment).preimage? target).isSome
  omega

/-! ## Steps on edges -/

theorem mem_decidedOlds_of_mem_pairs {id target : Nat}
    (hmem : (id, target) ∈ (Matching.ofAssignment old new assignment).pairs) :
    id ∈ decidedOlds old new (oldSearched old new).length := by
  rw [mem_decidedOlds_iff]
  rcases Matching.mem_ofAssignment.1 hmem with hanchor | hpair
  · exact Or.inl ⟨target, hanchor⟩
  · obtain ⟨position, _, hsource, -⟩ := mem_pairs.1 hpair
    exact Or.inr ⟨position, (List.getElem?_eq_some_iff.1 hsource).1, hsource⟩

theorem mem_comparedNews_of_mem_pairs {source id : Nat}
    (hmem : (source, id) ∈ (Matching.ofAssignment old new assignment).pairs) :
    id ∈ comparedNews old new := by
  rw [mem_comparedNews_iff]
  rcases Matching.mem_ofAssignment.1 hmem with hanchor | hpair
  · exact Or.inl ⟨source, hanchor⟩
  · exact Or.inr (mem_searched_of_mem_pairs hpair).2

/-- Old edges at vertices that are neither anchored nor searched are deleted whatever the
assignment. -/
theorem sum_pairCost_eq :
    ∑ pair ∈ old.vertexPairs, (Matching.ofAssignment old new assignment).pairCost old new pair =
      ∑ pair ∈ decidedOlds old new (oldSearched old new).length ×ˢ
          decidedOlds old new (oldSearched old new).length,
        (Matching.ofAssignment old new assignment).pairCost old new pair +
      ∑ pair ∈ old.vertexPairs \ (decidedOlds old new (oldSearched old new).length ×ˢ
          decidedOlds old new (oldSearched old new).length),
        (old.labelsBetween pair.1 pair.2).length := by
  have hsubset : decidedOlds old new (oldSearched old new).length ×ˢ
      decidedOlds old new (oldSearched old new).length ⊆ old.vertexPairs :=
    Finset.product_subset_product (decidedOlds_subset old new _) (decidedOlds_subset old new _)
  rw [← Finset.sum_sdiff hsubset, Nat.add_comm]
  congr 1
  refine Finset.sum_congr rfl fun pair hpair => Realization.pairCost_of_not_bothMatched ?_
  rw [Bool.eq_false_iff]
  intro hboth
  obtain ⟨hone, htwo⟩ := Realization.counterparts_of_bothMatched hboth
  refine (Finset.mem_sdiff.1 hpair).2 (Finset.mem_product.2 ⟨?_, ?_⟩)
  · exact mem_decidedOlds_of_mem_pairs (Matching.mem_of_image? hone)
  · exact mem_decidedOlds_of_mem_pairs (Matching.mem_of_image? htwo)

/-- New edges at vertices that are neither anchored nor searched are inserted whatever the
assignment. -/
theorem sum_insertionCost_split :
    ∑ pair ∈ new.vertexPairs, (Matching.ofAssignment old new assignment).insertionCost new pair =
      ∑ pair ∈ comparedNews old new ×ˢ comparedNews old new,
        (Matching.ofAssignment old new assignment).insertionCost new pair +
      ∑ pair ∈ new.vertexPairs \ (comparedNews old new ×ˢ comparedNews old new),
        (new.labelsBetween pair.1 pair.2).length := by
  have hsubset : comparedNews old new ×ˢ comparedNews old new ⊆ new.vertexPairs :=
    Finset.product_subset_product (comparedNews_subset old new) (comparedNews_subset old new)
  rw [← Finset.sum_sdiff hsubset, Nat.add_comm]
  congr 1
  refine Finset.sum_congr rfl fun pair hpair => if_neg fun hboth => ?_
  rw [Bool.and_eq_true] at hboth
  obtain ⟨one, hone⟩ := Option.isSome_iff_exists.1 hboth.1
  obtain ⟨two, htwo⟩ := Option.isSome_iff_exists.1 hboth.2
  refine (Finset.mem_sdiff.1 hpair).2 (Finset.mem_product.2 ⟨?_, ?_⟩)
  · exact mem_comparedNews_of_mem_pairs (Matching.mem_of_preimage? hone)
  · exact mem_comparedNews_of_mem_pairs (Matching.mem_of_preimage? htwo)

/-- The edges between anchored vertices cost the same whatever the assignment. -/
theorem sum_pairCost_anchored (h : (problem old new).IsAssignment assignment) :
    ∑ pair ∈ decidedOlds old new 0 ×ˢ decidedOlds old new 0,
        (Matching.ofAssignment old new assignment).pairCost old new pair =
      ∑ pair ∈ decidedOlds old new 0 ×ˢ decidedOlds old new 0,
        (Matching.anchors old new).pairCost old new pair := by
  have himage {id : Nat} (hid : id ∈ decidedOlds old new 0) :
      (Matching.ofAssignment old new assignment).image? id =
        (Matching.anchors old new).image? id := by
    rcases mem_decidedOlds_iff.1 hid with ⟨target, hanchor⟩ | ⟨_, hlt, -⟩
    · rw [(Matching.anchors_isOneToOne old new).image?_eq_some_iff.2 hanchor,
        (Matching.ofAssignment_isOneToOne h).image?_eq_some_iff.2
          (Matching.mem_ofAssignment.2 (Or.inl hanchor))]
    · omega
  apply Finset.sum_congr rfl
  intro pair hpair
  obtain ⟨hone, htwo⟩ := Finset.mem_product.1 hpair
  unfold Matching.pairCost
  rw [himage hone, himage htwo]

/-- The steps that do not depend on the assignment: those on fixed and on anchored vertices, on
edges at fixed ones, and on edges between anchored ones. -/
def commonCost (old new : Graph) : Nat :=
  let anchors := Matching.anchors old new
  let olds := decidedOlds old new (oldSearched old new).length
  let news := comparedNews old new
  (old.vertices.length - anchors.pairs.length - (oldSearched old new).length) +
    (new.vertices.length - anchors.pairs.length - (newSearched old new).length) +
    anchors.pairs.countP (nameDiffers old new) +
    anchors.pairs.countP (propertiesAloneDiffer old new) +
    ∑ pair ∈ decidedOlds old new 0 ×ˢ decidedOlds old new 0, anchors.pairCost old new pair +
    ∑ pair ∈ old.vertexPairs \ (olds ×ˢ olds), (old.labelsBetween pair.1 pair.2).length +
    ∑ pair ∈ new.vertexPairs \ (news ×ˢ news), (new.labelsBetween pair.1 pair.2).length

end Unanchored

/-! ## The whole script -/

open Unanchored in
theorem Unanchored.length_operations (h : (problem old new).IsAssignment assignment) :
    ((Matching.ofAssignment old new assignment).operations old new).length =
      (problem old new).cost assignment + commonCost old new +
        (pairs old new assignment).countP (propertiesAloneDiffer old new) := by
  have hcorrespondence := Matching.ofAssignment_isCorrespondence h
  have hassigned := (length_assignment h).symm
  have hlength := Realization.length_operations hcorrespondence
  have hvertices := Realization.length_vertexOperations hcorrespondence
  have hspending := spending_take h assignment.length.le_refl
  -- without the edges: every searched old vertex is deleted, or matched and perhaps renamed
  have hown : (((oldSearched old new).zip assignment).map (ownCost old new)).sum +
      (pairs old new assignment).length = ((oldSearched old new).zip assignment).length +
        (pairs old new assignment).countP (nameDiffers old new) := by
    apply sum_ownCost
    intro source candidate hmem
    obtain ⟨position, hposition⟩ := List.mem_iff_getElem?.1 hmem
    exact exists_target h (List.getElem?_zip_eq_some.1 hposition).2
  have hleft := card_left h
  have hpairs : (Matching.ofAssignment old new assignment).pairs =
      (Matching.anchors old new).pairs ++ pairs old new assignment := rfl
  -- no subtraction in the common cost is cut off at zero
  have holds := Finset.card_le_card (decidedOlds_subset old new (oldSearched old new).length)
  have hnews := Finset.card_le_card (comparedNews_subset old new)
  rw [card_decidedOlds, Finset.card_range] at holds
  rw [card_comparedNews, Finset.card_range] at hnews
  rw [hpairs, List.length_append, List.countP_append, List.countP_append] at hvertices
  rw [List.take_length, List.take_of_length_le (by simp [hassigned]), sum_pairCost_anchored h,
    ← hassigned] at hspending
  rw [List.length_zip, ← hassigned, Nat.min_self] at hown
  rw [sum_pairCost_eq, sum_insertionCost_split] at hlength
  unfold Problem.cost commonCost
  rw [hlength, leftoverCost_eq h]
  simp only
  omega

open Unanchored in
/-- Whatever the searched vertices are assigned to, the script is as long as the search says, but
for a number that depends on the graphs only and for the matched searched vertices of which only the
properties change. -/
theorem script_length_agrees_with_cost (old new : Graph) :
    ∃ common : Nat, ∀ assignment, (problem old new).IsAssignment assignment →
      ((Matching.ofAssignment old new assignment).operations old new).length =
        (problem old new).cost assignment + common +
          (pairs old new assignment).countP (propertiesAloneDiffer old new) :=
  ⟨commonCost old new, fun _ h => length_operations h⟩

open Unanchored in
/-- A type is renamed, and its field described: with both matched the script is one step longer than
the search says, for the description, against the script that deletes and inserts both. -/
theorem script_length_agrees_with_cost_of_a_renamed_type_with_a_described_field :
    let old : Graph := ⟨⟨[⟨.object, "A", "A", .empty⟩, ⟨.field, "f", "A.f", .empty⟩,
      ⟨.scalar, "Int", "Int", .empty⟩], [⟨0, 1, "field"⟩, ⟨1, 2, "type=Int"⟩], by decide⟩,
      by decide, by decide⟩
    let new : Graph := ⟨⟨[⟨.object, "B", "B", .empty⟩,
      ⟨.field, "f", "B.f", .ofList [("description", "d")]⟩, ⟨.scalar, "Int", "Int", .empty⟩],
      [⟨0, 1, "field"⟩, ⟨1, 2, "type=Int"⟩], by decide⟩, by decide, by decide⟩
    let matched : List Choice := [.candidate 0, .candidate 1]
    let left : List Choice := [.unmatched, .unmatched]
    ((problem old new).IsAssignment matched ∧ (problem old new).IsAssignment left) ∧
      ((pairs old new matched).length = 2 ∧
        (pairs old new matched).countP (propertiesAloneDiffer old new) = 1) ∧
      ∃ common : Nat,
        ((Matching.ofAssignment old new matched).operations old new).length =
          (problem old new).cost matched + common + 1 ∧
        ((Matching.ofAssignment old new left).operations old new).length =
          (problem old new).cost left + common := by
  intro old new matched left
  have hmatched : (problem old new).IsFeasible matched := ⟨by decide, by decide, by decide, trivial⟩
  have hleft : (problem old new).IsFeasible left := ⟨by decide, by decide, by decide, trivial⟩
  have halone : (pairs old new matched).countP (propertiesAloneDiffer old new) = 1 := by decide
  have hnone : (pairs old new left).countP (propertiesAloneDiffer old new) = 0 := by decide
  obtain ⟨common, hlength⟩ := script_length_agrees_with_cost old new
  refine ⟨⟨hmatched.isAssignment, hleft.isAssignment⟩, ⟨by decide, halone⟩, common, ?_, ?_⟩
  · rw [hlength matched hmatched.isAssignment, halone]
  · rw [hlength left hleft.isAssignment, hnone, Nat.add_zero]

end SchemaDelta
