import SchemaDelta.Proofs.Edit.Roles

/-!
What a decision on a searched vertex costs, as a sum over the vertices that are decided with it.
-/

namespace SchemaDelta.Unanchored

open Assignment

variable {old new : Graph} {position source target : Nat}

/-! ## Roles in both graphs -/

/-- The roles of the old vertices. -/
def oldRole (old new : Graph) : Nat → Role :=
  role (fun id => ((Matching.anchors old new).image? id).map fun _ => id) (oldSearched old new)

/-- The roles of the new vertices. -/
def newRole (old new : Graph) : Nat → Role :=
  role (Matching.anchors old new).preimage? (newSearched old new)

theorem problem_eq (old new : Graph) : problem old new =
    ⟨(oldSearched old new).map (member old (oldRole old new)),
      (newSearched old new).map (member new (newRole old new))⟩ := rfl

theorem image?_of_mem_oldSearched (h : source ∈ oldSearched old new) :
    (Matching.anchors old new).image? source = none :=
  Matching.image?_eq_none_iff.2 fun _ => not_mem_anchors_of_mem_oldSearched h

theorem preimage?_of_mem_newSearched (h : target ∈ newSearched old new) :
    (Matching.anchors old new).preimage? target = none :=
  Matching.preimage?_eq_none_iff.2 fun _ => not_mem_anchors_of_mem_newSearched h

theorem oldRole_eq_anchored_iff {id : Nat} : oldRole old new id = .anchored source ↔
    id = source ∧ ∃ target, (source, target) ∈ (Matching.anchors old new).pairs := by
  unfold oldRole
  rw [role_eq_anchored_iff]
  constructor
  · intro h
    obtain ⟨target, himage, rfl⟩ := Option.map_eq_some_iff.1 h
    exact ⟨rfl, target, Matching.mem_of_image? himage⟩
  · rintro ⟨rfl, target, hmem⟩
    rw [(Matching.anchors_isOneToOne old new).image?_eq_some_iff.2 hmem]
    rfl

theorem oldRole_eq_searched_iff {id : Nat} : oldRole old new id = .searched position ↔
    (oldSearched old new)[position]? = some id := by
  apply role_eq_searched_iff (nodup_searched ..)
  intro id hid
  rw [image?_of_mem_oldSearched hid]
  rfl

theorem newRole_eq_anchored_iff : newRole old new target = .anchored source ↔
    (source, target) ∈ (Matching.anchors old new).pairs := by
  unfold newRole
  rw [role_eq_anchored_iff, (Matching.anchors_isOneToOne old new).preimage?_eq_some_iff]

theorem newRole_eq_searched_iff : newRole old new target = .searched position ↔
    (newSearched old new)[position]? = some target :=
  role_eq_searched_iff (nodup_searched ..) fun _ => preimage?_of_mem_newSearched

theorem eq_of_oldRole_eq {id id' : Nat} (h : oldRole old new id = oldRole old new id')
    (hfixed : oldRole old new id' ≠ .fixed) : id = id' := by
  refine eq_of_role_eq (nodup_searched ..) (fun id hid => ?_) (fun hid hid' => ?_) h hfixed
  · rw [image?_of_mem_oldSearched hid]
    rfl
  · obtain ⟨-, -, rfl⟩ := Option.map_eq_some_iff.1 hid
    obtain ⟨-, -, rfl⟩ := Option.map_eq_some_iff.1 hid'
    rfl

/-! ## Decided vertices -/

/-- The old vertices that are anchored or among the first searched ones. -/
def decidedOlds (old new : Graph) (n : Nat) : Finset Nat :=
  ((Matching.anchors old new).pairs.map (·.1) ++ (oldSearched old new).take n).toFinset

theorem mem_decidedOlds_iff {n id : Nat} : id ∈ decidedOlds old new n ↔
    (∃ target, (id, target) ∈ (Matching.anchors old new).pairs) ∨
      ∃ position < n, (oldSearched old new)[position]? = some id := by
  unfold decidedOlds
  rw [List.mem_toFinset, List.mem_append]
  refine or_congr (by simp) ?_
  rw [List.mem_iff_getElem?]
  constructor
  · rintro ⟨position, h⟩
    rw [List.getElem?_take] at h
    split at h
    · next hlt => exact ⟨position, hlt, h⟩
    · cases h
  · rintro ⟨position, hlt, h⟩
    exact ⟨position, by rwa [List.getElem?_take_of_lt hlt]⟩

theorem decidedOlds_succ {v : Nat} (hv : (oldSearched old new)[position]? = some v) :
    decidedOlds old new (position + 1) = insert v (decidedOlds old new position) := by
  unfold decidedOlds
  rw [List.take_add_one, hv]
  ext id
  simp

/-- A searched vertex is decided if it is among the first ones. -/
theorem mem_decidedOlds_iff_of_searched {n index id : Nat}
    (hindex : (oldSearched old new)[index]? = some id) :
    id ∈ decidedOlds old new n ↔ index < n := by
  rw [mem_decidedOlds_iff]
  constructor
  · rintro (⟨target, hmem⟩ | ⟨index', hlt, hindex'⟩)
    · exact absurd hmem (not_mem_anchors_of_mem_oldSearched (List.mem_of_getElem? hindex))
    · rwa [index_eq_of_nodup (nodup_searched ..) hindex' hindex] at hlt
  · intro hlt
    exact Or.inr ⟨index, hlt, hindex⟩

theorem not_mem_decidedOlds {v : Nat} (hv : (oldSearched old new)[position]? = some v) :
    v ∉ decidedOlds old new position := by
  rw [mem_decidedOlds_iff_of_searched hv]
  exact Nat.lt_irrefl position

theorem oldRole_ne_fixed {n id : Nat} (h : id ∈ decidedOlds old new n) :
    oldRole old new id ≠ .fixed := by
  intro hrole
  rcases mem_decidedOlds_iff.1 h with ⟨target, hmem⟩ | ⟨position, -, hposition⟩
  · rw [oldRole_eq_anchored_iff.2 ⟨rfl, target, hmem⟩] at hrole
    cases hrole
  · rw [oldRole_eq_searched_iff.2 hposition] at hrole
    cases hrole

theorem isDecided_oldRole {decided : List Choice} (hlength : decided.length = position) (id : Nat) :
    isDecided decided position (oldRole old new id) = true ↔
      id ∈ decidedOlds old new (position + 1) := by
  cases hrole : oldRole old new id with
  | fixed =>
    apply iff_of_false (by simp [isDecided])
    intro hid
    exact oldRole_ne_fixed hid hrole
  | anchored source =>
    obtain ⟨rfl, target, hmem⟩ := oldRole_eq_anchored_iff.1 hrole
    exact iff_of_true rfl (mem_decidedOlds_iff.2 (Or.inl ⟨target, hmem⟩))
  | searched other =>
    rw [mem_decidedOlds_iff_of_searched (oldRole_eq_searched_iff.1 hrole)]
    simp only [isDecided, Bool.or_eq_true, beq_iff_eq, decide_eq_true_eq, hlength]
    omega

theorem decidedOlds_subset (old new : Graph) (n : Nat) :
    decidedOlds old new n ⊆ Finset.range old.vertices.length := by
  intro id hid
  rw [Finset.mem_range]
  rcases mem_decidedOlds_iff.1 hid with ⟨target, hmem⟩ | ⟨position, -, hposition⟩
  · obtain ⟨v, -, hv, -⟩ := Matching.mem_anchors.1 hmem
    exact Graph.lt_of_vertex? hv
  · exact (lt_of_mem_searched (List.mem_of_getElem? hposition)).1

theorem card_decidedOlds (old new : Graph) :
    (decidedOlds old new (oldSearched old new).length).card =
      (Matching.anchors old new).pairs.length + (oldSearched old new).length := by
  have hnodup : ((Matching.anchors old new).pairs.map (·.1) ++ oldSearched old new).Nodup := by
    refine List.nodup_append.2
      ⟨(Matching.anchors_isOneToOne old new).sources, nodup_searched .., ?_⟩
    rintro source hanchored source' hsearched rfl
    obtain ⟨pair, hpair, rfl⟩ := List.mem_map.1 hanchored
    exact not_mem_anchors_of_mem_oldSearched hsearched hpair
  unfold decidedOlds
  rw [List.take_length, List.toFinset_card_of_nodup hnodup, List.length_append, List.length_map]

/-! ## Counterparts -/

section Assigned

variable {assignment : List Choice} (h : (problem old new).IsAssignment assignment)

theorem mem_ofAssignment_of_searched (hsource : (oldSearched old new)[position]? = some source) :
    (source, target) ∈ (Matching.ofAssignment old new assignment).pairs ↔
      ∃ candidate : Nat, assignment[position]? = some (.candidate candidate) ∧
        (newSearched old new)[candidate]? = some target := by
  rw [Matching.mem_ofAssignment, mem_pairs]
  constructor
  · rintro (hmem | ⟨position', candidate, hsource', hchoice, htarget⟩)
    · exact absurd hmem (not_mem_anchors_of_mem_oldSearched (List.mem_of_getElem? hsource))
    · rw [index_eq_of_nodup (nodup_searched ..) hsource' hsource] at hchoice
      exact ⟨candidate, hchoice, htarget⟩
  · rintro ⟨candidate, hchoice, htarget⟩
    exact Or.inr ⟨position, candidate, hsource, hchoice, htarget⟩

theorem mem_ofAssignment_of_newSearched {candidate : Nat}
    (htarget : (newSearched old new)[candidate]? = some target) :
    (source, target) ∈ (Matching.ofAssignment old new assignment).pairs ↔
      ∃ index : Nat, (oldSearched old new)[index]? = some source ∧
        assignment[index]? = some (.candidate candidate) := by
  rw [Matching.mem_ofAssignment, mem_pairs]
  constructor
  · rintro (hmem | ⟨index, candidate', hsource, hchoice, htarget'⟩)
    · exact absurd hmem (not_mem_anchors_of_mem_newSearched (List.mem_of_getElem? htarget))
    · rw [index_eq_of_nodup (nodup_searched ..) htarget' htarget] at hchoice
      exact ⟨index, hsource, hchoice⟩
  · rintro ⟨index, hsource, hchoice⟩
    exact Or.inr ⟨index, candidate, hsource, hchoice, htarget⟩

include h

theorem exists_target {candidate : Nat}
    (hchoice : assignment[position]? = some (.candidate candidate)) :
    ∃ target, (newSearched old new)[candidate]? = some target := by
  obtain ⟨a, b, -, hb, -⟩ := h.kinds hchoice
  rw [problem_eq, List.getElem?_map] at hb
  obtain ⟨target, htarget, -⟩ := Option.map_eq_some_iff.1 hb
  exact ⟨target, htarget⟩

theorem idxOf?_take_eq_some_iff {candidate index : Nat} :
    (assignment.take position).idxOf? (.candidate candidate) = some index ↔
      index < position ∧ assignment[index]? = some (.candidate candidate) := by
  rw [List.idxOf?_eq_some_iff]
  constructor
  · rintro ⟨hlt, hget, -⟩
    have hbound : index < position := by
      rw [List.length_take] at hlt
      omega
    refine ⟨hbound, ?_⟩
    rw [← List.getElem?_take_of_lt hbound, List.getElem?_eq_getElem hlt, hget]
  · rintro ⟨hbound, hget⟩
    have hget' : (assignment.take position)[index]? = some (.candidate candidate) := by
      rwa [List.getElem?_take_of_lt hbound]
    obtain ⟨hlt, heq⟩ := List.getElem?_eq_some_iff.1 hget'
    refine ⟨hlt, heq, fun before hbefore heq' => ?_⟩
    have hbefore' : assignment[before]? = some (.candidate candidate) := by
      rw [← List.getElem?_take_of_lt (Nat.lt_trans hbefore hbound),
        List.getElem?_eq_getElem (Nat.lt_trans hbefore hlt), heq']
    have := h.injective hbefore' hget
    omega

/-- What a tie of a new vertex is pulled back to is the old vertex that its other end is matched
with. -/
theorem preimage?_newRole_iff {candidate id : Nat}
    (hchoice : assignment[position]? = some (.candidate candidate))
    (hid : id ∈ decidedOlds old new (position + 1)) :
    preimage? (assignment.take position) position candidate (newRole old new target) =
        some (oldRole old new id) ↔
      (id, target) ∈ (Matching.ofAssignment old new assignment).pairs := by
  have hone := Matching.ofAssignment_isOneToOne h
  cases hrole : newRole old new target with
  | fixed =>
    apply iff_of_false (by simp [preimage?])
    intro hmem
    rcases Matching.mem_ofAssignment.1 hmem with hanchor | hpair
    · rw [newRole_eq_anchored_iff.2 hanchor] at hrole
      cases hrole
    · obtain ⟨_, candidate', -, -, htarget⟩ := mem_pairs.1 hpair
      rw [newRole_eq_searched_iff.2 htarget] at hrole
      cases hrole
  | anchored source =>
    have hanchor := newRole_eq_anchored_iff.1 hrole
    have hmem : (source, target) ∈ (Matching.ofAssignment old new assignment).pairs :=
      Matching.mem_ofAssignment.2 (Or.inl hanchor)
    simp only [preimage?, Option.some.injEq]
    rw [eq_comm, oldRole_eq_anchored_iff]
    constructor
    · rintro ⟨rfl, -⟩
      exact hmem
    · intro hmem'
      exact ⟨hone.eq_source hmem' hmem, target, hanchor⟩
  | searched other =>
    have htarget := newRole_eq_searched_iff.1 hrole
    rw [mem_ofAssignment_of_newSearched htarget]
    simp only [preimage?]
    split
    · next heq =>
      rw [Option.some.injEq, eq_comm, oldRole_eq_searched_iff]
      constructor
      · intro hindex
        exact ⟨position, hindex, heq ▸ hchoice⟩
      · rintro ⟨index, hindex, hchoice'⟩
        rw [heq] at hchoice'
        rwa [h.injective hchoice' hchoice] at hindex
    · next hne =>
      simp only [Option.map_eq_some_iff, idxOf?_take_eq_some_iff h]
      constructor
      · rintro ⟨index, ⟨-, hchoice'⟩, heq⟩
        exact ⟨index, oldRole_eq_searched_iff.1 heq.symm, hchoice'⟩
      · rintro ⟨index, hindex, hchoice'⟩
        refine ⟨index, ⟨?_, hchoice'⟩, (oldRole_eq_searched_iff.2 hindex).symm⟩
        -- only decided vertices count, and the one that is decided now has another counterpart
        have hle := (mem_decidedOlds_iff_of_searched hindex).1 hid
        have hdiffer : index ≠ position := by
          rintro rfl
          rw [hchoice] at hchoice'
          cases hchoice'
          exact hne rfl
        omega

/-- Ties are pulled back to decided vertices only. -/
theorem exists_of_preimage? {candidate : Nat} {role : Role}
    (hchoice : assignment[position]? = some (.candidate candidate))
    (hrole : preimage? (assignment.take position) position candidate (newRole old new target) =
      some role) :
    ∃ id ∈ decidedOlds old new (position + 1), oldRole old new id = role := by
  have hsearched {index : Nat} (hle : index ≤ position) :
      ∃ id ∈ decidedOlds old new (position + 1), oldRole old new id = .searched index := by
    have hlt : index < (oldSearched old new).length := by
      have hbound := lt_length_oldSearched h hchoice
      omega
    have hget := List.getElem?_eq_getElem hlt
    exact ⟨_, mem_decidedOlds_iff.2 (Or.inr ⟨index, by omega, hget⟩), oldRole_eq_searched_iff.2 hget⟩
  cases hnew : newRole old new target with
  | fixed => simp [hnew, preimage?] at hrole
  | anchored source =>
    have hanchor := newRole_eq_anchored_iff.1 hnew
    simp only [hnew, preimage?, Option.some.injEq] at hrole
    rw [← hrole]
    exact ⟨source, mem_decidedOlds_iff.2 (Or.inl ⟨target, hanchor⟩),
      oldRole_eq_anchored_iff.2 ⟨rfl, target, hanchor⟩⟩
  | searched other =>
    simp only [hnew, preimage?] at hrole
    split at hrole
    · cases hrole
      exact hsearched (Nat.le_refl position)
    · obtain ⟨index, hindex, rfl⟩ := Option.map_eq_some_iff.1 hrole
      exact hsearched ((idxOf?_take_eq_some_iff h).1 hindex).1.le

/-- A searched vertex has no counterpart if it is left unmatched. -/
theorem image?_eq_none_iff_of_searched {index id : Nat}
    (hindex : (oldSearched old new)[index]? = some id) :
    (Matching.ofAssignment old new assignment).image? id = none ↔
      assignment[index]? = some .unmatched := by
  have hlt : index < assignment.length := by
    rw [length_assignment h]
    exact (List.getElem?_eq_some_iff.1 hindex).1
  simp only [Matching.image?_eq_none_iff, mem_ofAssignment_of_searched hindex,
    List.getElem?_eq_getElem hlt, Option.some.injEq]
  cases hchoice : assignment[index] with
  | unmatched => simp
  | candidate candidate =>
    have hchoice' : assignment[index]? = some (.candidate candidate) := by
      rw [List.getElem?_eq_getElem hlt, hchoice]
    obtain ⟨target, htarget⟩ := exists_target h hchoice'
    apply iff_of_false
    · intro hnone
      exact hnone target ⟨candidate, rfl, htarget⟩
    · exact Choice.noConfusion

/-- When a vertex is matched, the decided vertices that are lost are those without a counterpart. -/
theorem isLost_oldRole_iff {candidate : Nat}
    (hchoice : assignment[position]? = some (.candidate candidate)) (id : Nat) :
    isLost (assignment.take position) position (oldRole old new id) = true ↔
      id ∈ decidedOlds old new (position + 1) ∧
        (Matching.ofAssignment old new assignment).image? id = none := by
  cases hrole : oldRole old new id with
  | fixed =>
    refine iff_of_false (by simp [isLost]) ?_
    rintro ⟨hid, -⟩
    exact oldRole_ne_fixed hid hrole
  | anchored source =>
    refine iff_of_false (by simp [isLost]) ?_
    rintro ⟨-, hnone⟩
    obtain ⟨rfl, target, hanchor⟩ := oldRole_eq_anchored_iff.1 hrole
    exact Matching.image?_eq_none_iff.1 hnone target (Matching.mem_ofAssignment.2 (Or.inl hanchor))
  | searched index =>
    have hindex := oldRole_eq_searched_iff.1 hrole
    rw [mem_decidedOlds_iff_of_searched hindex, image?_eq_none_iff_of_searched h hindex]
    simp only [isLost, Bool.and_eq_true, bne_iff_ne, beq_iff_eq]
    constructor
    · rintro ⟨-, hlost⟩
      have hlt : index < position := by
        have := (List.getElem?_eq_some_iff.1 hlost).1
        rw [List.length_take] at this
        omega
      rw [List.getElem?_take_of_lt hlt] at hlost
      exact ⟨Nat.lt_succ_of_lt hlt, hlost⟩
    · rintro ⟨hle, hlost⟩
      have hne : index ≠ position := by
        rintro rfl
        rw [hchoice] at hlost
        cases hlost
      refine ⟨hne, ?_⟩
      rw [List.getElem?_take_of_lt (by omega), hlost]

end Assigned

end SchemaDelta.Unanchored
