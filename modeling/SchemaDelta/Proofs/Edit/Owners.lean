import SchemaDelta.Proofs.Edit.Decisions
import SchemaDelta.Proofs.Edit.Ordered
import SchemaDelta.Proofs.Edit.Transformation
import SchemaDelta.Proofs.Graph.Ancestors

/-!
Owners of matched vertices. The search decides on the owner of a vertex before it decides on the
vertex, and matches the vertex only with one whose owner is what the owner has become. Anchors are
matched without regard to owners.
-/

namespace SchemaDelta

variable {old new : Graph} {source target : Nat}

/-! ## Owners come first -/

/-- Whether what owns a vertex is always of a kind that comes before its own. -/
def Graph.OwnersComeFirst (g : Graph) : Prop :=
  ∀ {e : Edge} {v w : Vertex}, e ∈ g.edges → e.isOwnership = true → g.vertex? e.one = some v →
    g.vertex? e.two = some w → v.kind.rank < w.kind.rank

theorem Graph.OwnersComeFirst.rank_lt {g : Graph} (h : g.OwnersComeFirst) {id owner : Nat}
    (howner : g.owner? id = some owner) : ∃ v w, g.vertex? owner = some v ∧
      g.vertex? id = some w ∧ v.kind.rank < w.kind.rank := by
  obtain ⟨e, he, howns, rfl, rfl⟩ := Graph.owner?_eq_some_iff.1 howner
  obtain ⟨index, hindex⟩ := List.mem_iff_getElem?.1 he
  obtain ⟨v, w, hv, hw⟩ := Graph.exists_ends hindex
  exact ⟨v, w, hv, hw, h he howns hv hw⟩

theorem TypeSystem.ownersComeFirst {ts : TypeSystem} {g : Graph}
    (h : Graph.ofTypeSystem ts = .ok g) : g.OwnersComeFirst := by
  intro e v w he howns hv hw
  obtain ⟨w', v', label, hw', hv', hkinds⟩ :=
    exists_owns_of_owner? h (Graph.owner?_eq_some_iff.2 ⟨e, he, howns, rfl, rfl⟩)
  cases hv.symm.trans hv'
  cases hw.symm.trans hw'
  exact hkinds.rank_lt

namespace Unanchored

theorem rank_le_of_isLE_compareVertices {g : Graph} {a b : Nat} {v w : Vertex}
    (hv : g.vertex? a = some v) (hw : g.vertex? b = some w)
    (h : (compareVertices g a b).isLE = true) : v.kind.rank ≤ w.kind.rank := by
  simp only [compareVertices, compareLex, compareOn, hv, hw, Option.getD_some] at h
  have hkind : (compare v.kind.rank w.kind.rank).isLE = true := by
    change (compare v.kind w.kind).isLE = true
    cases hcompare : compare v.kind w.kind with
    | gt =>
      rw [hcompare] at h
      cases h
    | _ => rfl
  exact Nat.isLE_compare.1 hkind

/-- What owns a searched vertex comes before it among the searched ones, if it is one of them. -/
theorem owner_lt (hold : old.OwnersComeFirst) {position place owner : Nat}
    (hsource : (oldSearched old new)[position]? = some source)
    (hplace : (oldSearched old new)[place]? = some owner)
    (howner : old.owner? source = some owner) : place < position := by
  obtain ⟨w, v, hw, hv, hrank⟩ := hold.rank_lt howner
  by_contra hge
  have hle : v.kind.rank ≤ w.kind.rank := by
    rcases Nat.lt_or_eq_of_le (Nat.not_lt.1 hge) with hlt | rfl
    · have hsorted : (oldSearched old new).Pairwise
          fun a b => (compareVertices old a b).isLE = true := sortBy_pairwise _ _
      obtain ⟨_, rfl⟩ := List.getElem?_eq_some_iff.1 hsource
      obtain ⟨_, rfl⟩ := List.getElem?_eq_some_iff.1 hplace
      exact rank_le_of_isLE_compareVertices hv hw
        (List.pairwise_iff_getElem.1 hsorted _ _ _ _ hlt)
    · cases hsource.symm.trans hplace
      cases hv.symm.trans hw
      exact Nat.le_refl _
  exact Nat.not_lt.2 hle hrank

end Unanchored

/-! ## Owners are matched -/

namespace Matching

open Assignment Unanchored

/-- Whether vertices that are matched and not at one place have owners that are matched, or none. -/
def KeepsOwners (m : Matching) (old new : Graph) : Prop :=
  ∀ source target, (source, target) ∈ m.pairs → (source, target) ∉ (anchors old new).pairs →
    (old.owner? source = none ∧ new.owner? target = none) ∨
      ∃ owner owner', old.owner? source = some owner ∧ new.owner? target = some owner' ∧
        (owner, owner') ∈ m.pairs

theorem anchors_keepsOwners (old new : Graph) : (anchors old new).KeepsOwners old new :=
  fun _ _ hmem hout => absurd hmem hout

theorem ofAssignment_keepsOwners (hold : old.OwnersComeFirst)
    {assignment : List Choice} (h : (problem old new).IsFeasible assignment) :
    (ofAssignment old new assignment).KeepsOwners old new := by
  intro source target hmem hout
  obtain ⟨position, candidate, hsource, hchoice, htarget⟩ :=
    mem_pairs.1 ((mem_ofAssignment.1 hmem).resolve_left hout)
  -- the choice was open when it was made
  obtain ⟨member, member', hmember, hmember', hopen⟩ :=
    Problem.candidate_mem_openChoices.1 (Problem.mem_openChoices_of_follows h.2 hchoice)
  rw [problem_eq, List.getElem?_map, hsource] at hmember
  rw [problem_eq, List.getElem?_map, htarget] at hmember'
  cases hmember
  cases hmember'
  have hagree := (Bool.and_eq_true_iff.1 hopen).2
  simp only [Unanchored.member] at hagree
  cases howner : old.owner? source with
  | none =>
    cases howner' : new.owner? target with
    | none => exact Or.inl ⟨rfl, rfl⟩
    | some owner' =>
      rw [howner, howner'] at hagree
      cases hagree
  | some owner =>
    cases howner' : new.owner? target with
    | none =>
      rw [howner, howner'] at hagree
      cases hrole : oldRole old new owner <;> rw [Option.map_some, hrole] at hagree <;> cases hagree
    | some owner' =>
      refine Or.inr ⟨owner, owner', rfl, rfl, mem_ofAssignment.2 ?_⟩
      rw [howner, howner', Option.map_some, Option.map_some] at hagree
      cases hrole : oldRole old new owner with
      | fixed =>
        rw [hrole] at hagree
        cases hagree
      | anchored source' =>
        obtain ⟨rfl, -⟩ := oldRole_eq_anchored_iff.1 hrole
        rw [hrole] at hagree
        exact Or.inl (newRole_eq_anchored_iff.1 (beq_iff_eq.1 hagree))
      | searched place =>
        have hplace := oldRole_eq_searched_iff.1 hrole
        have hlt := owner_lt hold hsource hplace howner
        have hdecided : place < assignment.length :=
          Nat.lt_trans hlt (List.getElem?_eq_some_iff.1 hchoice).1
        rw [hrole] at hagree
        simp only [Problem.ownersAgree, List.getElem?_take_of_lt hlt,
          List.getElem?_eq_getElem hdecided] at hagree
        -- the owner is decided by now, and not left unmatched
        cases hdecision : assignment[place] with
        | unmatched =>
          rw [hdecision] at hagree
          cases hagree
        | candidate place' =>
          rw [hdecision] at hagree
          refine Or.inr (mem_pairs.2 ⟨place, place', hplace, ?_, ?_⟩)
          · rw [List.getElem?_eq_getElem hdecided, hdecision]
          · exact newRole_eq_searched_iff.1 (beq_iff_eq.1 hagree)

end Matching

/-- The script between the graphs of two type systems realizes a matching that keeps owners. -/
theorem Script.exists_keepsOwners {ts : TypeSystem} (hold : Graph.ofTypeSystem ts = .ok old)
    (new : Graph) (config : Config) (clock : Clock) : ∃ m : Matching,
      m.IsCorrespondence old new ∧ m.KeepsOwners old new ∧
        (Script.between old new config clock).operations = m.operations old new := by
  unfold Script.between Matching.searched?
  cases hfound : (Unanchored.problem old new).best? config.workers (config.budget.allows clock) with
  | none =>
    exact ⟨_, Matching.anchors_isCorrespondence old new, Matching.anchors_keepsOwners old new, rfl⟩
  | some found =>
    have hfeasible := (Assignment.Problem.isBest_of_best?_eq_some hfound).1
    exact ⟨_, Matching.ofAssignment_isCorrespondence hfeasible.isAssignment,
      Matching.ofAssignment_keepsOwners (TypeSystem.ownersComeFirst hold) hfeasible, rfl⟩

end SchemaDelta
