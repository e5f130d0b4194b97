import Mathlib.Data.List.Perm.Subperm
import SchemaDelta.Proofs.Graph.Subjects

/-!
What is around an element in the graph of a type system: its owner, and what is around the owner.
An owner is of a kind that comes before that of its parts, so a chain of owners comes to an end
before it is as long as the graph.
-/

namespace SchemaDelta

namespace Owns

variable {label : String} {part : ElementKind}

/-- A scalar owns nothing but the directives that are applied to it. -/
theorem eq_of_scalar (h : Owns .scalar label part) : part = .appliedDirective := by
  cases h
  rfl

theorem not_appliedDirective : ¬ Owns .appliedDirective label part := by
  intro h
  cases h
  contradiction

end Owns

namespace Graph

variable {g : Graph} {id owner : Nat}

theorem ancestors_eq_nil (howner : g.owner? id = none) (n : Nat) : g.ancestors n id = [] := by
  cases n with
  | zero => rfl
  | succ n => rw [ancestors, howner]

theorem ancestors_succ (howner : g.owner? id = some owner) (n : Nat) :
    g.ancestors (n + 1) id = owner :: g.ancestors n owner := by
  rw [ancestors, howner]

theorem allAncestors_eq_nil (howner : g.owner? id = none) : g.allAncestors id = [] :=
  ancestors_eq_nil howner _

/-- A chain that has come to an end does not go on. -/
theorem ancestors_succ_of_length_lt {n : Nat} (h : (g.ancestors n id).length < n) :
    g.ancestors (n + 1) id = g.ancestors n id := by
  induction n generalizing id with
  | zero => exact absurd h (Nat.not_lt_zero _)
  | succ n ih =>
    cases howner : g.owner? id with
    | none => rw [ancestors_eq_nil howner, ancestors_eq_nil howner]
    | some owner =>
      rw [ancestors_succ howner, List.length_cons] at h
      rw [ancestors_succ howner, ancestors_succ howner, ih (by omega)]

end Graph

namespace TypeSystem

variable {ts : TypeSystem} {g : Graph} (h : Graph.ofTypeSystem ts = .ok g) {id owner ancestor : Nat}
  {v w : Vertex}

include h

/-! ## Owners -/

theorem exists_owns_of_owner? (howner : g.owner? id = some owner) : ∃ v w label,
    g.vertex? id = some v ∧ g.vertex? owner = some w ∧ Owns w.kind label v.kind := by
  obtain ⟨v, w, label, hv, hw, hmem⟩ := exists_element_of_owner? h howner
  exact ⟨v, w, label, hv, hw, owns_of_mem_entries hmem⟩

/-- Induction from owners to what they own. -/
theorem owner_induction {P : Nat → Prop} (definition : ∀ id, g.owner? id = none → P id)
    (part : ∀ id owner, g.owner? id = some owner → P owner → P id) (id : Nat) : P id := by
  -- by the kind of the element, for that of its owner comes before it
  induction hrank : ((g.vertex? id).map fun v => v.kind.rank).getD 0 using Nat.strongRecOn
    generalizing id with
  | ind rank ih =>
    cases howner : g.owner? id with
    | none => exact definition id howner
    | some owner =>
      obtain ⟨v, w, label, hv, hw, howns⟩ := exists_owns_of_owner? h howner
      refine part id owner howner (ih _ ?_ owner rfl)
      rw [← hrank, hv, hw]
      exact howns.rank_lt

/-! ## Chains of owners -/

/-- What is around an element is there, and of a kind that comes before its own. -/
theorem exists_rank_lt_of_mem_ancestors {n : Nat} (hmem : ancestor ∈ g.ancestors n id) : ∃ v w,
    g.vertex? id = some v ∧ g.vertex? ancestor = some w ∧ w.kind.rank < v.kind.rank := by
  induction n generalizing id with
  | zero => cases hmem
  | succ n ih =>
    cases howner : g.owner? id with
    | none =>
      rw [Graph.ancestors_eq_nil howner] at hmem
      cases hmem
    | some owner =>
      obtain ⟨v, w, label, hv, hw, howns⟩ := exists_owns_of_owner? h howner
      rw [Graph.ancestors_succ howner] at hmem
      rcases List.mem_cons.1 hmem with rfl | hmem
      · exact ⟨v, w, hv, hw, howns.rank_lt⟩
      · obtain ⟨w', u, hw', hu, hlt⟩ := ih hmem
        cases hw.symm.trans hw'
        exact ⟨v, u, hv, hu, Nat.lt_trans hlt howns.rank_lt⟩

theorem nodup_cons_ancestors (n id : Nat) : (id :: g.ancestors n id).Nodup := by
  induction n generalizing id with
  | zero => exact List.nodup_singleton id
  | succ n ih =>
    refine List.nodup_cons.2 ⟨fun hmem => ?_, ?_⟩
    · obtain ⟨v, w, hv, hw, hlt⟩ := exists_rank_lt_of_mem_ancestors h hmem
      cases hv.symm.trans hw
      exact Nat.lt_irrefl _ hlt
    · cases howner : g.owner? id with
      | none => exact Graph.ancestors_eq_nil howner _ ▸ .nil
      | some owner => exact Graph.ancestors_succ howner n ▸ ih owner

/-- A chain of owners is shorter than the graph, whose vertices it has each at most once. -/
theorem length_ancestors_lt (hv : g.vertex? id = some v) (n : Nat) :
    (g.ancestors n id).length < g.vertices.length := by
  have hsubset : (id :: g.ancestors n id) ⊆ List.range g.vertices.length := by
    intro ancestor hmem
    refine List.mem_range.2 (Graph.vertex?_isSome.1 ?_)
    rcases List.mem_cons.1 hmem with rfl | hmem
    · rw [hv]
      rfl
    · obtain ⟨-, w, -, hw, -⟩ := exists_rank_lt_of_mem_ancestors h hmem
      rw [hw]
      rfl
  have hle := ((nodup_cons_ancestors h n id).subperm hsubset).length_le
  rwa [List.length_cons, List.length_range] at hle

/-- What is around an element is its owner, and what is around that. -/
theorem allAncestors_eq_cons (howner : g.owner? id = some owner) :
    g.allAncestors id = owner :: g.allAncestors owner := by
  obtain ⟨v, w, label, hv, hw, howns⟩ := exists_owns_of_owner? h howner
  unfold Graph.allAncestors
  rw [← Graph.ancestors_succ_of_length_lt (length_ancestors_lt h hv _), Graph.ancestors_succ howner]

theorem mem_allAncestors_iff (howner : g.owner? id = some owner) :
    ancestor ∈ g.allAncestors id ↔ ancestor = owner ∨ ancestor ∈ g.allAncestors owner := by
  rw [allAncestors_eq_cons h howner, List.mem_cons]

/-- What is inside a scalar is owned by it. -/
theorem owner?_of_scalar_mem_allAncestors (hmem : ancestor ∈ g.allAncestors id)
    (hw : g.vertex? ancestor = some w) (hkind : w.kind = .scalar) :
    g.owner? id = some ancestor := by
  induction id using owner_induction h with
  | definition id howner =>
    rw [Graph.allAncestors_eq_nil howner] at hmem
    cases hmem
  | part id owner howner ih =>
    rcases (mem_allAncestors_iff h howner).1 hmem with rfl | hmem
    · exact howner
    · -- the owner would be an applied directive on the scalar, and own something
      obtain ⟨u, w', label, hu, hw', howns⟩ := exists_owns_of_owner? h (ih hmem)
      obtain ⟨v, u', label', hv, hu', howns'⟩ := exists_owns_of_owner? h howner
      cases hw.symm.trans hw'
      cases hu.symm.trans hu'
      rw [hkind] at howns
      rw [howns.eq_of_scalar] at howns'
      exact absurd howns' Owns.not_appliedDirective

/-- Of what is around an element and comes in some selection, there is an outermost one. -/
theorem exists_outermost {selected : Nat → Prop}
    (hsome : ∃ ancestor ∈ g.allAncestors id, selected ancestor) :
    ∃ ancestor ∈ g.allAncestors id, selected ancestor ∧
      ∀ outer ∈ g.allAncestors ancestor, ¬ selected outer := by
  induction id using owner_induction h with
  | definition id howner =>
    obtain ⟨ancestor, hmem, -⟩ := hsome
    rw [Graph.allAncestors_eq_nil howner] at hmem
    cases hmem
  | part id owner howner ih =>
    rw [allAncestors_eq_cons h howner]
    by_cases hmore : ∃ ancestor ∈ g.allAncestors owner, selected ancestor
    · obtain ⟨ancestor, hmem, hselected⟩ := ih hmore
      exact ⟨ancestor, List.mem_cons_of_mem _ hmem, hselected⟩
    · rw [not_exists] at hmore
      obtain ⟨ancestor, hmem, hselected⟩ := hsome
      rcases (mem_allAncestors_iff h howner).1 hmem with rfl | hmem
      · exact ⟨ancestor, List.mem_cons_self, hselected, fun outer hout hsel =>
          hmore outer ⟨hout, hsel⟩⟩
      · exact absurd ⟨hmem, hselected⟩ (hmore ancestor)

end TypeSystem

end SchemaDelta
