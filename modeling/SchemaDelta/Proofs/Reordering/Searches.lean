import SchemaDelta.Proofs.Reordering.Matchings
import SchemaDelta.Proofs.Reordering.Problems

/-!
The search between graphs with other numbers: its problem is similar, and so it finds the same.
-/

namespace SchemaDelta.Unanchored

open Assignment

variable {old new old' new' g h : Graph} {f : Nat → Nat}

/-- Roles, given by the anchors `a` of the one graph and `b` of the other. -/
theorem role_vertexId (ρ : g.Renaming h) {a b : Nat → Option Nat}
    (hanchor : ∀ id, b (ρ.vertexId id) = (a id).map f) (ids : List Nat) (id : Nat) :
    role b (ids.map ρ.vertexId) (ρ.vertexId id) = (role a ids id).renumbered f := by
  have hposition : (ids.map ρ.vertexId).idxOf? (ρ.vertexId id) = ids.idxOf? id := by
    simp only [List.idxOf?, List.findIdx?_map, Function.comp_def, ρ.vertexId_beq]
  unfold role
  rw [hanchor, hposition]
  cases a id with
  | some source => rfl
  | none => cases ids.idxOf? id <;> rfl

theorem ties_perm (ρ : g.Renaming h) {roleOf roleOf' : Nat → Role}
    (hrole : ∀ id, roleOf' (ρ.vertexId id) = (roleOf id).renumbered f) (id : Nat) :
    ((ties g roleOf id).map (Tie.renumbered f)).Perm (ties h roleOf' (ρ.vertexId id)) := by
  have hfixed (role : Role) : (role.renumbered f == .fixed) = (role == .fixed) := by
    cases role <;> rfl
  have houtgoing := (ρ.edges_perm.filter fun e => e.one == ρ.vertexId id).map
    fun e => (⟨true, roleOf' e.two, e.label⟩ : Tie)
  have hincoming := (ρ.edges_perm.filter fun e =>
    e.two == ρ.vertexId id && e.one != ρ.vertexId id).map
      fun e => (⟨false, roleOf' e.one, e.label⟩ : Tie)
  refine List.Perm.trans (.of_eq ?_) ((houtgoing.append hincoming).filter fun tie =>
    tie.other != .fixed)
  simp only [ties, List.filter_append, List.filter_map, List.map_append, List.map_map,
    Function.comp_def, Edge.renumbered, Tie.renumbered, hrole, hfixed, bne, ρ.vertexId_beq]

theorem member_similar (ρ : g.Renaming h) {roleOf roleOf' : Nat → Role}
    (hrole : ∀ id, roleOf' (ρ.vertexId id) = (roleOf id).renumbered f) (id : Nat) :
    (member g roleOf id).Similar f (member h roleOf' (ρ.vertexId id)) where
  kind := by simp [member]
  name := by simp [member]
  owner := by
    simp only [member, ρ.owner?_vertexId, Option.map_map]
    exact congrArg (fun role => (g.owner? id).map role) (funext fun owner => (hrole owner).symm)
  ties := ties_perm ρ hrole id

/-- The searched elements are the same, in the same order. -/
theorem problem_similar (ρ : old.Renaming old') (τ : new.Renaming new') :
    (problem old new).Similar ρ.vertexId (problem old' new') := by
  have holdRole := role_vertexId ρ (f := ρ.vertexId)
    (a := fun id => ((Matching.anchors old new).image? id).map fun _ => id)
    (b := fun id => ((Matching.anchors old' new').image? id).map fun _ => id)
    (fun id => by simp [Matching.anchors_image? ρ τ, Function.comp_def]) (oldSearched old new)
  have hnewRole := role_vertexId τ (Matching.anchors_preimage? ρ τ) (newSearched old new)
  constructor
  · simp only [problem, oldSearched_eq_map ρ τ, List.map_map, List.forall₂_map_left_iff,
      List.forall₂_map_right_iff, List.forall₂_same]
    exact fun id _ => member_similar ρ holdRole id
  · simp only [problem, newSearched_eq_map ρ τ, List.map_map, List.forall₂_map_left_iff,
      List.forall₂_map_right_iff, List.forall₂_same]
    exact fun id _ => member_similar τ hnewRole id

/-- The search finds the same assignment, or is given up alike. -/
theorem best?_eq (ρ : old.Renaming old') (τ : new.Renaming new') :
    (problem old new).best? = (problem old' new').best? :=
  (problem_similar ρ τ).best?_eq ρ.vertexId_injective

end SchemaDelta.Unanchored
