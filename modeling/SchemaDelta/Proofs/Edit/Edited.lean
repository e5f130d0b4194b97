import SchemaDelta.Edit.Edited
import SchemaDelta.Proofs.Edit.Realization

/-!
Steps that settle the vertices and edges of two graphs make the one into the other, in whatever
order they are carried out.
-/

namespace SchemaDelta

namespace EditedGraph

variable {α : Type} {origin : α → Origin}

/-! ## What becomes of one vertex or edge -/

namespace Alteration

/-- What an alteration leaves of a vertex or edge. -/
def outcome? (origin : α → Origin) (a : α) : Alteration α → Option α
  | insert _ => some a
  | delete id => if origin a = .old id then none else some a
  | change id changed => if origin a = .old id then some (changed a) else some a

/-- What an alteration puts in. -/
def inserted : Alteration α → List α
  | insert a => [a]
  | _ => []

/-- The number of the old vertex or edge that an alteration deletes or changes. -/
def touched? : Alteration α → Option Nat
  | insert _ => none
  | delete id => some id
  | change id _ => some id

/-- Whether an alteration puts in only what is new, and changes nothing into something else. -/
def IsSound (origin : α → Origin) : Alteration α → Prop
  | insert a => ∃ id, origin a = .new id
  | delete _ => True
  | change _ changed => ∀ a, origin (changed a) = origin a

theorem alter_eq (as : List α) (alteration : Alteration α) :
    alter origin as alteration =
      as.filterMap (fun a => outcome? origin a alteration) ++ alteration.inserted := by
  cases alteration with
  | insert a => simp [alter, outcome?, inserted]
  | delete id =>
    simp only [alter, outcome?, inserted, List.append_nil]
    induction as with
    | nil => rfl
    | cons a as ih =>
      by_cases h : origin a = .old id
      · simp [h, ih]
      · simp [h, ih]
  | change id changed =>
    simp only [alter, outcome?, inserted, List.append_nil]
    refine (filterMap_eq_map_of_eq_some fun a _ => ?_).symm
    by_cases h : origin a = .old id
    · rw [if_pos h, if_pos h]
    · rw [if_neg h, if_neg h]

theorem outcome?_of_ne {a : α} {id : Nat} {alteration : Alteration α} (ha : origin a = .old id)
    (h : alteration.touched? ≠ some id) : outcome? origin a alteration = some a := by
  cases alteration with
  | insert _ => rfl
  | delete other =>
    refine if_neg fun heq => h ?_
    rw [ha] at heq
    cases heq
    rfl
  | change other changed =>
    refine if_neg fun heq => h ?_
    rw [ha] at heq
    cases heq
    rfl

theorem outcome?_of_new {a : α} {id : Nat} (alteration : Alteration α) (ha : origin a = .new id) :
    outcome? origin a alteration = some a := by
  cases alteration with
  | insert _ => rfl
  | delete other => exact if_neg (by rw [ha]; exact Origin.noConfusion)
  | change other changed => exact if_neg (by rw [ha]; exact Origin.noConfusion)

theorem origin_of_outcome? {a b : α} {alteration : Alteration α} (hsound : alteration.IsSound origin)
    (h : outcome? origin a alteration = some b) : origin b = origin a := by
  cases alteration with
  | insert _ =>
    cases h
    rfl
  | delete other =>
    simp only [outcome?] at h
    split at h
    · cases h
    · cases h
      rfl
  | change other changed =>
    simp only [outcome?] at h
    split at h
    · cases h
      exact hsound a
    · cases h
      rfl

/-! ## Several alterations -/

/-- What several alterations leave of a vertex or edge. -/
def outcomes? (origin : α → Origin) (alterations : List (Alteration α)) (a : α) : Option α :=
  alterations.foldlM (outcome? origin) a

theorem outcomes?_of_not_mem {alterations : List (Alteration α)} {a : α} {id : Nat}
    (ha : origin a = .old id) (h : id ∉ alterations.filterMap touched?) :
    outcomes? origin alterations a = some a := by
  unfold outcomes?
  induction alterations with
  | nil => rfl
  | cons alteration alterations ih =>
    simp only [List.mem_filterMap, List.mem_cons, exists_eq_or_imp, not_or] at h ih
    rw [List.foldlM_cons, outcome?_of_ne ha h.1]
    exact ih h.2

theorem outcomes?_of_new {a : α} {id : Nat} (alterations : List (Alteration α))
    (ha : origin a = .new id) : outcomes? origin alterations a = some a := by
  unfold outcomes?
  induction alterations with
  | nil => rfl
  | cons alteration alterations ih =>
    rw [List.foldlM_cons, outcome?_of_new alteration ha]
    exact ih

/-- If nothing is touched twice, one alteration alone says what becomes of what it touches. -/
theorem outcomes?_of_mem {alterations : List (Alteration α)} {alteration : Alteration α} {a : α}
    {id : Nat} (hsound : ∀ alteration ∈ alterations, alteration.IsSound origin)
    (hnodup : (alterations.filterMap touched?).Nodup) (hmem : alteration ∈ alterations)
    (htouched : alteration.touched? = some id) (ha : origin a = .old id) :
    outcomes? origin alterations a = outcome? origin a alteration := by
  induction alterations with
  | nil => cases hmem
  | cons first alterations ih =>
    have hrest : ∀ alteration ∈ alterations, alteration.IsSound origin :=
      fun alteration h => hsound alteration (List.mem_cons_of_mem _ h)
    rcases List.mem_cons.1 hmem with rfl | hmem
    · -- what the first alteration leaves is not touched again
      rw [List.filterMap_cons, htouched, List.nodup_cons] at hnodup
      unfold outcomes?
      rw [List.foldlM_cons]
      cases houtcome : outcome? origin a alteration with
      | none => rfl
      | some b =>
        have hb := origin_of_outcome? (hsound alteration List.mem_cons_self) houtcome
        exact outcomes?_of_not_mem (hb.trans ha) hnodup.1
    · -- the first alteration is about something else
      have hid : id ∈ alterations.filterMap touched? :=
        List.mem_filterMap.2 ⟨alteration, hmem, htouched⟩
      have hfirst : first.touched? ≠ some id ∧ (alterations.filterMap touched?).Nodup := by
        cases hfirst : first.touched? with
        | none =>
          rw [List.filterMap_cons, hfirst] at hnodup
          exact ⟨by simp, hnodup⟩
        | some other =>
          rw [List.filterMap_cons, hfirst, List.nodup_cons] at hnodup
          refine ⟨fun heq => ?_, hnodup.2⟩
          cases heq
          exact hnodup.1 hid
      have hlater := ih hrest hfirst.2 hmem
      unfold outcomes? at hlater ⊢
      rw [List.foldlM_cons, outcome?_of_ne ha hfirst.1]
      exact hlater

theorem foldl_alter_eq {alterations : List (Alteration α)}
    (hsound : ∀ alteration ∈ alterations, alteration.IsSound origin) (as : List α) :
    alterations.foldl (alter origin) as =
      as.filterMap (outcomes? origin alterations) ++ alterations.flatMap inserted := by
  induction alterations generalizing as with
  | nil =>
    have hnone : outcomes? origin ([] : List (Alteration α)) = some := rfl
    simp [hnone]
  | cons alteration alterations ih =>
    rw [List.foldl_cons, ih fun a h => hsound a (List.mem_cons_of_mem _ h), alter_eq,
      List.filterMap_append, List.filterMap_filterMap, List.flatMap_cons, List.append_assoc]
    congr 2
    -- what is put in stays as it is
    cases alteration with
    | insert a =>
      obtain ⟨id, hid⟩ := hsound (.insert a) List.mem_cons_self
      simp [inserted, outcomes?_of_new alterations hid]
    | delete id => rfl
    | change id changed => rfl

end Alteration

/-! ## Settlements -/

section Settled

open Alteration

variable {become : Nat → α → α} {start fresh : Nat → α} {s : Settlement Nat}
  {alterations : List (Alteration α)} {olds : List Nat}

/-- The alterations of a settlement. -/
def alterationsOf (become : Nat → α → α) (fresh : Nat → α) (s : Settlement Nat) :
    List (Alteration α) :=
  s.changed.map (fun pair => change pair.1 (become pair.2)) ++ s.deleted.map delete ++
    s.inserted.map fun id => insert (fresh id)

theorem isSound_of_mem_alterationsOf (hfresh : ∀ id, origin (fresh id) = .new id)
    (hbecome : ∀ id a, origin (become id a) = origin a) :
    ∀ alteration ∈ alterationsOf become fresh s, alteration.IsSound origin := by
  intro alteration h
  rcases List.mem_append.1 h with h | h
  · rcases List.mem_append.1 h with h | h
    · obtain ⟨pair, -, rfl⟩ := List.mem_map.1 h
      exact hbecome pair.2
    · obtain ⟨id, -, rfl⟩ := List.mem_map.1 h
      trivial
  · obtain ⟨id, -, rfl⟩ := List.mem_map.1 h
    exact ⟨id, hfresh id⟩

theorem touched_alterationsOf (become : Nat → α → α) (fresh : Nat → α) (s : Settlement Nat) :
    (alterationsOf become fresh s).filterMap touched? = s.changed.map (·.1) ++ s.deleted := by
  simp [alterationsOf, List.filterMap_append, List.filterMap_map, touched?, Function.comp_def]

theorem inserted_alterationsOf (become : Nat → α → α) (fresh : Nat → α) (s : Settlement Nat) :
    (alterationsOf become fresh s).flatMap inserted = s.inserted.map fresh := by
  have hdeleted : s.deleted.flatMap (fun _ => ([] : List α)) = [] :=
    List.flatMap_eq_nil_iff.2 fun _ _ => rfl
  have hchanged : s.changed.flatMap (fun _ => ([] : List α)) = [] :=
    List.flatMap_eq_nil_iff.2 fun _ _ => rfl
  unfold alterationsOf
  simp only [List.flatMap_append, List.flatMap_map, inserted, hdeleted, hchanged, List.nil_append]
  exact List.map_eq_flatMap.symm

/-- The alterations of a settlement leave what is kept, what is changed, and what is put in. -/
theorem foldl_alter_perm
    (hstart : ∀ id, origin (start id) = .old id) (hfresh : ∀ id, origin (fresh id) = .new id)
    (hbecome : ∀ id a, origin (become id a) = origin a)
    (halterations : alterations.Perm (alterationsOf become fresh s))
    (holds : s.olds.Perm olds) (hnodup : olds.Nodup) :
    (alterations.foldl (alter origin) (olds.map start)).Perm
      (s.kept.map (fun pair => start pair.1) ++
        s.changed.map (fun pair => become pair.2 (start pair.1)) ++ s.inserted.map fresh) := by
  have hsound : ∀ alteration ∈ alterations, alteration.IsSound origin := by
    intro alteration h
    exact isSound_of_mem_alterationsOf hfresh hbecome alteration (halterations.mem_iff.1 h)
  have htouched := halterations.filterMap touched?
  rw [touched_alterationsOf] at htouched
  -- a settlement has each old vertex or edge once, so none is touched twice
  have hdistinct := holds.nodup_iff.2 hnodup
  unfold Settlement.olds at hdistinct
  rw [List.append_assoc] at hdistinct
  have honce : (alterations.filterMap touched?).Nodup :=
    htouched.nodup_iff.2 hdistinct.of_append_right
  have hkept : s.kept.filterMap (outcomes? origin alterations ∘ start ∘ fun pair => pair.1) =
      s.kept.map fun pair => start pair.1 := by
    apply filterMap_eq_map_of_eq_some
    intro pair hpair
    apply outcomes?_of_not_mem (hstart pair.1)
    intro h
    exact (List.nodup_append.1 hdistinct).2.2 _ (List.mem_map_of_mem hpair) _
      (htouched.mem_iff.1 h) rfl
  have hchanged : s.changed.filterMap (outcomes? origin alterations ∘ start ∘ fun pair => pair.1) =
      s.changed.map fun pair => become pair.2 (start pair.1) := by
    apply filterMap_eq_map_of_eq_some
    intro pair hpair
    have hmem : change pair.1 (become pair.2) ∈ alterations :=
      halterations.mem_iff.2 (List.mem_append_left _ (List.mem_append_left _
        (List.mem_map_of_mem hpair)))
    exact (outcomes?_of_mem hsound honce hmem rfl (hstart pair.1)).trans (if_pos (hstart pair.1))
  have hdeleted : s.deleted.filterMap (outcomes? origin alterations ∘ start) = [] := by
    apply List.filterMap_eq_nil_iff.2
    intro id hid
    have hmem : delete id ∈ alterations :=
      halterations.mem_iff.2 (List.mem_append_left _ (List.mem_append_right _
        (List.mem_map_of_mem hid)))
    exact (outcomes?_of_mem hsound honce hmem rfl (hstart id)).trans (if_pos (hstart id))
  rw [foldl_alter_eq hsound]
  refine List.Perm.append ?_ ?_
  · refine ((holds.map start).filterMap _).symm.trans (List.Perm.of_eq ?_)
    unfold Settlement.olds
    simp only [List.map_append, List.filterMap_append, List.map_map, List.filterMap_map]
    rw [hkept, hchanged, hdeleted, List.append_nil]
  · refine (halterations.flatMap_right _).trans (List.Perm.of_eq ?_)
    exact inserted_alterationsOf become fresh s

end Settled

/-! ## Whole graphs -/

variable {old new : Graph} {m : Matching}

theorem vertices_foldl_step (operations : List Edit) (g : EditedGraph) :
    (operations.foldl (step new m) g).vertices =
      (operations.filterMap (vertexAlteration? new)).foldl (alter EditedVertex.origin)
        g.vertices := by
  induction operations generalizing g with
  | nil => rfl
  | cons operation operations ih =>
    rw [List.foldl_cons, ih, List.filterMap_cons]
    unfold step
    cases vertexAlteration? new operation <;> rfl

theorem edges_foldl_step (operations : List Edit) (g : EditedGraph) :
    (operations.foldl (step new m) g).edges =
      (operations.filterMap (edgeAlteration? new m)).foldl (alter EditedEdge.origin) g.edges := by
  induction operations generalizing g with
  | nil => rfl
  | cons operation operations ih =>
    rw [List.foldl_cons, ih, List.filterMap_cons]
    unfold step
    cases edgeAlteration? new m operation <;> rfl

section Matched

variable {vertices edges : Settlement Nat} {operations : List Edit}

theorem vertices_after_perm
    (hsettles : vertices.olds.Perm old.vertexIds)
    (hoperations : operations.Perm (stepsOf vertices edges)) :
    (after old new m operations).vertices.Perm
      (vertices.kept.map (fun pair => oldVertex old pair.1) ++
        vertices.changed.map (fun pair => becomeVertex new pair.2 (oldVertex old pair.1)) ++
        vertices.inserted.map (newVertex new)) := by
  unfold after
  rw [vertices_foldl_step]
  refine foldl_alter_perm (fun _ => rfl) (fun _ => rfl) (fun _ _ => rfl) ?_ hsettles
    List.nodup_range
  refine (hoperations.filterMap _).trans (List.Perm.of_eq ?_)
  simp [alterationsOf, stepsOf, Settlement.steps, List.filterMap_append, List.filterMap_map,
    vertexAlteration?, Function.comp_def]

theorem edges_after_perm
    (hsettles : edges.olds.Perm (List.range old.edges.length))
    (hoperations : operations.Perm (stepsOf vertices edges)) :
    (after old new m operations).edges.Perm
      (edges.kept.map (fun pair => oldEdge old pair.1) ++
        edges.changed.map (fun pair => becomeEdge new pair.2 (oldEdge old pair.1)) ++
        edges.inserted.map (newEdge new m)) := by
  unfold after
  rw [edges_foldl_step]
  refine foldl_alter_perm (fun _ => rfl) (fun _ => rfl) (fun _ _ => rfl) ?_ hsettles
    List.nodup_range
  refine (hoperations.filterMap _).trans (List.Perm.of_eq ?_)
  simp [alterationsOf, stepsOf, Settlement.steps, List.filterMap_append, List.filterMap_map,
    edgeAlteration?, Function.comp_def]

end Matched

end EditedGraph

end SchemaDelta
