import SchemaDelta.Proofs.Edit.Realization

/-!
What the steps of a script say of each vertex and each edge of two graphs.
-/

namespace SchemaDelta

variable {old new : Graph} {m : Matching}

/-! ## What steps use -/

/-- A vertex or an edge of one of two graphs. -/
inductive Piece where
  | oldVertex (id : Nat)
  | newVertex (id : Nat)
  | oldEdge (id : Nat)
  | newEdge (id : Nat)
  deriving DecidableEq

/-- The vertices and edges that a step is about. -/
def Edit.uses : Edit → List Piece
  | .insertVertex target => [.newVertex target]
  | .deleteVertex source => [.oldVertex source]
  | .changeVertex source target => [.oldVertex source, .newVertex target]
  | .insertEdge target => [.newEdge target]
  | .deleteEdge source => [.oldEdge source]
  | .changeEdge source target => [.oldEdge source, .newEdge target]

/-- Whether one of three propositions holds and the others do not. -/
def ExactlyOne (a b c : Prop) : Prop :=
  (a ∧ ¬ b ∧ ¬ c) ∨ (¬ a ∧ b ∧ ¬ c) ∨ (¬ a ∧ ¬ b ∧ c)

/-- Whether steps account for two graphs, some vertices of which are matched and some edges of which
are kept. -/
structure AccountFor (operations : List Edit) (old new : Graph) (m kept : Matching) : Prop where
  /-- Exactly the old vertices that are not matched are deleted. -/
  deleteVertex_mem_iff : ∀ source, .deleteVertex source ∈ operations ↔
    source < old.vertices.length ∧ ∀ target, (source, target) ∉ m.pairs
  /-- Exactly the new vertices that are not matched are inserted. -/
  insertVertex_mem_iff : ∀ target, .insertVertex target ∈ operations ↔
    target < new.vertices.length ∧ ∀ source, (source, target) ∉ m.pairs
  /-- Exactly the matched vertices that differ are changed into each other. -/
  changeVertex_mem_iff : ∀ source target, .changeVertex source target ∈ operations ↔
    m.RelatesVertices old new (fun v w => ¬ (v.name = w.name ∧ v.properties = w.properties))
      source target
  deleteEdge_lt : ∀ source, .deleteEdge source ∈ operations → source < old.edges.length
  insertEdge_lt : ∀ target, .insertEdge target ∈ operations → target < new.edges.length
  /-- Edges that are changed into each other lead between matched vertices and have different
  labels. -/
  changeEdge_related : ∀ source target, .changeEdge source target ∈ operations →
    m.RelatesEdges old new (· ≠ ·) source target
  kept_isOneToOne : kept.IsOneToOne
  /-- Edges that are kept lead between matched vertices and have one label. -/
  kept_related : ∀ source target, (source, target) ∈ kept.pairs →
    m.RelatesEdges old new (· = ·) source target
  oldEdges : ∀ source < old.edges.length,
    ExactlyOne (.deleteEdge source ∈ operations) (∃ target, .changeEdge source target ∈ operations)
      (∃ target, (source, target) ∈ kept.pairs)
  newEdges : ∀ target < new.edges.length,
    ExactlyOne (.insertEdge target ∈ operations) (∃ source, .changeEdge source target ∈ operations)
      (∃ source, (source, target) ∈ kept.pairs)
  /-- Edges at vertices that are deleted are deleted. -/
  deleteEdge_mem : ∀ source e, old.edge? source = some e →
    .deleteVertex e.one ∈ operations ∨ .deleteVertex e.two ∈ operations →
      .deleteEdge source ∈ operations
  /-- Edges at vertices that are inserted are inserted. -/
  insertEdge_mem : ∀ target e, new.edge? target = some e →
    .insertVertex e.one ∈ operations ∨ .insertVertex e.two ∈ operations →
      .insertEdge target ∈ operations
  /-- No vertex or edge is used by two steps, or twice by one. -/
  uses_nodup : (operations.flatMap Edit.uses).Nodup

/-! ## Steps of settlements -/

theorem exactlyOne_of_nodup {kept changed lost : List Nat} {n id : Nat}
    (h : (kept ++ changed ++ lost).Perm (List.range n)) (hid : id < n) :
    ExactlyOne (id ∈ lost) (id ∈ changed) (id ∈ kept) := by
  have hmem : id ∈ kept ++ changed ++ lost := h.mem_iff.2 (List.mem_range.2 hid)
  have hnodup := h.nodup_iff.2 List.nodup_range
  rw [List.nodup_append, List.nodup_append] at hnodup
  obtain ⟨⟨-, -, hkept⟩, -, hlost⟩ := hnodup
  unfold ExactlyOne
  rw [List.mem_append, List.mem_append] at hmem
  rcases hmem with (hmem | hmem) | hmem
  · refine Or.inr (Or.inr ⟨fun h => ?_, fun h => ?_, hmem⟩)
    · exact hlost id (List.mem_append_left _ hmem) id h rfl
    · exact hkept id hmem id h rfl
  · refine Or.inr (Or.inl ⟨fun h => ?_, hmem, fun h => ?_⟩)
    · exact hlost id (List.mem_append_right _ hmem) id h rfl
    · exact hkept id h id hmem rfl
  · refine Or.inl ⟨hmem, fun h => ?_, fun h => ?_⟩
    · exact hlost id (List.mem_append_right _ h) id hmem rfl
    · exact hlost id (List.mem_append_left _ h) id hmem rfl

theorem flatMap_pair_perm {α β : Type} (f g : α → β) (as : List α) :
    (as.flatMap fun a => [f a, g a]).Perm (as.map f ++ as.map g) := by
  induction as with
  | nil => exact .refl _
  | cons a as ih =>
    rw [List.flatMap_cons, List.map_cons, List.map_cons]
    exact ((ih.cons (g a)).trans List.perm_middle.symm).cons (f a)

theorem Settlement.uses_steps_perm {change : Nat → Nat → Edit} {delete insert : Nat → Edit}
    (oldPiece newPiece : Nat → Piece) (hchange : ∀ a b, (change a b).uses = [oldPiece a, newPiece b])
    (hdelete : ∀ a, (delete a).uses = [oldPiece a]) (hinsert : ∀ b, (insert b).uses = [newPiece b])
    (s : Settlement Nat) :
    ((s.steps change delete insert).flatMap Edit.uses).Perm
      ((s.changed.map (·.1) ++ s.deleted).map oldPiece ++
        (s.changed.map (·.2) ++ s.inserted).map newPiece) := by
  have hpairs := flatMap_pair_perm (fun pair : Nat × Nat => oldPiece pair.1)
    (fun pair => newPiece pair.2) s.changed
  unfold steps
  simp only [List.flatMap_append, List.flatMap_map, hchange, hdelete, hinsert,
    ← List.map_eq_flatMap]
  refine ((hpairs.append_right _).append_right _).trans ?_
  rw [List.perm_iff_count]
  intro piece
  simp only [List.map_append, List.map_map, Function.comp_def, List.count_append]
  omega

theorem Settlement.nodup_pieces {s : Settlement Nat} {oldPiece newPiece : Nat → Piece}
    (hold : Function.Injective oldPiece) (hnew : Function.Injective newPiece)
    (hne : ∀ a b, oldPiece a ≠ newPiece b) (holds : s.olds.Nodup) (hnews : s.news.Nodup) :
    ((s.changed.map (·.1) ++ s.deleted).map oldPiece ++
      (s.changed.map (·.2) ++ s.inserted).map newPiece).Nodup := by
  unfold olds at holds
  unfold news at hnews
  rw [List.append_assoc] at holds hnews
  refine List.nodup_append.2 ⟨holds.of_append_right.map hold, hnews.of_append_right.map hnew, ?_⟩
  intro piece holdPiece piece' hnewPiece
  obtain ⟨a, -, rfl⟩ := List.mem_map.1 holdPiece
  obtain ⟨b, -, rfl⟩ := List.mem_map.1 hnewPiece
  exact hne a b

/-! ## Steps on vertices and edges -/

section StepsOf

variable {vertices edges : Settlement Nat} {source target : Nat}

@[simp]
theorem deleteVertex_mem_stepsOf :
    .deleteVertex source ∈ stepsOf vertices edges ↔ source ∈ vertices.deleted := by
  simp [stepsOf, Settlement.steps]

@[simp]
theorem insertVertex_mem_stepsOf :
    .insertVertex target ∈ stepsOf vertices edges ↔ target ∈ vertices.inserted := by
  simp [stepsOf, Settlement.steps]

@[simp]
theorem changeVertex_mem_stepsOf :
    .changeVertex source target ∈ stepsOf vertices edges ↔ (source, target) ∈ vertices.changed := by
  simp [stepsOf, Settlement.steps]

@[simp]
theorem deleteEdge_mem_stepsOf :
    .deleteEdge source ∈ stepsOf vertices edges ↔ source ∈ edges.deleted := by
  simp [stepsOf, Settlement.steps]

@[simp]
theorem insertEdge_mem_stepsOf :
    .insertEdge target ∈ stepsOf vertices edges ↔ target ∈ edges.inserted := by
  simp [stepsOf, Settlement.steps]

@[simp]
theorem changeEdge_mem_stepsOf :
    .changeEdge source target ∈ stepsOf vertices edges ↔ (source, target) ∈ edges.changed := by
  simp [stepsOf, Settlement.steps]

theorem uses_stepsOf_nodup (holdVertices : vertices.olds.Nodup) (hnewVertices : vertices.news.Nodup)
    (holdEdges : edges.olds.Nodup) (hnewEdges : edges.news.Nodup) :
    ((stepsOf vertices edges).flatMap Edit.uses).Nodup := by
  have hvertices : ((vertices.steps .changeVertex .deleteVertex .insertVertex).flatMap
      Edit.uses).Perm _ :=
    vertices.uses_steps_perm .oldVertex .newVertex (fun _ _ => rfl) (fun _ => rfl) fun _ => rfl
  have hedges : ((edges.steps .changeEdge .deleteEdge .insertEdge).flatMap Edit.uses).Perm _ :=
    edges.uses_steps_perm .oldEdge .newEdge (fun _ _ => rfl) (fun _ => rfl) fun _ => rfl
  unfold stepsOf
  rw [List.flatMap_append, (hvertices.append hedges).nodup_iff, List.nodup_append]
  refine ⟨?_, ?_, ?_⟩
  · exact Settlement.nodup_pieces (fun _ _ h => Piece.oldVertex.inj h)
      (fun _ _ h => Piece.newVertex.inj h) (fun _ _ => Piece.noConfusion) holdVertices hnewVertices
  · exact Settlement.nodup_pieces (fun _ _ h => Piece.oldEdge.inj h)
      (fun _ _ h => Piece.newEdge.inj h) (fun _ _ => Piece.noConfusion) holdEdges hnewEdges
  · -- a vertex is not an edge
    intro piece hvertex piece' hedge heq
    simp only [List.mem_append, List.mem_map] at hvertex hedge
    grind

end StepsOf

/-! ## The account of a matching -/

open Realization

section Account

variable {edges : Settlement Nat} {operations : List Edit}

theorem mem_deleted_iff {source : Nat} : source ∈ (vertexSettlement old new m).deleted ↔
    source < old.vertices.length ∧ ∀ target, (source, target) ∉ m.pairs := by
  rw [← Matching.image?_eq_none_iff, ← Option.isNone_iff_eq_none, ← List.mem_range]
  exact List.mem_filter

theorem mem_inserted_iff {target : Nat} : target ∈ (vertexSettlement old new m).inserted ↔
    target < new.vertices.length ∧ ∀ source, (source, target) ∉ m.pairs := by
  rw [← Matching.preimage?_eq_none_iff, ← Option.isNone_iff_eq_none, ← List.mem_range]
  exact List.mem_filter

theorem mem_changed_iff (h : m.IsCorrespondence old new) {source target : Nat} :
    (source, target) ∈ (vertexSettlement old new m).changed ↔
      m.RelatesVertices old new (fun v w => ¬ v.Agrees w) source target := by
  constructor
  · exact fun hmem => (vertexSettlement_settles h).changed _ hmem
  · rintro ⟨hmem, v, w, hv, hw, hagree⟩
    refine List.mem_filter.2 ⟨hmem, ?_⟩
    simpa [hv, hw] using hagree

/-- The old edges in each part of a settlement. -/
theorem mem_olds_iff {source : Nat} : source ∈ edges.olds ↔
    (∃ target, (source, target) ∈ edges.kept) ∨ (∃ target, (source, target) ∈ edges.changed) ∨
      source ∈ edges.deleted := by
  simp [Settlement.olds]

theorem mem_news_iff {target : Nat} : target ∈ edges.news ↔
    (∃ source, (source, target) ∈ edges.kept) ∨ (∃ source, (source, target) ∈ edges.changed) ∨
      target ∈ edges.inserted := by
  simp [Settlement.news]

theorem accountFor_stepsOf (h : m.IsCorrespondence old new)
    (hedges : Settles (m.RelatesEdges old new (· = ·)) (m.RelatesEdges old new (· ≠ ·))
      (List.range old.edges.length) (List.range new.edges.length) edges) :
    AccountFor (stepsOf (vertexSettlement old new m) edges) old new m ⟨edges.kept⟩ where
  deleteVertex_mem_iff source := deleteVertex_mem_stepsOf.trans mem_deleted_iff
  insertVertex_mem_iff target := insertVertex_mem_stepsOf.trans mem_inserted_iff
  changeVertex_mem_iff source target := changeVertex_mem_stepsOf.trans (mem_changed_iff h)
  deleteEdge_lt source hmem := by
    rw [deleteEdge_mem_stepsOf] at hmem
    rw [← List.mem_range, ← hedges.olds.mem_iff]
    exact List.mem_append_right _ hmem
  insertEdge_lt target hmem := by
    rw [insertEdge_mem_stepsOf] at hmem
    rw [← List.mem_range, ← hedges.news.mem_iff]
    exact List.mem_append_right _ hmem
  changeEdge_related source target hmem := hedges.changed _ (changeEdge_mem_stepsOf.1 hmem)
  kept_isOneToOne := by
    have holds := hedges.olds.nodup_iff.2 List.nodup_range
    have hnews := hedges.news.nodup_iff.2 List.nodup_range
    exact ⟨holds.of_append_left.of_append_left, hnews.of_append_left.of_append_left⟩
  kept_related source target hmem := hedges.kept _ hmem
  oldEdges source hsource := by
    have hone := exactlyOne_of_nodup hedges.olds hsource
    simpa using hone
  newEdges target htarget := by
    have hone := exactlyOne_of_nodup hedges.news htarget
    simpa using hone
  deleteEdge_mem source e he hlost := by
    rw [deleteVertex_mem_stepsOf, deleteVertex_mem_stepsOf, mem_deleted_iff, mem_deleted_iff] at hlost
    rw [deleteEdge_mem_stepsOf]
    have hmem : source ∈ edges.olds := by
      rw [hedges.olds.mem_iff, List.mem_range]
      exact (List.getElem?_eq_some_iff.1 he).1
    -- an edge that is kept or changed leads between matched vertices
    have hapart {target : Nat} {related : String → String → Prop}
        (hrelated : m.RelatesEdges old new related source target) : False := by
      obtain ⟨⟨one, hone⟩, two, htwo⟩ := hrelated.old_matched he
      rcases hlost with hlost | hlost
      · exact hlost.2 one hone
      · exact hlost.2 two htwo
    rcases mem_olds_iff.1 hmem with ⟨target, hkept⟩ | ⟨target, hchanged⟩ | hdeleted
    · exact (hapart (hedges.kept _ hkept)).elim
    · exact (hapart (hedges.changed _ hchanged)).elim
    · exact hdeleted
  insertEdge_mem target e he hlost := by
    rw [insertVertex_mem_stepsOf, insertVertex_mem_stepsOf, mem_inserted_iff, mem_inserted_iff]
      at hlost
    rw [insertEdge_mem_stepsOf]
    have hmem : target ∈ edges.news := by
      rw [hedges.news.mem_iff, List.mem_range]
      exact (List.getElem?_eq_some_iff.1 he).1
    have hapart {source : Nat} {related : String → String → Prop}
        (hrelated : m.RelatesEdges old new related source target) : False := by
      obtain ⟨⟨one, hone⟩, two, htwo⟩ := hrelated.new_matched he
      rcases hlost with hlost | hlost
      · exact hlost.2 one hone
      · exact hlost.2 two htwo
    rcases mem_news_iff.1 hmem with ⟨source, hkept⟩ | ⟨source, hchanged⟩ | hinserted
    · exact (hapart (hedges.kept _ hkept)).elim
    · exact (hapart (hedges.changed _ hchanged)).elim
    · exact hinserted
  uses_nodup :=
    have hvertices := vertexSettlement_settles h
    uses_stepsOf_nodup (hvertices.olds.nodup_iff.2 List.nodup_range)
      (hvertices.news.nodup_iff.2 List.nodup_range) (hedges.olds.nodup_iff.2 List.nodup_range)
      (hedges.news.nodup_iff.2 List.nodup_range)

theorem AccountFor.of_perm {kept : Matching} {operations' : List Edit}
    (h : AccountFor operations old new m kept) (hperm : operations'.Perm operations) :
    AccountFor operations' old new m kept where
  deleteVertex_mem_iff := by simpa only [hperm.mem_iff] using h.deleteVertex_mem_iff
  insertVertex_mem_iff := by simpa only [hperm.mem_iff] using h.insertVertex_mem_iff
  changeVertex_mem_iff := by simpa only [hperm.mem_iff] using h.changeVertex_mem_iff
  deleteEdge_lt := by simpa only [hperm.mem_iff] using h.deleteEdge_lt
  insertEdge_lt := by simpa only [hperm.mem_iff] using h.insertEdge_lt
  changeEdge_related := by simpa only [hperm.mem_iff] using h.changeEdge_related
  kept_isOneToOne := h.kept_isOneToOne
  kept_related := h.kept_related
  oldEdges := by simpa only [hperm.mem_iff] using h.oldEdges
  newEdges := by simpa only [hperm.mem_iff] using h.newEdges
  deleteEdge_mem := by simpa only [hperm.mem_iff] using h.deleteEdge_mem
  insertEdge_mem := by simpa only [hperm.mem_iff] using h.insertEdge_mem
  uses_nodup := (hperm.flatMap_right Edit.uses).nodup_iff.2 h.uses_nodup

end Account

end SchemaDelta
