import SchemaDelta.Proofs.Assignment.Relabelling
import SchemaDelta.Proofs.Assignment.Tallies
import SchemaDelta.Proofs.Edit.Cancellations
import SchemaDelta.Proofs.Edit.Insertions

/-!
Parallel edges. A script deletes, inserts and changes as many edges between two matched vertices as it
costs to turn their labels into others, which is the least number of steps that can do that.
-/

namespace SchemaDelta

open Assignment

variable {old new : Graph} {m : Matching} {one two one' two' : Nat}

/-! ## Steps between vertices -/

/-- Whether a step is on an edge from one vertex to another: on an old edge between the first two of
the vertices or on a new one between the last two. -/
def Edit.isBetween (old new : Graph) (ends ends' : Nat × Nat) : Edit → Bool
  | .deleteEdge source => old.leadsFromTo ends.1 ends.2 source
  | .insertEdge target => new.leadsFromTo ends'.1 ends'.2 target
  | .changeEdge source target =>
    old.leadsFromTo ends.1 ends.2 source || new.leadsFromTo ends'.1 ends'.2 target
  | _ => false

namespace Realization

/-- What a step on vertices is. -/
theorem mem_vertexOperations {operation : Edit} (h : operation ∈ vertexOperations old new m) :
    (∃ source, operation = .deleteVertex source) ∨
      (∃ source target, operation = .changeVertex source target) ∨
        ∃ target, operation = .insertVertex target := by
  rcases List.mem_append.1 h with h | h
  · obtain ⟨entry, -, hentry⟩ := List.mem_filterMap.1 h
    unfold oldVertexOperation? at hentry
    split at hentry
    · cases hentry
      exact Or.inl ⟨_, rfl⟩
    · dsimp only at hentry
      split at hentry <;> cases hentry
      exact Or.inr (Or.inl ⟨_, _, rfl⟩)
  · obtain ⟨target, -, htarget⟩ := List.mem_filterMap.1 h
    unfold newVertexOperation? at htarget
    split at htarget <;> cases htarget
    exact Or.inr (Or.inr ⟨_, rfl⟩)

/-- Edges are changed between matched vertices, and only into edges with another label. -/
theorem relatesEdges_of_mem_operations {source target : Nat}
    (h : .changeEdge source target ∈ m.operations old new) :
    m.RelatesEdges old new (· ≠ ·) source target := by
  rw [Matching.operations, (ordered_perm old new _).mem_iff, List.mem_append] at h
  rcases h with h | h
  · obtain ⟨_, hstep⟩ | ⟨_, _, hstep⟩ | ⟨_, hstep⟩ := mem_vertexOperations h <;> cases hstep
  · obtain ⟨s, hsettles, hsteps⟩ := exists_settles_edges old new m
    rw [hsteps.mem_iff] at h
    exact hsettles.changed (source, target) (by simpa [Settlement.steps] using h)

section Matched

variable (hm : m.IsOneToOne) (hone : (one, one') ∈ m.pairs) (htwo : (two, two') ∈ m.pairs)

include hm hone htwo

theorem leadsFromTo_of_oldStrand {strand : Strand}
    (h : strand ∈ old.numberedEdges.filterMap (oldStrand? m)) :
    old.leadsFromTo one two strand.id = (strand.ends == (one', two')) := by
  obtain ⟨x, hx, hxone, hxtwo, -⟩ := mem_oldStrands.1 h
  have hmem := Matching.mem_of_image? hxone
  have hmem' := Matching.mem_of_image? hxtwo
  rw [old.leadsFromTo_eq hx, Bool.eq_iff_iff]
  simp only [Bool.and_eq_true, beq_iff_eq, Strand.ends, Prod.mk.injEq]
  constructor
  · rintro ⟨rfl, rfl⟩
    exact ⟨hm.eq_target hmem hone, hm.eq_target hmem' htwo⟩
  · rintro ⟨hends, hends'⟩
    exact ⟨hm.eq_source (hends ▸ hmem) hone, hm.eq_source (hends' ▸ hmem') htwo⟩

omit hm hone htwo in
theorem leadsFromTo_of_newStrand {strand : Strand}
    (h : strand ∈ new.numberedEdges.filterMap (newStrand? m)) :
    new.leadsFromTo one' two' strand.id = (strand.ends == (one', two')) := by
  obtain ⟨y, hy, -, -, heq⟩ := mem_newStrands.1 h
  rw [new.leadsFromTo_eq hy, heq]
  rfl

/-- The steps on a bundle are between its ends. -/
theorem isBetween_of_mem_bundle {ends : Nat × Nat} {operation : Edit}
    (h : operation ∈ bundleOperations
      ((old.numberedEdges.filterMap (oldStrand? m)).filter fun strand => strand.ends == ends)
      ((new.numberedEdges.filterMap (newStrand? m)).filter fun strand => strand.ends == ends)) :
    operation.isBetween old new (one, two) (one', two') = (ends == (one', two')) := by
  have hold {strand : Strand} (hstrand : strand ∈
      (old.numberedEdges.filterMap (oldStrand? m)).filter fun strand => strand.ends == ends) :
      old.leadsFromTo one two strand.id = (ends == (one', two')) := by
    obtain ⟨hmem, hends⟩ := List.mem_filter.1 hstrand
    rw [leadsFromTo_of_oldStrand hm hone htwo hmem, beq_iff_eq.1 hends]
  have hnew {strand : Strand} (hstrand : strand ∈
      (new.numberedEdges.filterMap (newStrand? m)).filter fun strand => strand.ends == ends) :
      new.leadsFromTo one' two' strand.id = (ends == (one', two')) := by
    obtain ⟨hmem, hends⟩ := List.mem_filter.1 hstrand
    rw [leadsFromTo_of_newStrand hmem, beq_iff_eq.1 hends]
  rcases mem_bundleOperations h with ⟨a, ha, b, hb, -, rfl⟩ | ⟨a, ha, rfl⟩ | ⟨b, hb, rfl⟩
  · rw [Edit.isBetween, hold ha, hnew hb, Bool.or_self]
  · exact hold ha
  · exact hnew hb

/-- Edges with an end that is not matched are not between matched vertices. -/
theorem filter_lost_eq_nil :
    ((((old.numberedEdges.filter fun entry => (oldStrand? m entry).isNone).map
        fun entry => Edit.deleteEdge entry.2) ++
      (new.numberedEdges.filter fun entry => (newStrand? m entry).isNone).map
        fun entry => Edit.insertEdge entry.2).filter
          (Edit.isBetween old new (one, two) (one', two'))) = [] := by
  have himage := hm.image?_eq_some_iff.2 hone
  have himage' := hm.image?_eq_some_iff.2 htwo
  have hpreimage := hm.preimage?_eq_some_iff.2 hone
  have hpreimage' := hm.preimage?_eq_some_iff.2 htwo
  refine List.filter_eq_nil_iff.2 fun operation h => ?_
  rcases List.mem_append.1 h with h | h
  · obtain ⟨⟨e, id⟩, hentry, rfl⟩ := List.mem_map.1 h
    obtain ⟨he, hlost⟩ := List.mem_filter.1 hentry
    rw [Edit.isBetween, old.leadsFromTo_eq (List.mem_zipIdx_iff_getElem?.1 he), Bool.and_eq_true,
      beq_iff_eq, beq_iff_eq]
    rintro ⟨rfl, rfl⟩
    simp [isNone_oldStrand?, bothMatched, himage, himage'] at hlost
  · obtain ⟨⟨e, id⟩, hentry, rfl⟩ := List.mem_map.1 h
    obtain ⟨he, hlost⟩ := List.mem_filter.1 hentry
    rw [Edit.isBetween, new.leadsFromTo_eq (List.mem_zipIdx_iff_getElem?.1 he), Bool.and_eq_true,
      beq_iff_eq, beq_iff_eq]
    rintro ⟨rfl, rfl⟩
    simp [isNone_newStrand?, hpreimage, hpreimage'] at hlost

/-- The steps between matched vertices are those on the bundle of the edges between them. -/
theorem operations_between_perm :
    ((m.operations old new).filter (Edit.isBetween old new (one, two) (one', two'))).Perm
      (bundleOperations
        ((old.numberedEdges.filterMap (oldStrand? m)).filter
          fun strand => strand.ends == (one', two'))
        ((new.numberedEdges.filterMap (newStrand? m)).filter
          fun strand => strand.ends == (one', two'))) := by
  let bundle (ends : Nat × Nat) : List Edit :=
    bundleOperations
      ((old.numberedEdges.filterMap (oldStrand? m)).filter fun strand => strand.ends == ends)
      ((new.numberedEdges.filterMap (newStrand? m)).filter fun strand => strand.ends == ends)
  have hvertices : (vertexOperations old new m).filter
      (Edit.isBetween old new (one, two) (one', two')) = [] := by
    refine List.filter_eq_nil_iff.2 fun operation h => ?_
    obtain ⟨_, rfl⟩ | ⟨_, _, rfl⟩ | ⟨_, rfl⟩ := mem_vertexOperations h <;> exact Bool.false_ne_true
  have hhere : (bundle (one', two')).filter (Edit.isBetween old new (one, two) (one', two')) =
      bundle (one', two') := by
    refine List.filter_eq_self.2 fun operation h => ?_
    rw [isBetween_of_mem_bundle hm hone htwo h, beq_self_eq_true]
  refine ((ordered_perm old new _).filter _).trans (List.Perm.of_eq ?_)
  rw [List.filter_append, hvertices, List.nil_append, edgeOperations,
    List.filter_append, filter_lost_eq_nil hm hone htwo, List.nil_append, List.filter_flatMap,
    flatMap_eq_of_nodup (a := (one', two')) (nodup_eraseDups _)]
  · exact hhere
  · intro hout
    exact hhere.trans (bundleOperations_eq_nil (mt List.mem_eraseDups.2 hout))
  · refine fun ends _ hne => List.filter_eq_nil_iff.2 fun operation h => ?_
    rw [isBetween_of_mem_bundle hm hone htwo h, beq_iff_eq]
    exact hne

/-- Between matched vertices there are as many steps as the labels cost. -/
theorem countP_isBetween : (m.operations old new).countP
      (Edit.isBetween old new (one, two) (one', two')) =
    labelCost (old.labelsBetween one two) (new.labelsBetween one' two') := by
  rw [List.countP_eq_length_filter, (operations_between_perm hm hone htwo).length_eq,
    length_bundleOperations,
    labels_newStrands (hm.isSome_preimage? hone) (hm.isSome_preimage? htwo),
    labels_oldStrands hm (hm.image?_eq_some_iff.2 hone) (hm.image?_eq_some_iff.2 htwo)]

end Matched

end Realization

open Realization Realization.Cancellation

/-- What labels cost, as they are compared in order, is the length of the longer list less what both
have in common, and it is the least number of insertions, deletions and replacements that turn the
old labels into the new ones. To compare parallel edges with these labels leaves those on each side
that the other has not, repeats counted, and takes as many steps as the labels cost, of which those
that change an edge lead to another label. So it is in every script between any two matched
vertices. -/
theorem labels_are_turned_into_others_in_the_fewest_steps (old new : List String) :
    (Tally.finished (sortBy compare old) (sortBy compare new) Tally.start).common =
      ((old : Multiset String) ∩ (new : Multiset String)).card ∧
    Tally.cost old new =
      max old.length new.length - ((old : Multiset String) ∩ (new : Multiset String)).card ∧
    Tally.cost old new = labelCost old new ∧
    IsLeast {steps | TurnsInto steps old new} (Tally.cost old new) ∧
    (∀ olds news : List Strand, (olds.map Strand.label).Perm old → (news.map Strand.label).Perm new →
      InOrder olds → InOrder news →
        ((uncancelled olds news).1.map Strand.label : Multiset String) = old - new ∧
        ((uncancelled olds news).2.map Strand.label : Multiset String) = new - old) ∧
    (∀ olds news : List Strand, (olds.map Strand.label).Perm old → (news.map Strand.label).Perm new →
      (Cancellation.bundleOperations olds news).length = Tally.cost old new ∧
      ∀ source target, .changeEdge source target ∈ Cancellation.bundleOperations olds news →
        ∃ a ∈ olds, ∃ b ∈ news, a.id = source ∧ b.id = target ∧ a.label ≠ b.label) ∧
    (∀ (g h : Graph) (m : Matching) (one one' two two' : Nat), m.IsOneToOne →
      (one, one') ∈ m.pairs → (two, two') ∈ m.pairs → (g.labelsBetween one two).Perm old →
        (h.labelsBetween one' two').Perm new →
          (m.operations g h).countP (Edit.isBetween g h (one, two) (one', two')) =
            Tally.cost old new) ∧
    ∀ (g h : Graph) (m : Matching) (source target : Nat),
      .changeEdge source target ∈ m.operations g h →
        m.RelatesEdges g h (· ≠ ·) source target := by
  have hcost : Tally.cost old new = labelCost old new := Tally.cost_eq_labelCost old new
  refine ⟨Tally.common_finished_start old new, ?_, hcost, ?_, ?_, ?_, ?_, ?_⟩
  · rw [hcost, labelCost, length_commonLabels]
  · rw [hcost]
    exact isLeast_labelCost old new
  · intro olds news hold hnew holdOrder hnewOrder
    rw [uncancelled_eq_cancel holdOrder hnewOrder, ← Multiset.coe_eq_coe.2 hold,
      ← Multiset.coe_eq_coe.2 hnew]
    exact labels_cancel olds news
  · intro olds news hold hnew
    rw [Cancellation.bundleOperations_eq, length_bundleOperations, labelCost_perm hold hnew]
    refine ⟨hcost.symm, fun source target h => ?_⟩
    rcases mem_bundleOperations h with ⟨a, ha, b, hb, hne, heq⟩ | ⟨a, -, heq⟩ | ⟨b, -, heq⟩
    · cases heq
      exact ⟨a, ha, b, hb, rfl, rfl, hne⟩
    · cases heq
    · cases heq
  · intro g h m one one' two two' hm hone htwo hold hnew
    rw [hcost, countP_isBetween hm hone htwo, labelCost_perm hold hnew]
  · exact fun g h m source target => relatesEdges_of_mem_operations

/-- Of three parallel edges two are kept and one is changed, and another one is inserted. -/
theorem parallel_edges_are_turned_into_others_in_the_fewest_steps :
    let g : Graph := ⟨⟨[⟨.field, "a", "Q.a", .empty⟩, ⟨.scalar, "Int", "Int", .empty⟩],
      [⟨0, 1, "b"⟩, ⟨0, 1, "a"⟩, ⟨0, 1, "b"⟩], by decide⟩, by decide, by decide⟩
    let h : Graph := ⟨⟨[⟨.scalar, "Int", "Int", .empty⟩, ⟨.field, "a", "Q.a", .empty⟩],
      [⟨1, 0, "a"⟩, ⟨1, 0, "d"⟩, ⟨1, 0, "b"⟩, ⟨1, 0, "c"⟩], by decide⟩, by decide, by decide⟩
    let m : Matching := ⟨[(0, 1), (1, 0)]⟩
    let olds : List Strand := [⟨1, 0, "a", 1⟩, ⟨1, 0, "b", 0⟩, ⟨1, 0, "b", 2⟩]
    let news : List Strand := [⟨1, 0, "a", 0⟩, ⟨1, 0, "b", 2⟩, ⟨1, 0, "c", 3⟩, ⟨1, 0, "d", 1⟩]
    let old : List String := ["b", "a", "b"]
    let new : List String := ["a", "d", "b", "c"]
    (m.IsOneToOne ∧ g.labelsBetween 0 1 = old ∧ h.labelsBetween 1 0 = new ∧ InOrder olds ∧
      InOrder news) ∧
    ((uncancelled olds news).1.map Strand.label : Multiset String) = old - new ∧
      (Cancellation.bundleOperations olds news).length = Tally.cost old new ∧
      (m.operations g h).countP (Edit.isBetween g h (0, 1) (1, 0)) = Tally.cost old new ∧
      Tally.cost old new = 2 := by
  intro g h m olds news old new
  have hm : m.IsOneToOne := ⟨by decide, by decide⟩
  have holdLabels : (olds.map Strand.label).Perm old := by decide
  have hnewLabels : (news.map Strand.label).Perm new := by decide
  have holds : InOrder olds := by unfold InOrder; decide
  have hnews : InOrder news := by unfold InOrder; decide
  obtain ⟨-, -, -, -, hleft, hbundle, hscript, -⟩ :=
    labels_are_turned_into_others_in_the_fewest_steps old new
  refine ⟨⟨hm, by decide, by decide, holds, hnews⟩, ?_, ?_, ?_, by decide +kernel⟩
  · exact (hleft olds news holdLabels hnewLabels holds hnews).1
  · exact (hbundle olds news holdLabels hnewLabels).1
  · exact hscript g h m 0 1 1 0 hm (by decide) (by decide) (.of_eq (by decide)) (.of_eq (by decide))

end SchemaDelta
