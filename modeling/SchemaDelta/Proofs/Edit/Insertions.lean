import SchemaDelta.Proofs.Edit.Length

/-!
How many edges a script inserts from one vertex to another: all of them if an end is not matched,
and otherwise as many as there are more than before.
-/

namespace SchemaDelta

variable {old new : Graph} {m : Matching}

/-! ## Inserted edges -/

/-- The edge that a step inserts. -/
def Edit.insertedEdge? : Edit → Option Nat
  | insertEdge target => some target
  | _ => none

/-- Whether an edge leads from one vertex to another. -/
def Graph.leadsFromTo (g : Graph) (one two id : Nat) : Bool :=
  (g.edge? id).any fun e => e.one == one && e.two == two

/-- How many edges from one vertex to another steps insert. -/
def Graph.insertionsBetween (g : Graph) (operations : List Edit) (one two : Nat) : Nat :=
  (operations.filterMap Edit.insertedEdge?).countP (g.leadsFromTo one two)

theorem Graph.leadsFromTo_eq {g : Graph} {id : Nat} {e : Edge} (he : g.edge? id = some e)
    (one two : Nat) : g.leadsFromTo one two id = (e.one == one && e.two == two) := by
  rw [leadsFromTo, he, Option.any_some]

theorem Graph.any_leadsFromTo_iff {g : Graph} {operation : Edit} {one two : Nat} :
    operation.insertedEdge?.any (g.leadsFromTo one two) = true ↔ ∃ target e,
      operation = .insertEdge target ∧ g.edge? target = some e ∧ e.one = one ∧ e.two = two := by
  cases operation with
  | insertEdge target => simp [Edit.insertedEdge?, leadsFromTo, Option.any_eq_true]
  | _ => simp [Edit.insertedEdge?]

theorem Graph.insertionsBetween_eq_countP (g : Graph) (operations : List Edit) (one two : Nat) :
    g.insertionsBetween operations one two =
      operations.countP fun operation => operation.insertedEdge?.any (g.leadsFromTo one two) := by
  rw [insertionsBetween, List.countP_filterMap]
  refine List.countP_congr fun operation _ => ?_
  cases operation.insertedEdge? <;> rfl

theorem Graph.length_filter_numberedEdges (g : Graph) (one two : Nat) :
    (g.numberedEdges.filter fun entry => entry.1.one == one && entry.1.two == two).length =
      (g.labelsBetween one two).length := by
  rw [← Realization.map_label_filter_numberedEdges, List.length_map]

namespace Realization

/-! ## Bundles -/

theorem filterMap_insertedEdge?_pairOff (olds news : List Strand) :
    (pairOff olds news).filterMap Edit.insertedEdge? = (news.drop olds.length).map Strand.id := by
  induction olds generalizing news with
  | nil =>
    rw [pairOff, List.filterMap_map]
    exact filterMap_eq_map_of_eq_some fun _ _ => rfl
  | cons old olds ih =>
    cases news with
    | nil =>
      rw [pairOff, List.filterMap_map, List.drop_nil, List.map_nil]
      · exact List.filterMap_eq_nil_iff.2 fun _ _ => rfl
      · exact List.cons_ne_nil old olds
    | cons new news =>
      rw [pairOff, List.filterMap_cons_none rfl, ih]
      rfl

/-- The edges that a bundle inserts are new ones in it. -/
theorem mem_of_inserted {olds news : List Strand} {target : Nat}
    (h : target ∈ (bundleOperations olds news).filterMap Edit.insertedEdge?) :
    ∃ strand ∈ news, strand.id = target := by
  obtain ⟨operation, hmem, hinserted⟩ := List.mem_filterMap.1 h
  rcases mem_bundleOperations hmem with ⟨a, -, b, -, -, rfl⟩ | ⟨a, -, rfl⟩ | ⟨b, hb, rfl⟩
  · cases hinserted
  · cases hinserted
  · exact ⟨b, hb, Option.some.inj hinserted⟩

/-- A bundle inserts as many edges as there are more new ones than old ones in it, since as many new
ones cancel as old ones. -/
theorem length_inserted (olds news : List Strand) :
    ((bundleOperations olds news).filterMap Edit.insertedEdge?).length =
      news.length - olds.length := by
  obtain ⟨holds, hnews⟩ := length_cancel (sortBy Strand.compare olds) (sortBy Strand.compare news)
  rw [(sortBy_perm Strand.compare olds).length_eq] at holds
  rw [(sortBy_perm Strand.compare news).length_eq] at hnews
  rw [bundleOperations, filterMap_insertedEdge?_pairOff, List.length_map, List.length_drop]
  omega

/-! ## All steps -/

/-- Between two vertices, only the bundle with these ends inserts edges. -/
theorem countP_inserted_bundles (old new : Graph) (m : Matching) (one two : Nat) :
    let olds := old.numberedEdges.filterMap (oldStrand? m)
    let news := new.numberedEdges.filterMap (newStrand? m)
    ((((olds ++ news).map Strand.ends).eraseDups.flatMap fun ends =>
      bundleOperations (olds.filter fun strand => strand.ends == ends)
        (news.filter fun strand => strand.ends == ends)).filterMap Edit.insertedEdge?).countP
          (new.leadsFromTo one two) =
      (news.filter fun strand => strand.ends == (one, two)).length -
        (olds.filter fun strand => strand.ends == (one, two)).length := by
  intro olds news
  have hends {ends : Nat × Nat} {target : Nat}
      (h : target ∈ (bundleOperations (olds.filter fun strand => strand.ends == ends)
        (news.filter fun strand => strand.ends == ends)).filterMap Edit.insertedEdge?) :
      (∃ strand ∈ news, strand.ends = ends) ∧
        new.leadsFromTo one two target = (ends == (one, two)) := by
    obtain ⟨strand, hstrand, rfl⟩ := mem_of_inserted h
    obtain ⟨hnew, hends⟩ := List.mem_filter.1 hstrand
    obtain rfl := beq_iff_eq.1 hends
    obtain ⟨y, hy, -, -, heq⟩ := mem_newStrands.1 hnew
    refine ⟨⟨strand, hnew, rfl⟩, ?_⟩
    rw [new.leadsFromTo_eq hy, heq]
    rfl
  rw [List.filterMap_flatMap, List.countP_eq_length_filter, List.filter_flatMap,
    ← length_inserted, flatMap_eq_of_nodup (a := (one, two)) (nodup_eraseDups _)]
  · rw [List.filter_eq_self.2 fun target h => (hends h).2.trans (beq_self_eq_true _)]
  · refine fun hout => List.filter_eq_nil_iff.2 fun target h => absurd ?_ hout
    obtain ⟨⟨strand, hstrand, heq⟩, -⟩ := hends h
    exact List.mem_eraseDups.2 (List.mem_map.2 ⟨strand, List.mem_append_right _ hstrand, heq⟩)
  · refine fun ends _ hne => List.filter_eq_nil_iff.2 fun target h => ?_
    rw [(hends h).2, beq_iff_eq]
    exact hne

/-- The edges that a script inserts are those with an end that is not matched, and those that the
bundles insert. -/
theorem insertionsBetween_operations (h : m.IsCorrespondence old new) (one two : Nat) :
    new.insertionsBetween (m.operations old new) one two =
      (new.numberedEdges.filter fun entry =>
        (newStrand? m entry).isNone && (entry.1.one == one && entry.1.two == two)).length +
      (((new.numberedEdges.filterMap (newStrand? m)).filter
          fun strand => strand.ends == (one, two)).length -
        ((old.numberedEdges.filterMap (oldStrand? m)).filter
          fun strand => strand.ends == (one, two)).length) := by
  have hvertices : (vertexOperations old new m).filterMap Edit.insertedEdge? = [] := by
    refine List.filterMap_eq_nil_iff.2 fun operation hmem => ?_
    have hstep := (vertexOperations_perm h).mem_iff.1 hmem
    simp only [Settlement.steps, List.mem_append, List.mem_map] at hstep
    rcases hstep with (⟨pair, -, rfl⟩ | ⟨source, -, rfl⟩) | ⟨target, -, rfl⟩ <;> rfl
  have hlost : ((new.numberedEdges.filter fun entry => (newStrand? m entry).isNone).map
        fun entry => Edit.insertEdge entry.2).filterMap Edit.insertedEdge? =
      (new.numberedEdges.filter fun entry => (newStrand? m entry).isNone).map (·.2) := by
    rw [List.filterMap_map]
    exact filterMap_eq_map_of_eq_some fun _ _ => rfl
  have hdeleted : ((old.numberedEdges.filter fun entry => (oldStrand? m entry).isNone).map
        fun entry => Edit.deleteEdge entry.2).filterMap Edit.insertedEdge? = [] := by
    rw [List.filterMap_map]
    exact List.filterMap_eq_nil_iff.2 fun _ _ => rfl
  rw [Graph.insertionsBetween, Matching.operations,
    ((ordered_perm old new _).filterMap _).countP_eq, List.filterMap_append, hvertices,
    List.nil_append, edgeOperations]
  simp only [List.filterMap_append, hdeleted, hlost, List.nil_append, List.countP_append]
  rw [countP_inserted_bundles, List.countP_map, List.countP_filter, List.countP_eq_length_filter]
  congr 2
  refine List.filter_congr fun entry hentry => ?_
  rw [Function.comp_apply, new.leadsFromTo_eq (List.mem_zipIdx_iff_getElem?.1 hentry),
    Bool.and_comm]

end Realization

namespace Matching

open Realization

/-- Between matched vertices, a script inserts as many edges as there are more than between what they
were. -/
theorem insertionsBetween_of_pairs (h : m.IsCorrespondence old new)
    {source source' one two : Nat} (hone : (source, one) ∈ m.pairs)
    (htwo : (source', two) ∈ m.pairs) : new.insertionsBetween (m.operations old new) one two =
      (new.labelsBetween one two).length - (old.labelsBetween source source').length := by
  have hpreimage := h.isOneToOne.isSome_preimage? hone
  have hpreimage' := h.isOneToOne.isSome_preimage? htwo
  -- no edge between matched vertices is left out of the strands
  have hlost : (new.numberedEdges.filter fun entry => (newStrand? m entry).isNone &&
      (entry.1.one == one && entry.1.two == two)) = [] := by
    refine List.filter_eq_nil_iff.2 fun entry _ hentry => ?_
    rw [isNone_newStrand?, Bool.and_eq_true, Bool.and_eq_true, beq_iff_eq, beq_iff_eq] at hentry
    obtain ⟨hnone, rfl, rfl⟩ := hentry
    rw [hpreimage, hpreimage'] at hnone
    cases hnone
  have hnews : ((new.numberedEdges.filterMap (newStrand? m)).filter
      fun strand => strand.ends == (one, two)).length = (new.labelsBetween one two).length := by
    rw [← labels_newStrands hpreimage hpreimage', List.length_map]
  have holds : ((old.numberedEdges.filterMap (oldStrand? m)).filter
      fun strand => strand.ends == (one, two)).length =
        (old.labelsBetween source source').length := by
    rw [← labels_oldStrands h.isOneToOne (h.isOneToOne.image?_eq_some_iff.2 hone)
      (h.isOneToOne.image?_eq_some_iff.2 htwo), List.length_map]
  rw [insertionsBetween_operations h, hlost, hnews, holds, List.length_nil, Nat.zero_add]

/-- Where an end is not matched, a script inserts all edges. -/
theorem insertionsBetween_of_preimage?_eq_none (h : m.IsCorrespondence old new) {one two : Nat}
    (hnone : m.preimage? one = none ∨ m.preimage? two = none) :
    new.insertionsBetween (m.operations old new) one two =
      (new.labelsBetween one two).length := by
  have hunmatched : ((m.preimage? one).isSome && (m.preimage? two).isSome) = false := by
    rcases hnone with hnone | hnone <;> simp [hnone]
  have hnews : ((new.numberedEdges.filterMap (newStrand? m)).filter
      fun strand => strand.ends == (one, two)) = [] := by
    refine List.filter_eq_nil_iff.2 fun strand hstrand hends => ?_
    obtain ⟨y, -, hone, htwo, heq⟩ := mem_newStrands.1 hstrand
    rw [heq, beq_iff_eq] at hends
    obtain ⟨rfl, rfl⟩ := Prod.mk.inj hends
    rw [hone, htwo] at hunmatched
    cases hunmatched
  rw [insertionsBetween_operations h, hnews, List.length_nil, Nat.zero_sub, Nat.add_zero,
    ← new.length_filter_numberedEdges]
  congr 1
  refine List.filter_congr fun entry _ => ?_
  rw [isNone_newStrand?]
  by_cases hends : entry.1.one = one ∧ entry.1.two = two
  · rw [hends.1, hends.2, hunmatched]
    rfl
  · have hother : (entry.1.one == one && entry.1.two == two) = false := by simpa using hends
    rw [hother, Bool.and_false]

end Matching

end SchemaDelta
