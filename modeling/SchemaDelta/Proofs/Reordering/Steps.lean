import SchemaDelta.Proofs.Edit.Realization
import SchemaDelta.Proofs.Reordering.Matchings

/-!
The steps that realize a matching between graphs with other numbers, before they are put in order.
Parallel edges are paired off as before, since equal edges keep the order of their numbers.
-/

namespace SchemaDelta

variable {old new old' new' : Graph} {m m' : Matching}

/-- A step between vertices or edges that have other numbers now. -/
def Edit.renumbered (ρ : old.Renaming old') (τ : new.Renaming new') : Edit → Edit
  | insertVertex target => .insertVertex (τ.vertexId target)
  | deleteVertex source => .deleteVertex (ρ.vertexId source)
  | changeVertex source target => .changeVertex (ρ.vertexId source) (τ.vertexId target)
  | insertEdge target => .insertEdge (τ.edgeId target)
  | deleteEdge source => .deleteEdge (ρ.edgeId source)
  | changeEdge source target => .changeEdge (ρ.edgeId source) (τ.edgeId target)

theorem Edit.renumbered_injective (ρ : old.Renaming old') (τ : new.Renaming new') :
    (Edit.renumbered ρ τ).Injective := by
  have hsources := ρ.vertexId_injective
  have htargets := τ.vertexId_injective
  have hsourceEdges := ρ.edgeId_injective
  have htargetEdges := τ.edgeId_injective
  intro a b h
  cases a <;> cases b <;> simp only [renumbered, reduceCtorEq, insertVertex.injEq,
    deleteVertex.injEq, changeVertex.injEq, insertEdge.injEq, deleteEdge.injEq,
    changeEdge.injEq] at h ⊢
  all_goals grind [Function.Injective]

namespace Realization

/-! ## Steps on vertices -/

section Vertices

variable {ρ : old.Renaming old'} {τ : new.Renaming new'} (h : m.IsRenamed ρ τ m')
  (hm : m.IsOneToOne) (hm' : m'.IsOneToOne)

include h hm hm'

theorem oldVertexOperation?_renumbered (v : Vertex) (id : Nat) :
    oldVertexOperation? m' new' (v, ρ.vertexId id) =
      (oldVertexOperation? m new (v, id)).map (Edit.renumbered ρ τ) := by
  unfold oldVertexOperation?
  simp only [h.image?_vertexId hm hm']
  cases m.image? id with
  | none => rfl
  | some target =>
    simp only [Option.map_some, τ.vertex?_vertexId]
    split <;> rfl

theorem newVertexOperation?_renumbered (id : Nat) : newVertexOperation? m' (τ.vertexId id) =
    (newVertexOperation? m id).map (Edit.renumbered ρ τ) := by
  unfold newVertexOperation?
  rw [h.preimage?_vertexId hm hm']
  cases m.preimage? id <;> rfl

theorem vertexOperations_renumbered_perm :
    ((vertexOperations old new m).map (Edit.renumbered ρ τ)).Perm
      (vertexOperations old' new' m') := by
  unfold vertexOperations
  rw [List.map_append]
  exact (map_filterMap_perm ρ.numberedVertices_perm fun entry =>
      oldVertexOperation?_renumbered h hm hm' entry.1 entry.2).append
    (map_filterMap_perm τ.vertexIds_perm (newVertexOperation?_renumbered h hm hm'))

end Vertices

/-! ## Bundles -/

/-- A strand between vertices that have other numbers now, and with another number itself. -/
def Strand.renumbered (f g : Nat → Nat) (strand : Strand) : Strand :=
  ⟨f strand.one, f strand.two, strand.label, g strand.id⟩

/-- Whether strands are of different edges, and equal ones come in the same order under other
numbers. -/
structure KeepsOrder (g : Nat → Nat) (strands : List Strand) : Prop where
  eq_of_id : ∀ a ∈ strands, ∀ b ∈ strands, a.id = b.id → a = b
  compare_id : ∀ a ∈ strands, ∀ b ∈ strands, a.label = b.label →
    compare (g a.id) (g b.id) = compare a.id b.id

theorem sortBy_strands {f g : Nat → Nat} {strands strands' : List Strand} (hg : g.Injective)
    (horder : KeepsOrder g strands) (hperm : (strands.map (Strand.renumbered f g)).Perm strands') :
    sortBy Strand.compare strands' = (sortBy Strand.compare strands).map (Strand.renumbered f g) := by
  rw [← sortBy_eq_of_perm hperm, sortBy_map]
  · intro a ha b hb
    unfold Strand.compare
    simp only [compareLex, compareOn, Strand.renumbered]
    -- numbers decide between equal labels only
    cases hlabel : compare a.label b.label with
    | eq => exact horder.compare_id a ha b hb (Std.LawfulEqOrd.eq_of_compare hlabel)
    | _ => rfl
  · intro x hx y hy hcompare
    obtain ⟨a, ha, rfl⟩ := List.mem_map.1 hx
    obtain ⟨b, hb, rfl⟩ := List.mem_map.1 hy
    have hid := Std.LawfulEqOrd.eq_of_compare (compareLex_eq_eq.1 hcompare).2
    rw [horder.eq_of_id a ha b hb (hg hid)]

theorem cancel_renumbered (f g g' : Nat → Nat) (olds news : List Strand) :
    cancel (olds.map (Strand.renumbered f g)) (news.map (Strand.renumbered f g')) =
      ((cancel olds news).1.map (Strand.renumbered f g),
        (cancel olds news).2.map (Strand.renumbered f g')) := by
  induction olds generalizing news with
  | nil => rfl
  | cons old olds ih =>
    simp only [List.map_cons, cancel, List.any_map, List.eraseP_map, Function.comp_def,
      Strand.renumbered]
    split
    · exact ih _
    · exact congrArg (fun rest => (_ :: rest.1, rest.2)) (ih news)

theorem pairOff_renumbered (ρ : old.Renaming old') (τ : new.Renaming new') (f : Nat → Nat)
    (olds news : List Strand) :
    pairOff (olds.map (Strand.renumbered f ρ.edgeId)) (news.map (Strand.renumbered f τ.edgeId)) =
      (pairOff olds news).map (Edit.renumbered ρ τ) := by
  induction olds generalizing news with
  | nil => simp [pairOff, Edit.renumbered, Strand.renumbered]
  | cons old olds ih =>
    cases news with
    | nil => simp [pairOff, Edit.renumbered, Strand.renumbered]
    | cons new news => exact congrArg (_ :: ·) (ih news)

theorem bundleOperations_renumbered {ρ : old.Renaming old'} {τ : new.Renaming new'} {f : Nat → Nat}
    {olds news olds' news' : List Strand} (hold : KeepsOrder ρ.edgeId olds)
    (hnew : KeepsOrder τ.edgeId news)
    (holdPerm : (olds.map (Strand.renumbered f ρ.edgeId)).Perm olds')
    (hnewPerm : (news.map (Strand.renumbered f τ.edgeId)).Perm news') :
    bundleOperations olds' news' = (bundleOperations olds news).map (Edit.renumbered ρ τ) := by
  unfold bundleOperations
  rw [sortBy_strands ρ.edgeId_injective hold holdPerm,
    sortBy_strands τ.edgeId_injective hnew hnewPerm, cancel_renumbered]
  exact pairOff_renumbered ρ τ f _ _

/-! ## Steps on edges -/

section Edges

variable {ρ : old.Renaming old'} {τ : new.Renaming new'} (h : m.IsRenamed ρ τ m')
  (hm : m.IsOneToOne) (hm' : m'.IsOneToOne)

theorem oldStrands_keepsOrder (ρ : old.Renaming old') (hm : m.IsOneToOne) (ends : Nat × Nat) :
    KeepsOrder ρ.edgeId
      ((old.numberedEdges.filterMap (oldStrand? m)).filter fun strand => strand.ends == ends) where
  eq_of_id := by
    rintro ⟨one, two, label, id⟩ ha ⟨one', two', label', id'⟩ hb rfl
    obtain ⟨x, hx, hone, htwo, hlabel⟩ := mem_oldStrands.1 (List.mem_of_mem_filter ha)
    obtain ⟨y, hy, hone', htwo', hlabel'⟩ := mem_oldStrands.1 (List.mem_of_mem_filter hb)
    cases hx.symm.trans hy
    cases hone.symm.trans hone'
    cases htwo.symm.trans htwo'
    cases hlabel.trans hlabel'.symm
    rfl
  compare_id a ha b hb hlabels := by
    obtain ⟨x, hx, hone, htwo, hlabel⟩ := mem_oldStrands.1 (List.mem_of_mem_filter ha)
    obtain ⟨y, hy, hone', htwo', hlabel'⟩ := mem_oldStrands.1 (List.mem_of_mem_filter hb)
    obtain ⟨hends, hends'⟩ : a.one = b.one ∧ a.two = b.two := by
      simpa [Strand.ends] using
        (beq_iff_eq.1 (List.mem_filter.1 ha).2).trans (beq_iff_eq.1 (List.mem_filter.1 hb).2).symm
    rw [hends] at hone
    rw [hends'] at htwo
    -- edges between the same matched vertices, with one label
    have hxy : x = y := by
      obtain ⟨one, two, label⟩ := x
      obtain ⟨one', two', label'⟩ := y
      cases hm.eq_source (Matching.mem_of_image? hone) (Matching.mem_of_image? hone')
      cases hm.eq_source (Matching.mem_of_image? htwo) (Matching.mem_of_image? htwo')
      cases hlabel.symm.trans (hlabels.trans hlabel')
      rfl
    exact ρ.compare_edgeId (by rw [hx, hy, hxy])

theorem newStrands_keepsOrder (τ : new.Renaming new') (m : Matching) (ends : Nat × Nat) :
    KeepsOrder τ.edgeId
      ((new.numberedEdges.filterMap (newStrand? m)).filter fun strand => strand.ends == ends) where
  eq_of_id a ha b hb hid := by
    obtain ⟨x, hx, -, -, hstrand⟩ := mem_newStrands.1 (List.mem_of_mem_filter ha)
    obtain ⟨y, hy, -, -, hstrand'⟩ := mem_newStrands.1 (List.mem_of_mem_filter hb)
    rw [hid] at hx hstrand
    cases hx.symm.trans hy
    rw [hstrand, ← hstrand']
  compare_id a ha b hb hlabels := by
    obtain ⟨x, hx, -, -, hstrand⟩ := mem_newStrands.1 (List.mem_of_mem_filter ha)
    obtain ⟨y, hy, -, -, hstrand'⟩ := mem_newStrands.1 (List.mem_of_mem_filter hb)
    have hends : a.ends = b.ends :=
      (beq_iff_eq.1 (List.mem_filter.1 ha).2).trans (beq_iff_eq.1 (List.mem_filter.1 hb).2).symm
    rw [hstrand, hstrand'] at hends hlabels
    have hxy : x = y := by
      obtain ⟨one, two, label⟩ := x
      obtain ⟨one', two', label'⟩ := y
      cases hends
      cases hlabels
      rfl
    exact τ.compare_edgeId (by rw [hx, hy, hxy])

include h hm hm'

theorem oldStrand?_renumbered (e : Edge) (id : Nat) :
    oldStrand? m' (e.renumbered ρ.vertexId, ρ.edgeId id) =
      (oldStrand? m (e, id)).map (Strand.renumbered τ.vertexId ρ.edgeId) := by
  simp only [oldStrand?, Edge.renumbered, h.image?_vertexId hm hm']
  cases m.image? e.one <;> cases m.image? e.two <;> rfl

theorem newStrand?_renumbered (e : Edge) (id : Nat) :
    newStrand? m' (e.renumbered τ.vertexId, τ.edgeId id) =
      (newStrand? m (e, id)).map (Strand.renumbered τ.vertexId τ.edgeId) := by
  simp only [newStrand?, Edge.renumbered, h.preimage?_vertexId hm hm', Option.isSome_map]
  split <;> rfl

theorem oldStrands_renumbered_perm :
    ((old.numberedEdges.filterMap (oldStrand? m)).map
      (Strand.renumbered τ.vertexId ρ.edgeId)).Perm
        (old'.numberedEdges.filterMap (oldStrand? m')) :=
  map_filterMap_perm ρ.numberedEdges_perm fun entry =>
    oldStrand?_renumbered h hm hm' entry.1 entry.2

theorem newStrands_renumbered_perm :
    ((new.numberedEdges.filterMap (newStrand? m)).map
      (Strand.renumbered τ.vertexId τ.edgeId)).Perm
        (new'.numberedEdges.filterMap (newStrand? m')) :=
  map_filterMap_perm τ.numberedEdges_perm fun entry =>
    newStrand?_renumbered h hm hm' entry.1 entry.2

omit h hm hm' in
/-- The strands of a bundle, among strands with other numbers. -/
theorem filter_ends_perm (τ : new.Renaming new') {g : Nat → Nat} {strands strands' : List Strand}
    (hperm : (strands.map (Strand.renumbered τ.vertexId g)).Perm strands') (ends : Nat × Nat) :
    ((strands.filter fun strand => strand.ends == ends).map
      (Strand.renumbered τ.vertexId g)).Perm
        (strands'.filter fun strand =>
          strand.ends == (τ.vertexId ends.1, τ.vertexId ends.2)) := by
  refine map_filter_perm hperm fun strand => ?_
  obtain ⟨one, two⟩ := ends
  rw [Bool.eq_iff_iff]
  simp [Strand.ends, Strand.renumbered]

/-- The ends of the bundles, each once. -/
theorem bundles_renumbered_perm :
    ((((old.numberedEdges.filterMap (oldStrand? m) ++
      new.numberedEdges.filterMap (newStrand? m)).map Strand.ends).eraseDups).map
        fun ends => (τ.vertexId ends.1, τ.vertexId ends.2)).Perm
      ((old'.numberedEdges.filterMap (oldStrand? m') ++
        new'.numberedEdges.filterMap (newStrand? m')).map Strand.ends).eraseDups := by
  have hinjective : Function.Injective
      fun ends : Nat × Nat => (τ.vertexId ends.1, τ.vertexId ends.2) := by
    rintro ⟨a, b⟩ ⟨a', b'⟩ heq
    obtain ⟨hone, htwo⟩ := Prod.mk.inj heq
    exact Prod.ext (τ.vertexId_injective hone) (τ.vertexId_injective htwo)
  refine (eraseDups_map_perm hinjective _).symm.trans (eraseDups_perm ?_)
  refine List.Perm.trans (.of_eq ?_) (((oldStrands_renumbered_perm h hm hm').append
    (newStrands_renumbered_perm h hm hm')).map Strand.ends)
  simp only [List.map_append, List.map_map]
  rfl

theorem deletedEdges_renumbered_perm :
    (((old.numberedEdges.filter fun entry => (oldStrand? m entry).isNone).map
      fun entry => .deleteEdge entry.2).map (Edit.renumbered ρ τ)).Perm
        ((old'.numberedEdges.filter fun entry => (oldStrand? m' entry).isNone).map
          fun entry => .deleteEdge entry.2) := by
  have hlost (entry : Edge × Nat) :
      (oldStrand? m' (entry.1.renumbered ρ.vertexId, ρ.edgeId entry.2)).isNone =
        (oldStrand? m entry).isNone := by
    rw [oldStrand?_renumbered h hm hm', Option.isNone_map]
  have hdeleted := (map_filter_perm (q := fun entry => (oldStrand? m' entry).isNone)
    ρ.numberedEdges_perm hlost).map fun entry => Edit.deleteEdge entry.2
  rw [List.map_map] at hdeleted ⊢
  exact hdeleted

theorem insertedEdges_renumbered_perm :
    (((new.numberedEdges.filter fun entry => (newStrand? m entry).isNone).map
      fun entry => .insertEdge entry.2).map (Edit.renumbered ρ τ)).Perm
        ((new'.numberedEdges.filter fun entry => (newStrand? m' entry).isNone).map
          fun entry => .insertEdge entry.2) := by
  have hadded (entry : Edge × Nat) :
      (newStrand? m' (entry.1.renumbered τ.vertexId, τ.edgeId entry.2)).isNone =
        (newStrand? m entry).isNone := by
    rw [newStrand?_renumbered h hm hm', Option.isNone_map]
  have hinserted := (map_filter_perm (q := fun entry => (newStrand? m' entry).isNone)
    τ.numberedEdges_perm hadded).map fun entry => Edit.insertEdge entry.2
  rw [List.map_map] at hinserted ⊢
  exact hinserted

theorem edgeOperations_renumbered_perm :
    ((edgeOperations old new m).map (Edit.renumbered ρ τ)).Perm (edgeOperations old' new' m') := by
  unfold edgeOperations
  rw [List.map_append (f := Edit.renumbered ρ τ), List.map_append (f := Edit.renumbered ρ τ),
    List.map_flatMap]
  refine ((deletedEdges_renumbered_perm h hm hm').append
    (insertedEdges_renumbered_perm h hm hm')).append ?_
  -- the bundles come in another order, and each has the same steps in their order
  refine List.Perm.trans (.of_eq ?_) ((bundles_renumbered_perm h hm hm').flatMap_right _)
  rw [List.flatMap_map]
  refine List.flatMap_congr fun ends _ => ?_
  exact (bundleOperations_renumbered (oldStrands_keepsOrder ρ hm ends)
    (newStrands_keepsOrder τ m ends)
    (filter_ends_perm τ (oldStrands_renumbered_perm h hm hm') ends)
    (filter_ends_perm τ (newStrands_renumbered_perm h hm hm') ends)).symm

end Edges

end Realization

end SchemaDelta
