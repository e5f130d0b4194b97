import SchemaDelta.Proofs.Assignment.Labels
import SchemaDelta.Proofs.Edit.Accounts
import SchemaDelta.Proofs.Edit.Length
import SchemaDelta.Proofs.Graph.Built

/-!
What two graphs have in common. If they agree where they have places in common, the steps that
realize the anchors leave all that alone: vertices at a place of one graph only come and go, and
with them the edges that have an end there.
-/

namespace SchemaDelta

variable {old new : Graph} {source target : Nat} {v w : Vertex}

/-! ## Edges by places -/

/-- An edge with the places of its ends instead of their numbers. -/
def Graph.placedEdge (g : Graph) (e : Edge) : Option Place × String × Option Place :=
  ((g.vertex? e.one).map Vertex.place, e.label, (g.vertex? e.two).map Vertex.place)

/-- The edges, each with the places of its ends. -/
def Graph.placedEdges (g : Graph) : List (Option Place × String × Option Place) :=
  g.edges.map g.placedEdge

/-- A link as an edge with the places of its ends. -/
def TypeSystem.Link.placed (link : TypeSystem.Link) : Option Place × String × Option Place :=
  (some link.source, link.label, some link.target)

theorem TypeSystem.placedEdges_eq {ts : TypeSystem} {g : Graph}
    (h : Graph.ofTypeSystem ts = .ok g) : g.placedEdges = ts.links.map Link.placed := by
  rw [Graph.placedEdges, edges_eq h, List.map_filterMap]
  refine filterMap_eq_map_of_eq_some fun link hlink => ?_
  obtain ⟨entry, hmem, hentry⟩ := List.mem_filterMap.1 hlink
  obtain ⟨e, he⟩ := exists_edge? h hmem hentry
  obtain ⟨hone, htwo, hlabel⟩ := Link.edge?_eq_some_iff.1 he
  obtain ⟨v, hv, hsource⟩ := Graph.find?_eq_some_iff.1 hone
  obtain ⟨w, hw, htarget⟩ := Graph.find?_eq_some_iff.1 htwo
  rw [he, Option.map_some, Graph.placedEdge, hv, hw, hlabel, Option.map_some, Option.map_some,
    hsource, htarget]
  rfl

/-- The labels between two vertices are those between their places. -/
theorem Graph.labelsBetween_eq {g : Graph} {one two : Nat} {v w : Vertex}
    (hv : g.vertex? one = some v) (hw : g.vertex? two = some w) :
    g.labelsBetween one two = (g.placedEdges.filter fun edge =>
      edge.1 == some v.place && edge.2.2 == some w.place).map (·.2.1) := by
  have hat {id end' : Nat} {u : Vertex} (hu : g.vertex? id = some u) :
      (end' == id) = ((g.vertex? end').map Vertex.place == some u.place) := by
    rw [Bool.eq_iff_iff, beq_iff_eq, beq_iff_eq, Option.map_eq_some_iff]
    refine ⟨fun heq => ⟨u, heq ▸ hu, rfl⟩, ?_⟩
    rintro ⟨u', hu', hplace⟩
    exact Graph.eq_of_place hu' hu hplace
  rw [labelsBetween, placedEdges, List.filter_map, List.map_map]
  congr 1
  exact List.filter_congr fun e _ => by
    rw [hat hv, hat hw]
    rfl

/-! ## Agreement -/

/-- Whether graphs agree where they have places in common. -/
structure Graph.AgreesWith (old new : Graph) : Prop where
  vertices : ∀ {source target : Nat} {v w : Vertex}, old.vertex? source = some v →
    new.vertex? target = some w → v.place = w.place → v = w
  labels : ∀ {one two one' two' : Nat} {v w : Vertex}, old.vertex? one = some v →
    new.vertex? one' = some v → old.vertex? two = some w → new.vertex? two' = some w →
      (old.labelsBetween one two).Perm (new.labelsBetween one' two')

theorem Graph.AgreesWith.symm (h : old.AgreesWith new) : new.AgreesWith old where
  vertices hv hw hplace := (h.vertices hw hv hplace.symm).symm
  labels hone hone' htwo htwo' := (h.labels hone' hone htwo' htwo).symm

namespace Matching

theorem anchors_image?_eq_none_iff (hv : old.vertex? source = some v) :
    (anchors old new).image? source = none ↔ v.place ∉ new.places := by
  rw [image?_eq_none_iff]
  constructor
  · rintro hnone hplace
    obtain ⟨w, hw, heq⟩ := List.mem_map.1 hplace
    obtain ⟨target, htarget⟩ := List.mem_iff_getElem?.1 hw
    exact hnone target (mem_anchors.2 ⟨v, w, hv, htarget, heq.symm⟩)
  · intro hplace target hpair
    obtain ⟨v', w, hv', hw, heq⟩ := mem_anchors.1 hpair
    obtain rfl : v = v' := Option.some.inj (hv.symm.trans hv')
    exact hplace (heq ▸ List.mem_map_of_mem (List.mem_of_getElem? hw))

theorem anchors_preimage?_eq_none_iff (hw : new.vertex? target = some w) :
    (anchors old new).preimage? target = none ↔ w.place ∉ old.places := by
  rw [preimage?_eq_none_iff]
  constructor
  · rintro hnone hplace
    obtain ⟨v, hv, heq⟩ := List.mem_map.1 hplace
    obtain ⟨source, hsource⟩ := List.mem_iff_getElem?.1 hv
    exact hnone source (mem_anchors.2 ⟨v, w, hsource, hw, heq⟩)
  · intro hplace source hpair
    obtain ⟨v, w', hv, hw', heq⟩ := mem_anchors.1 hpair
    obtain rfl : w = w' := Option.some.inj (hw.symm.trans hw')
    exact hplace (heq ▸ List.mem_map_of_mem (List.mem_of_getElem? hv))

end Matching

/-! ## Steps that account for the anchors -/

namespace AccountFor

variable {operations : List Edit} {kept : Matching}
  (h : AccountFor operations old new (Matching.anchors old new) kept)

include h

/-- What is deleted is what is at no place of the other side. -/
theorem deleteVertex_mem_iff_of_anchors : .deleteVertex source ∈ operations ↔
    ∃ v, old.vertex? source = some v ∧ v.place ∉ new.places := by
  rw [h.deleteVertex_mem_iff, ← Graph.vertex?_isSome, Option.isSome_iff_exists,
    ← exists_and_right]
  refine exists_congr fun v => and_congr_right fun hv => ?_
  rw [← Matching.image?_eq_none_iff, Matching.anchors_image?_eq_none_iff hv]

theorem insertVertex_mem_iff_of_anchors : .insertVertex target ∈ operations ↔
    ∃ w, new.vertex? target = some w ∧ w.place ∉ old.places := by
  rw [h.insertVertex_mem_iff, ← Graph.vertex?_isSome, Option.isSome_iff_exists,
    ← exists_and_right]
  refine exists_congr fun w => and_congr_right fun hw => ?_
  rw [← Matching.preimage?_eq_none_iff, Matching.anchors_preimage?_eq_none_iff hw]

end AccountFor

namespace Realization

/-! ## Steps -/

/-- Where the edges between matched vertices need no steps, those that are left have an end that is
not matched. -/
theorem edgeOperations_eq {m : Matching} (h : m.IsCorrespondence old new)
    (hcost : ∀ pair, bothMatched m pair = true → m.pairCost old new pair = 0) :
    edgeOperations old new m =
      ((old.numberedEdges.filter fun entry => (oldStrand? m entry).isNone).map
          fun entry => .deleteEdge entry.2) ++
        (new.numberedEdges.filter fun entry => (newStrand? m entry).isNone).map
          fun entry => .insertEdge entry.2 := by
  have hbundles := length_bundles h
  rw [Finset.sum_eq_zero fun pair hpair => hcost pair (Finset.mem_filter.1 hpair).2,
    List.length_eq_zero_iff] at hbundles
  rw [edgeOperations]
  simp only [hbundles, List.append_nil]

section Agreement

variable (h : old.AgreesWith new)

include h

theorem pairCost_anchors {pair : Nat × Nat}
    (hpair : bothMatched (Matching.anchors old new) pair = true) :
    (Matching.anchors old new).pairCost old new pair = 0 := by
  obtain ⟨hone, htwo⟩ := counterparts_of_bothMatched hpair
  obtain ⟨v, v', hv, hv', hplace⟩ := Matching.mem_anchors.1 (Matching.mem_of_image? hone)
  obtain ⟨w, w', hw, hw', hplace'⟩ := Matching.mem_anchors.1 (Matching.mem_of_image? htwo)
  obtain rfl := h.vertices hv hv' hplace
  obtain rfl := h.vertices hw hw' hplace'
  rw [Matching.pairCost, hone, htwo]
  exact (Assignment.labelCost_perm (h.labels hv hv' hw hw') (.refl _)).trans
    (Assignment.labelCost_self _)

theorem changed_anchors : (vertexSettlement old new (Matching.anchors old new)).changed = [] := by
  refine List.filter_eq_nil_iff.2 fun pair hpair => ?_
  obtain ⟨v, w, hv, hw, hplace⟩ := Matching.mem_anchors.1 hpair
  simp [hv, hw, Vertex.Agrees, h.vertices hv hw hplace]

/-- What a step does that realizes the anchors of graphs which agree. -/
theorem exists_of_mem_operations_anchors {operation : Edit}
    (hmem : operation ∈ (Matching.anchors old new).operations old new) :
    (∃ source v, operation = .deleteVertex source ∧ old.vertex? source = some v ∧
      v.place ∉ new.places) ∨
    (∃ target w, operation = .insertVertex target ∧ new.vertex? target = some w ∧
      w.place ∉ old.places) ∨
    (∃ source e one two, operation = .deleteEdge source ∧ old.edge? source = some e ∧
      old.vertex? e.one = some one ∧ old.vertex? e.two = some two ∧
      (one.place ∉ new.places ∨ two.place ∉ new.places)) ∨
    ∃ target e one two, operation = .insertEdge target ∧ new.edge? target = some e ∧
      new.vertex? e.one = some one ∧ new.vertex? e.two = some two ∧
      (one.place ∉ old.places ∨ two.place ∉ old.places) := by
  have hm := Matching.anchors_isCorrespondence old new
  rw [Matching.operations, (ordered_perm old new _).mem_iff, List.mem_append,
    (vertexOperations_perm hm).mem_iff, edgeOperations_eq hm fun _ => pairCost_anchors h,
    Settlement.steps, changed_anchors h, List.map_nil, List.nil_append] at hmem
  simp only [List.mem_append, List.mem_map, List.mem_filter, isNone_oldStrand?, isNone_newStrand?,
    bothMatched, Bool.not_eq_true', Bool.and_eq_false_iff] at hmem
  rcases hmem with (⟨source, hdeleted, rfl⟩ | ⟨target, hinserted, rfl⟩) |
    (⟨⟨e, source⟩, ⟨he, hends⟩, rfl⟩ | ⟨⟨e, target⟩, ⟨he, hends⟩, rfl⟩)
  · obtain ⟨hlt, hnone⟩ := mem_deleted_iff.1 hdeleted
    obtain ⟨v, hv⟩ := Graph.exists_vertex?_of_lt hlt
    exact Or.inl ⟨source, v, rfl, hv,
      (Matching.anchors_image?_eq_none_iff hv).1 (Matching.image?_eq_none_iff.2 hnone)⟩
  · obtain ⟨hlt, hnone⟩ := mem_inserted_iff.1 hinserted
    obtain ⟨w, hw⟩ := Graph.exists_vertex?_of_lt hlt
    exact Or.inr (Or.inl ⟨target, w, rfl, hw,
      (Matching.anchors_preimage?_eq_none_iff hw).1 (Matching.preimage?_eq_none_iff.2 hnone)⟩)
  · have hedge : old.edge? source = some e := List.mem_zipIdx_iff_getElem?.1 he
    obtain ⟨one, two, hone, htwo⟩ := Graph.exists_ends hedge
    rw [Option.isSome_eq_false_iff, Option.isSome_eq_false_iff, Option.isNone_iff_eq_none,
      Option.isNone_iff_eq_none, Matching.anchors_image?_eq_none_iff hone,
      Matching.anchors_image?_eq_none_iff htwo] at hends
    exact Or.inr (Or.inr (Or.inl ⟨source, e, one, two, rfl, hedge, hone, htwo, hends⟩))
  · have hedge : new.edge? target = some e := List.mem_zipIdx_iff_getElem?.1 he
    obtain ⟨one, two, hone, htwo⟩ := Graph.exists_ends hedge
    rw [Option.isSome_eq_false_iff, Option.isSome_eq_false_iff, Option.isNone_iff_eq_none,
      Option.isNone_iff_eq_none, Matching.anchors_preimage?_eq_none_iff hone,
      Matching.anchors_preimage?_eq_none_iff htwo] at hends
    exact Or.inr (Or.inr (Or.inr ⟨target, e, one, two, rfl, hedge, hone, htwo, hends⟩))

end Agreement

end Realization

end SchemaDelta
