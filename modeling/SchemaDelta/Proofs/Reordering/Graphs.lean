import SchemaDelta.Proofs.Reordering.Declarations
import SchemaDelta.Proofs.Reordering.Numbers

/-!
Graphs that differ in the numbers of their vertices and edges only. Such are the graphs of type
systems with the same declarations in another order.
-/

namespace SchemaDelta

/-- An edge between vertices that have other numbers now. -/
def Edge.renumbered (f : Nat → Nat) (e : Edge) : Edge :=
  ⟨f e.one, f e.two, e.label⟩

/-- How the numbers of a graph become those of another one, which is the same otherwise. -/
structure Graph.Renaming (g h : Graph) where
  vertices : Renumbering g.vertices h.vertices
  edges : Renumbering (g.edges.map (Edge.renumbered vertices.position)) h.edges

namespace Graph.Renaming

variable {g h : Graph} (ρ : g.Renaming h)

/-- The new number of a vertex. -/
def vertexId : Nat → Nat :=
  ρ.vertices.position

/-- The new number of an edge. -/
def edgeId : Nat → Nat :=
  ρ.edges.position

theorem vertexId_injective : ρ.vertexId.Injective :=
  ρ.vertices.injective

theorem edgeId_injective : ρ.edgeId.Injective :=
  ρ.edges.injective

@[simp]
theorem vertexId_inj {i j : Nat} : ρ.vertexId i = ρ.vertexId j ↔ i = j :=
  ρ.vertexId_injective.eq_iff

@[simp]
theorem vertexId_beq {i j : Nat} : (ρ.vertexId i == ρ.vertexId j) = (i == j) := by
  rw [Bool.eq_iff_iff]
  simp

@[simp]
theorem vertex?_vertexId (id : Nat) : h.vertex? (ρ.vertexId id) = g.vertex? id :=
  ρ.vertices.getElem? id

@[simp]
theorem edge?_edgeId (id : Nat) :
    h.edge? (ρ.edgeId id) = (g.edge? id).map (Edge.renumbered ρ.vertexId) := by
  have := ρ.edges.getElem? id
  rwa [List.getElem?_map] at this

/-- Equal edges keep their order. -/
theorem compare_edgeId {i j : Nat} (heq : g.edge? i = g.edge? j) :
    compare (ρ.edgeId i) (ρ.edgeId j) = compare i j := by
  refine ρ.edges.compare_position ?_
  rw [List.getElem?_map, List.getElem?_map]
  exact congrArg _ heq

theorem exists_vertexId {id : Nat} (hid : id < h.vertices.length) : ∃ i, ρ.vertexId i = id :=
  ρ.vertices.exists_position hid

theorem vertexIds_perm : (g.vertexIds.map ρ.vertexId).Perm h.vertexIds :=
  ρ.vertices.range_perm

theorem numberedVertices_perm :
    (g.vertices.zipIdx.map fun entry => (entry.1, ρ.vertexId entry.2)).Perm h.vertices.zipIdx :=
  ρ.vertices.zipIdx_perm

theorem numberedEdges_perm :
    (g.numberedEdges.map fun entry => (entry.1.renumbered ρ.vertexId, ρ.edgeId entry.2)).Perm
      h.numberedEdges := by
  have := ρ.edges.zipIdx_perm
  rwa [List.zipIdx_map, List.map_map] at this

theorem edges_perm : (g.edges.map (Edge.renumbered ρ.vertexId)).Perm h.edges :=
  ρ.edges.perm

/-! ## Answers -/

theorem owner?_vertexId (id : Nat) : h.owner? (ρ.vertexId id) = (g.owner? id).map ρ.vertexId := by
  ext owner
  simp only [owner?_eq_some_iff, Option.map_eq_some_iff, ← ρ.edges_perm.mem_iff, List.mem_map]
  constructor
  · rintro ⟨-, ⟨e, he, rfl⟩, howns, htwo, rfl⟩
    exact ⟨e.one, ⟨e, he, howns, ρ.vertexId_injective htwo, rfl⟩, rfl⟩
  · rintro ⟨-, ⟨e, he, howns, rfl, rfl⟩, rfl⟩
    exact ⟨_, ⟨e, he, rfl⟩, howns, rfl, rfl⟩

theorem fieldOwner?_vertexId (id : Nat) :
    h.fieldOwner? (ρ.vertexId id) = (g.fieldOwner? id).map ρ.vertexId := by
  unfold fieldOwner?
  rw [ρ.vertex?_vertexId, ρ.owner?_vertexId]
  cases g.vertex? id with
  | none => rfl
  | some v =>
    simp only
    split
    · cases g.owner? id with
      | none => rfl
      | some owner => simp [Option.filter]
    · rfl

theorem ancestors_vertexId (n id : Nat) :
    h.ancestors n (ρ.vertexId id) = (g.ancestors n id).map ρ.vertexId := by
  induction n generalizing id with
  | zero => rfl
  | succ n ih =>
    rw [ancestors, ancestors, ρ.owner?_vertexId]
    cases g.owner? id with
    | none => rfl
    | some owner => exact congrArg (ρ.vertexId owner :: ·) (ih owner)

theorem allAncestors_vertexId (id : Nat) :
    h.allAncestors (ρ.vertexId id) = (g.allAncestors id).map ρ.vertexId := by
  rw [allAncestors, ρ.vertices.length_eq, ρ.ancestors_vertexId]
  rfl

end Graph.Renaming

/-! ## Graphs of type systems -/

namespace TypeSystem.Reordered

variable {ts us : TypeSystem} {g : Graph}

/-- A relation stands for the same edge between vertices with other numbers. -/
theorem edge?_renumbered {vertices : List Vertex} (ρ : Renumbering g.vertices vertices)
    (link : Link) :
    link.edge? vertices = (link.edge? g.vertices).map (Edge.renumbered ρ.position) := by
  have hfind (place : Place) : vertices.findIdx? (fun v => v.place == place) =
      (g.vertices.findIdx? fun v => v.place == place).map ρ.position :=
    ρ.findIdx?_eq fun hi hj hp hp' =>
      Graph.eq_of_place hi hj ((beq_iff_eq.1 hp).trans (beq_iff_eq.1 hp').symm)
  unfold Link.edge?
  rw [hfind, hfind]
  cases g.vertices.findIdx? fun v => v.place == link.source <;>
    cases g.vertices.findIdx? fun v => v.place == link.target <;> rfl

/-- The same declarations in another order have a graph too, which is the same up to the numbers. -/
theorem exists_graph (h : ts.Reordered us) (hg : Graph.ofTypeSystem ts = .ok g) :
    ∃ g', Graph.ofTypeSystem us = .ok g' ∧ Nonempty (g.Renaming g') := by
  have hvertices : g.vertices.Perm us.vertices := by
    rw [vertices_eq hg]
    exact h.vertices_perm
  obtain ⟨ρ⟩ := Renumbering.exists_of_perm hvertices
  have hedges : (g.edges.map (Edge.renumbered ρ.position)).Perm us.draft.edges := by
    have hedge : Link.edge? us.vertices =
        fun link => (link.edge? g.vertices).map (Edge.renumbered ρ.position) :=
      funext (edge?_renumbered ρ)
    change (g.edges.map _).Perm (us.links.filterMap (Link.edge? us.vertices))
    rw [hedge, edges_eq hg, List.map_filterMap]
    exact h.links_perm.filterMap _
  -- places and owners do not depend on the order, so that nothing new can be wrong
  have hplaces : us.draft.places.Nodup :=
    (hvertices.map Vertex.place).nodup_iff.1 g.places_distinct
  have howned : us.draft.owned.Nodup := by
    refine ((hedges.filter Edge.isOwnership).map Edge.two).nodup_iff.1 ?_
    rw [List.filter_map, List.map_map]
    have := g.owned_once.map ρ.injective
    rwa [Draft.owned, List.map_map] at this
  obtain ⟨ε⟩ := Renumbering.exists_of_perm hedges
  refine ⟨⟨us.draft, hplaces, howned⟩, ?_, ⟨⟨ρ, ε⟩⟩⟩
  rw [Graph.ofTypeSystem_eq_ok_iff] at hg ⊢
  exact ⟨h.firstFault?_eq_none hg.1, rfl⟩

end TypeSystem.Reordered

end SchemaDelta
