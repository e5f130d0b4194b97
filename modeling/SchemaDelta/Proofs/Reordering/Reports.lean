import SchemaDelta.Proofs.Analysis.Telling
import SchemaDelta.Proofs.Reordering.Scripts

/-!
What is reported of type systems whose declarations stand in another order. Findings name elements
by what they are called, so that steps with other numbers come to the same findings.
-/

namespace SchemaDelta

/-- How one comparison becomes another one in which declarations stand in another order. -/
structure Comparison.Renaming (c c' : Comparison) where
  oldSystem : c.oldSystem.Reordered c'.oldSystem
  newSystem : c.newSystem.Reordered c'.newSystem
  oldGraph : c.oldGraph.Renaming c'.oldGraph
  newGraph : c.newGraph.Renaming c'.newGraph
  additions : c.additions = c'.additions
  removals : c.removals = c'.removals

namespace Comparison.Renaming

variable {c c' : Comparison} (r : c.Renaming c')

/-- The new numbers on a side. -/
def side : (side : Side) → (c.graph side).Renaming (c'.graph side)
  | .old => r.oldGraph
  | .new => r.newGraph

/-- A step with the new numbers. -/
def edit : Edit → Edit :=
  Edit.renumbered r.oldGraph r.newGraph

variable {operations : List Edit} {id : Nat} {v : Vertex} {e : Edge}

/-! ## What is looked up -/

theorem vertex_eq (operation : EditKind) (side : Side) (hid : id < (c.graph side).vertices.length) :
    c'.vertex operation side ((r.side side).vertexId id) = c.vertex operation side id := by
  obtain ⟨v, hv⟩ := Graph.exists_vertex?_of_lt hid
  unfold Comparison.vertex
  rw [(r.side side).vertex?_vertexId, hv]

theorem owner_eq (side : Side) (id : Nat) (v : Vertex) :
    c'.owner side ((r.side side).vertexId id) v = c.owner side id v := by
  unfold Comparison.owner
  rw [(r.side side).owner?_vertexId]
  cases (c.graph side).owner? id with
  | none => rfl
  | some owner => simp only [Option.map_some, Option.bind_some, (r.side side).vertex?_vertexId]

theorem container_eq (side : Side) (id : Nat) (v : Vertex) :
    c'.container side ((r.side side).vertexId id) v = c.container side id v := by
  unfold Comparison.container
  rw [(r.side side).fieldOwner?_vertexId]
  cases (c.graph side).fieldOwner? id with
  | none => rfl
  | some owner => simp only [Option.map_some, Option.bind_some, (r.side side).vertex?_vertexId]

theorem subject_eq (side : Side) (id : Nat) (v : Vertex) :
    c'.subject side ((r.side side).vertexId id) v = c.subject side id v := by
  unfold Comparison.subject
  rw [r.container_eq, r.owner_eq]

include r in
theorem requireDefined_eq (side : Side) (v : Vertex) :
    c'.requireDefined side v = c.requireDefined side v := by
  unfold Comparison.requireDefined Comparison.isDefined
  cases side with
  | old =>
    simp only [system, r.oldSystem.isSome_type?, r.oldSystem.isSome_directive?]
    rfl
  | new =>
    simp only [system, r.newSystem.isSome_type?, r.newSystem.isSome_directive?]
    rfl

include r in
theorem reportsNested_eq (side : Side) : c'.reportsNested side = c.reportsNested side := by
  cases side with
  | old => exact r.removals.symm
  | new => exact r.additions.symm

theorem comesOrGoes_eq (side : Side) (id : Nat) :
    comesOrGoes (operations.map r.edit) side ((r.side side).vertexId id) =
      comesOrGoes operations side id := by
  have hinjective := Edit.renumbered_injective r.oldGraph r.newGraph
  rw [Bool.eq_iff_iff]
  cases side with
  | old =>
    rw [comesOrGoes_old, comesOrGoes_old]
    exact List.mem_map_of_injective hinjective (a := .deleteVertex id)
  | new =>
    rw [comesOrGoes_new, comesOrGoes_new]
    exact List.mem_map_of_injective hinjective (a := .insertVertex id)

theorem isCovered_eq (side : Side) (id : Nat) :
    c'.isCovered (operations.map r.edit) side ((r.side side).vertexId id) =
      c.isCovered operations side id := by
  unfold isCovered
  rw [r.reportsNested_eq, (r.side side).allAncestors_vertexId, List.any_map]
  simp only [Function.comp_def, r.comesOrGoes_eq]

/-! ## What steps come to -/

theorem vertexFinding_eq (operation : EditKind) (side : Side) (event : Subject → Change)
    (hid : id < (c.graph side).vertices.length) :
    c'.vertexFinding (operations.map r.edit) operation side event ((r.side side).vertexId id) =
      c.vertexFinding operations operation side event id := by
  unfold vertexFinding
  simp only [r.vertex_eq operation side hid, r.isCovered_eq, r.requireDefined_eq, r.subject_eq]

theorem changedVertexFinding_eq {source target : Nat} (hsource : source < c.oldGraph.vertices.length)
    (htarget : target < c.newGraph.vertices.length) :
    c'.changedVertexFinding (r.oldGraph.vertexId source) (r.newGraph.vertexId target) =
      c.changedVertexFinding source target := by
  have hold : c'.vertex .changeVertex .old (r.oldGraph.vertexId source) =
      c.vertex .changeVertex .old source := r.vertex_eq .changeVertex .old hsource
  have hnew : c'.vertex .changeVertex .new (r.newGraph.vertexId target) =
      c.vertex .changeVertex .new target := r.vertex_eq .changeVertex .new htarget
  have hsubject (v : Vertex) : c'.subject .new (r.newGraph.vertexId target) v =
      c.subject .new target v := r.subject_eq .new target v
  unfold changedVertexFinding
  simp only [hold, hnew, r.requireDefined_eq, hsubject]

theorem unclassifiedFinding_eq (operation : EditKind) (side : Side)
    (hend : e.one < (c.graph side).vertices.length ∧ e.two < (c.graph side).vertices.length)
    (oldLabel : Option String) :
    c'.unclassifiedFinding operation side (e.renumbered (r.side side).vertexId) oldLabel =
      c.unclassifiedFinding operation side e oldLabel := by
  unfold unclassifiedFinding
  simp only [Edge.renumbered, r.vertex_eq operation side hend.1, r.vertex_eq operation side hend.2]

theorem edgeFinding_eq (operation : EditKind) (side : Side)
    (hend : e.one < (c.graph side).vertices.length ∧ e.two < (c.graph side).vertices.length) :
    c'.edgeFinding (operations.map r.edit) operation side (e.renumbered (r.side side).vertexId) =
      c.edgeFinding operations operation side e := by
  unfold edgeFinding
  rw [r.unclassifiedFinding_eq operation side hend]
  simp only [Edge.renumbered, r.comesOrGoes_eq]

theorem edge_eq_ok_edgeId (operation : EditKind) (side : Side)
    (he : (c.graph side).edge? id = some e) :
    c'.edge operation side ((r.side side).edgeId id) =
      .ok (e.renumbered (r.side side).vertexId) :=
  edge_eq_ok operation side (by rw [(r.side side).edge?_edgeId, he]; rfl)

omit r in
theorem objectAndInterface?_renumbered (f : Nat → Nat) (e : Edge) (one two : Vertex) :
    objectAndInterface? (e.renumbered f) one two =
      (objectAndInterface? e one two).map fun ends => (f ends.1, ends.2) := by
  unfold objectAndInterface?
  split <;> rfl

theorem insertedEdgeFinding_eq (he : c.newGraph.edge? id = some e) :
    c'.insertedEdgeFinding (operations.map r.edit) (r.newGraph.edgeId id) =
      c.insertedEdgeFinding operations id := by
  have hend := c.newGraph.ends_known e (List.mem_of_getElem? he)
  have hedge : c'.edge .insertEdge .new (r.newGraph.edgeId id) =
      .ok (e.renumbered r.newGraph.vertexId) := r.edge_eq_ok_edgeId .insertEdge .new he
  have hfinding : c'.edgeFinding (operations.map r.edit) .insertEdge .new
      (e.renumbered r.newGraph.vertexId) = c.edgeFinding operations .insertEdge .new e :=
    r.edgeFinding_eq .insertEdge .new hend
  have hone : c'.vertex .insertEdge .new (r.newGraph.vertexId e.one) =
      c.vertex .insertEdge .new e.one := r.vertex_eq .insertEdge .new hend.1
  have htwo : c'.vertex .insertEdge .new (r.newGraph.vertexId e.two) =
      c.vertex .insertEdge .new e.two := r.vertex_eq .insertEdge .new hend.2
  have hcomes (id : Nat) : comesOrGoes (operations.map r.edit) .new (r.newGraph.vertexId id) =
      comesOrGoes operations .new id := r.comesOrGoes_eq .new id
  unfold insertedEdgeFinding
  rw [hedge, edge_eq_ok .insertEdge .new he]
  simp only [bind, Except.bind, hfinding, objectAndInterface?_renumbered, ← r.additions]
  simp only [Edge.renumbered, hone, htwo]
  obtain ⟨one, two, hone', htwo'⟩ := Graph.exists_ends he
  rw [vertex_eq_ok .insertEdge .new hone', vertex_eq_ok .insertEdge .new htwo']
  simp only
  -- which end is the object goes by kinds, and only its number is another
  cases objectAndInterface? e one two with
  | none => rfl
  | some ends => simp only [Option.map_some, hcomes]

theorem deletedEdgeFinding_eq (he : c.oldGraph.edge? id = some e) :
    c'.deletedEdgeFinding (operations.map r.edit) (r.oldGraph.edgeId id) =
      c.deletedEdgeFinding operations id := by
  have hedge : c'.edge .deleteEdge .old (r.oldGraph.edgeId id) =
      .ok (e.renumbered r.oldGraph.vertexId) := r.edge_eq_ok_edgeId .deleteEdge .old he
  unfold deletedEdgeFinding
  rw [hedge, edge_eq_ok .deleteEdge .old he]
  exact r.edgeFinding_eq .deleteEdge .old (c.oldGraph.ends_known e (List.mem_of_getElem? he))

theorem changedEdgeFinding_eq {source target : Nat} {x y : Edge}
    (hx : c.oldGraph.edge? source = some x) (hy : c.newGraph.edge? target = some y) :
    c'.changedEdgeFinding (r.oldGraph.edgeId source) (r.newGraph.edgeId target) =
      c.changedEdgeFinding source target := by
  have hold : c'.edge .changeEdge .old (r.oldGraph.edgeId source) =
      .ok (x.renumbered r.oldGraph.vertexId) := r.edge_eq_ok_edgeId .changeEdge .old hx
  have hnew : c'.edge .changeEdge .new (r.newGraph.edgeId target) =
      .ok (y.renumbered r.newGraph.vertexId) := r.edge_eq_ok_edgeId .changeEdge .new hy
  unfold changedEdgeFinding
  rw [hold, hnew, edge_eq_ok .changeEdge .old hx, edge_eq_ok .changeEdge .new hy]
  exact r.unclassifiedFinding_eq .changeEdge .new
    (c.newGraph.ends_known y (List.mem_of_getElem? hy)) _

/-- A step with other numbers comes to the same finding. -/
theorem finding_eq {operation : Edit} (h : operation.IsIn c.oldGraph c.newGraph) :
    c'.finding (operations.map r.edit) (r.edit operation) = c.finding operations operation := by
  cases operation with
  | insertVertex target =>
    exact r.vertexFinding_eq .insertVertex .new .added (h (.newVertex target) (by simp [Edit.uses]))
  | deleteVertex source =>
    exact r.vertexFinding_eq .deleteVertex .old .removed (h (.oldVertex source) (by simp [Edit.uses]))
  | changeVertex source target =>
    exact r.changedVertexFinding_eq (h (.oldVertex source) (by simp [Edit.uses]))
      (h (.newVertex target) (by simp [Edit.uses]))
  | insertEdge target =>
    exact r.insertedEdgeFinding_eq
      (List.getElem?_eq_getElem (h (.newEdge target) (by simp [Edit.uses])))
  | deleteEdge source =>
    exact r.deletedEdgeFinding_eq
      (List.getElem?_eq_getElem (h (.oldEdge source) (by simp [Edit.uses])))
  | changeEdge source target =>
    exact r.changedEdgeFinding_eq
      (List.getElem?_eq_getElem (h (.oldEdge source) (by simp [Edit.uses])))
      (List.getElem?_eq_getElem (h (.newEdge target) (by simp [Edit.uses])))

theorem analyze_eq (h : ∀ operation ∈ operations, operation.IsIn c.oldGraph c.newGraph) :
    c'.analyze (operations.map r.edit) = c.analyze operations := by
  have hfindings : (operations.map r.edit).mapM (c'.finding (operations.map r.edit)) =
      operations.mapM (c.finding operations) := by
    rw [List.mapM_map]
    exact mapM_congr_of_mem fun operation hmem => r.finding_eq (h operation hmem)
  unfold analyze
  rw [hfindings]

end Comparison.Renaming

/-- Type systems whose declarations stand in another order build if the given ones do, and the same
is reported of them, whatever the configuration. -/
theorem order_of_declarations_does_not_matter {old new old' new' : TypeSystem}
    {oldGraph newGraph : Graph} (holdOrder : old.Reordered old') (hnewOrder : new.Reordered new')
    (hold : Graph.ofTypeSystem old = .ok oldGraph) (hnew : Graph.ofTypeSystem new = .ok newGraph)
    (config : Config) (clock : Clock) :
    (∃ graph, Graph.ofTypeSystem old' = .ok graph) ∧ (∃ graph, Graph.ofTypeSystem new' = .ok graph) ∧
      ∃ diff, Delta.between old new config clock = .ok diff ∧
        Delta.between old' new' config clock = .ok diff := by
  obtain ⟨oldGraph', hold', ⟨ρ⟩⟩ := holdOrder.exists_graph hold
  obtain ⟨newGraph', hnew', ⟨τ⟩⟩ := hnewOrder.exists_graph hnew
  obtain ⟨m, kept, findings, htelling, hdiff⟩ := Delta.exists_between hold hnew config clock
  refine ⟨⟨oldGraph', hold'⟩, ⟨newGraph', hnew'⟩, _, hdiff, ?_⟩
  rw [← hdiff]
  -- the script has the same steps under other numbers, and these come to the same
  let r : (config.comparison old new oldGraph newGraph).Renaming
      (config.comparison old' new' oldGraph' newGraph') :=
    ⟨holdOrder, hnewOrder, ρ, τ, rfl, rfl⟩
  have hanalyze := r.analyze_eq fun _ => htelling.account.isIn
  rw [Delta.between_eq hold hnew, Delta.between_eq hold' hnew', Script.between_renumbered ρ τ,
    ← hanalyze]
  rfl

set_option maxRecDepth 20000 in
/-- Declarations in another order on both sides, with a type that is renamed. -/
theorem order_of_declarations_does_not_matter_for_a_renamed_type :
    let a : Field := ⟨"a", .named "E", [], none, []⟩
    let b : Field := ⟨"b", .named "Int", [], none, []⟩
    let x : EnumValue := ⟨"X", none, []⟩
    let y : EnumValue := ⟨"Y", none, []⟩
    let old : TypeSystem := ⟨⟨[⟨"Q", none, [], .object [] [a, b]⟩,
      ⟨"E", none, [], .enum [x, y]⟩], by decide⟩, .empty⟩
    let old' : TypeSystem := ⟨⟨[⟨"E", none, [], .enum [y, x]⟩,
      ⟨"Q", none, [], .object [] [b, a]⟩], by decide⟩, .empty⟩
    let new : TypeSystem := ⟨⟨[⟨"P", none, [], .object [] [a, b]⟩,
      ⟨"E", none, [], .enum [x]⟩], by decide⟩, .empty⟩
    let new' : TypeSystem := ⟨⟨[⟨"P", none, [], .object [] [b, a]⟩,
      ⟨"E", none, [], .enum [x]⟩], by decide⟩, .empty⟩
    old.Reordered old' ∧ new.Reordered new' ∧
      (Graph.ofTypeSystem old).toOption.isSome = true ∧
      (Graph.ofTypeSystem new).toOption.isSome = true ∧
      Delta.between old' new' .standard .stopped = Delta.between old new .standard .stopped := by
  intro a b x y old old' new new'
  have hfields : Rearranged Field.Reordered [a, b] [b, a] :=
    .of_perm Field.Reordered.refl (.swap b a [])
  have holdOrder : old.Reordered old' :=
    { types := ⟨_, .swap _ _ [], .cons ⟨.enum (.swap y x []), rfl⟩
        (.cons ⟨.object (.refl []) hfields, rfl⟩ .nil)⟩
      directives := ⟨[], .refl [], .nil⟩ }
  have hnewOrder : new.Reordered new' :=
    { types := ⟨_, .refl _, .cons ⟨.object (.refl []) hfields, rfl⟩
        (.cons ⟨.enum (.refl [x]), rfl⟩ .nil)⟩
      directives := ⟨[], .refl [], .nil⟩ }
  have holdBuilds : (Graph.ofTypeSystem old).toOption.isSome = true := by decide
  have hnewBuilds : (Graph.ofTypeSystem new).toOption.isSome = true := by decide
  obtain ⟨oldGraph, hold⟩ := exists_eq_ok holdBuilds
  obtain ⟨newGraph, hnew⟩ := exists_eq_ok hnewBuilds
  obtain ⟨-, -, diff, hdiff, hdiff'⟩ :=
    order_of_declarations_does_not_matter holdOrder hnewOrder hold hnew .standard .stopped
  exact ⟨holdOrder, hnewOrder, holdBuilds, hnewBuilds, hdiff'.trans hdiff.symm⟩

end SchemaDelta
