import SchemaDelta.Proofs.Edit.Ordered
import SchemaDelta.Proofs.Edit.Transformation
import SchemaDelta.Proofs.Graph.Built
import SchemaDelta.Proofs.Reordering.Searches
import SchemaDelta.Proofs.Reordering.Steps

/-!
The script between graphs with other numbers has the same steps in the same order. Steps are ordered
by what they are about, and numbers decide only between equal edges.
-/

namespace SchemaDelta

variable {old new old' new' g h : Graph}

namespace Realization

namespace OrderKey

theorem then_congr {o p q : Ordering} (h : o = .eq → p = q) : o.then p = o.then q := by
  cases o with
  | eq => exact h rfl
  | _ => rfl

/-- Keys with other numbers compare as before if they do where all else is equal. -/
theorem compare_withId {k l : OrderKey} {i j : Nat}
    (h : { k with id := 0 } = { l with id := 0 } → Ord.compare i j = Ord.compare k.id l.id) :
    compare { k with id := i } { l with id := j } = compare k l := by
  simp only [compare, compareLex, compareOn]
  refine then_congr fun h₁ => then_congr fun h₂ => then_congr fun h₃ => then_congr fun h₄ =>
    then_congr fun h₅ => then_congr fun h₆ => then_congr fun h₇ => h ?_
  simp only [Std.LawfulEqOrd.compare_eq_iff_eq] at h₁ h₂ h₃ h₄ h₅ h₆ h₇
  simp only [h₁, h₂, h₃, h₄, h₅, h₆, h₇]

theorem ofVertex_vertexId (ρ : g.Renaming h) (rank id : Nat) :
    ofVertex h rank (ρ.vertexId id) = { ofVertex g rank id with id := ρ.vertexId id } := by
  simp only [ofVertex, ρ.vertex?_vertexId]

theorem ofEdge_edgeId (ρ : g.Renaming h) (rank : Nat) {id : Nat} {e : Edge}
    (he : g.edge? id = some e) :
    ofEdge h rank (ρ.edgeId id) = { ofEdge g rank id with id := ρ.edgeId id } := by
  simp only [ofEdge, ρ.edge?_edgeId, he, Option.map_some, Option.getD_some, Edge.renumbered,
    ρ.vertex?_vertexId]

/-- Vertices with one key are the same. -/
theorem eq_of_ofVertex {rank a b : Nat} (ha : a < g.vertices.length) (hb : b < g.vertices.length)
    (heq : { ofVertex g rank a with id := 0 } = { ofVertex g rank b with id := 0 }) : a = b := by
  obtain ⟨v, hv⟩ := Graph.exists_vertex?_of_lt ha
  obtain ⟨w, hw⟩ := Graph.exists_vertex?_of_lt hb
  simp only [ofVertex, hv, hw, Option.getD_some, OrderKey.mk.injEq, true_and, and_true] at heq
  exact Graph.eq_of_place hv hw (by rw [Vertex.place, Vertex.place, heq.1, heq.2.2.2])

/-- Edges with one key are equal. -/
theorem eq_of_ofEdge {rank a b : Nat} {x y : Edge} (hx : g.edge? a = some x)
    (hy : g.edge? b = some y)
    (heq : { ofEdge g rank a with id := 0 } = { ofEdge g rank b with id := 0 }) : x = y := by
  obtain ⟨one, two, hone, htwo⟩ := Graph.exists_ends hx
  obtain ⟨one', two', hone', htwo'⟩ := Graph.exists_ends hy
  simp only [ofEdge, hx, hy, hone, htwo, hone', htwo', Option.getD_some, OrderKey.mk.injEq,
    true_and, and_true] at heq
  obtain ⟨hkind, hpath, hkind', hpath', hlabel⟩ := heq
  obtain ⟨_, _, _⟩ := x
  obtain ⟨_, _, _⟩ := y
  cases Graph.eq_of_place hone hone' (by rw [Vertex.place, Vertex.place, hkind, hpath])
  cases Graph.eq_of_place htwo htwo' (by rw [Vertex.place, Vertex.place, hkind', hpath'])
  cases hlabel
  rfl

end OrderKey

end Realization

/-! ## Steps of an account -/

/-- Whether a vertex or an edge is in its graph. -/
def Piece.IsIn (old new : Graph) : Piece → Prop
  | oldVertex id => id < old.vertices.length
  | newVertex id => id < new.vertices.length
  | oldEdge id => id < old.edges.length
  | newEdge id => id < new.edges.length

/-- Whether everything that a step is about is in the graphs. -/
def Edit.IsIn (old new : Graph) (operation : Edit) : Prop :=
  ∀ piece ∈ operation.uses, piece.IsIn old new

theorem AccountFor.isIn {operations : List Edit} {m kept : Matching}
    (h : AccountFor operations old new m kept) {operation : Edit} (hmem : operation ∈ operations) :
    operation.IsIn old new := by
  intro piece hpiece
  cases operation with
  | insertVertex target =>
    obtain rfl := List.mem_singleton.1 hpiece
    exact ((h.insertVertex_mem_iff target).1 hmem).1
  | deleteVertex source =>
    obtain rfl := List.mem_singleton.1 hpiece
    exact ((h.deleteVertex_mem_iff source).1 hmem).1
  | changeVertex source target =>
    obtain ⟨-, v, w, hv, hw, -⟩ := (h.changeVertex_mem_iff source target).1 hmem
    rcases List.mem_pair.1 hpiece with rfl | rfl
    · exact (List.getElem?_eq_some_iff.1 hv).1
    · exact (List.getElem?_eq_some_iff.1 hw).1
  | insertEdge target =>
    obtain rfl := List.mem_singleton.1 hpiece
    exact h.insertEdge_lt target hmem
  | deleteEdge source =>
    obtain rfl := List.mem_singleton.1 hpiece
    exact h.deleteEdge_lt source hmem
  | changeEdge source target =>
    obtain ⟨x, y, hx, hy, -⟩ := h.changeEdge_related source target hmem
    rcases List.mem_pair.1 hpiece with rfl | rfl
    · exact (List.getElem?_eq_some_iff.1 hx).1
    · exact (List.getElem?_eq_some_iff.1 hy).1

/-- Steps about one vertex or edge are one step. -/
theorem Edit.eq_of_uses {operations : List Edit} (hnodup : (operations.flatMap Edit.uses).Nodup)
    {a b : Edit} (ha : a ∈ operations) (hb : b ∈ operations) {piece : Piece}
    (hpiece : piece ∈ a.uses) (hpiece' : piece ∈ b.uses) : a = b := by
  by_contra hne
  have hdisjoint := (List.nodup_flatMap.1 hnodup).2
  have : Std.Symm (Function.onFun List.Disjoint Edit.uses) := ⟨fun _ _ h => h.symm⟩
  exact hdisjoint.forall ha hb hne hpiece hpiece'

namespace Realization

/-! ## The order of steps -/

namespace OrderKey

variable (ρ : old.Renaming old') (τ : new.Renaming new') {a b : Edit}

theorem ofOperation_renumbered (h : a.IsIn old new) :
    ofOperation old' new' (a.renumbered ρ τ) = { ofOperation old new a with
      id := (ofOperation old' new' (a.renumbered ρ τ)).id } := by
  cases a with
  | insertVertex target => exact ofVertex_vertexId τ 2 target
  | deleteVertex source => exact ofVertex_vertexId ρ 0 source
  | changeVertex source target => exact ofVertex_vertexId τ 1 target
  | insertEdge target =>
    exact ofEdge_edgeId τ 2 (List.getElem?_eq_getElem (h (.newEdge target) (by simp [Edit.uses])))
  | deleteEdge source =>
    exact ofEdge_edgeId ρ 0 (List.getElem?_eq_getElem (h (.oldEdge source) (by simp [Edit.uses])))
  | changeEdge source target =>
    exact ofEdge_edgeId τ 1 (List.getElem?_eq_getElem (h (.newEdge target) (by simp [Edit.uses])))

theorem compare_ofVertex (ρ : g.Renaming h) {rank a b : Nat} (ha : a < g.vertices.length)
    (hb : b < g.vertices.length)
    (heq : { ofVertex g rank a with id := 0 } = { ofVertex g rank b with id := 0 }) :
    Ord.compare (ρ.vertexId a) (ρ.vertexId b) = Ord.compare a b := by
  rw [eq_of_ofVertex ha hb heq]
  simp

theorem compare_ofEdge (ρ : g.Renaming h) {rank a b : Nat} (ha : a < g.edges.length)
    (hb : b < g.edges.length)
    (heq : { ofEdge g rank a with id := 0 } = { ofEdge g rank b with id := 0 }) :
    Ord.compare (ρ.edgeId a) (ρ.edgeId b) = Ord.compare a b := by
  have hx : g.edge? a = some g.edges[a] := List.getElem?_eq_getElem ha
  have hy : g.edge? b = some g.edges[b] := List.getElem?_eq_getElem hb
  exact ρ.compare_edgeId (by rw [hx, hy, eq_of_ofEdge hx hy heq])

theorem compare_renumbered (ha : a.IsIn old new) (hb : b.IsIn old new) :
    compare (ofOperation old' new' (a.renumbered ρ τ)) (ofOperation old' new' (b.renumbered ρ τ)) =
      compare (ofOperation old new a) (ofOperation old new b) := by
  rw [ofOperation_renumbered ρ τ ha, ofOperation_renumbered ρ τ hb]
  refine compare_withId fun heq => ?_
  -- steps of different kinds have different keys, whatever their numbers
  have hstep := congrArg isEdge heq
  have hrank := congrArg rank heq
  cases a <;> cases b <;> simp [ofOperation, ofVertex, ofEdge] at hstep hrank
  case insertVertex.insertVertex a b =>
    exact compare_ofVertex τ (ha (.newVertex a) (by simp [Edit.uses]))
      (hb (.newVertex b) (by simp [Edit.uses])) heq
  case deleteVertex.deleteVertex a b =>
    exact compare_ofVertex ρ (ha (.oldVertex a) (by simp [Edit.uses]))
      (hb (.oldVertex b) (by simp [Edit.uses])) heq
  case changeVertex.changeVertex _ a _ b =>
    exact compare_ofVertex τ (ha (.newVertex a) (by simp [Edit.uses]))
      (hb (.newVertex b) (by simp [Edit.uses])) heq
  case insertEdge.insertEdge a b =>
    exact compare_ofEdge τ (ha (.newEdge a) (by simp [Edit.uses]))
      (hb (.newEdge b) (by simp [Edit.uses])) heq
  case deleteEdge.deleteEdge a b =>
    exact compare_ofEdge ρ (ha (.oldEdge a) (by simp [Edit.uses]))
      (hb (.oldEdge b) (by simp [Edit.uses])) heq
  case changeEdge.changeEdge _ a _ b =>
    exact compare_ofEdge τ (ha (.newEdge a) (by simp [Edit.uses]))
      (hb (.newEdge b) (by simp [Edit.uses])) heq

/-- Steps with one key are about one vertex or edge. -/
theorem exists_piece (heq : ofOperation old new a = ofOperation old new b) :
    ∃ piece, piece ∈ a.uses ∧ piece ∈ b.uses := by
  have hstep := congrArg isEdge heq
  have hrank := congrArg rank heq
  have hid := congrArg OrderKey.id heq
  cases a <;> cases b <;> simp [ofOperation, ofVertex, ofEdge] at hstep hrank hid
  all_goals
    subst hid
    simp [Edit.uses]

end OrderKey

/-- Steps between graphs with other numbers come in the same order. -/
theorem ordered_renumbered {ρ : old.Renaming old'} {τ : new.Renaming new'}
    {operations operations' : List Edit}
    (hperm : (operations.map (Edit.renumbered ρ τ)).Perm operations')
    (hin : ∀ operation ∈ operations, operation.IsIn old new)
    (hnodup : (operations.flatMap Edit.uses).Nodup) :
    ordered old' new' operations' = (ordered old new operations).map (Edit.renumbered ρ τ) := by
  have hcompare (a : Edit) (ha : a ∈ operations) (b : Edit) (hb : b ∈ operations) :
      compareSteps old' new' (a.renumbered ρ τ) (b.renumbered ρ τ) = compareSteps old new a b :=
    OrderKey.compare_renumbered ρ τ (hin a ha) (hin b hb)
  rw [ordered_eq, ordered_eq, ← sortBy_map hcompare]
  symm
  -- the order leaves nothing open, since no two steps are about the same
  refine sortBy_eq_of_perm hperm fun x hx y hy hequal => ?_
  obtain ⟨a, ha, rfl⟩ := List.mem_map.1 hx
  obtain ⟨b, hb, rfl⟩ := List.mem_map.1 hy
  rw [hcompare a ha b hb] at hequal
  obtain ⟨piece, hpiece, hpiece'⟩ := OrderKey.exists_piece (Std.LawfulEqCmp.eq_of_compare hequal)
  rw [Edit.eq_of_uses hnodup ha hb hpiece hpiece']

end Realization

/-! ## Scripts -/

open Realization in
theorem Matching.operations_renumbered {m m' : Matching} {ρ : old.Renaming old'}
    {τ : new.Renaming new'} (h : m.IsRenamed ρ τ m') (hm : m.IsCorrespondence old new)
    (hm' : m'.IsOneToOne) :
    m'.operations old' new' = (m.operations old new).map (Edit.renumbered ρ τ) := by
  obtain ⟨edges, hedges, hperm⟩ := hm.exists_operations_perm
  have haccount := (accountFor_stepsOf hm hedges).of_perm
    ((ordered_perm old new _).symm.trans hperm)
  refine ordered_renumbered ?_ (fun _ => haccount.isIn) haccount.uses_nodup
  rw [List.map_append]
  exact (vertexOperations_renumbered_perm h hm.isOneToOne hm').append
    (edgeOperations_renumbered_perm h hm.isOneToOne hm')

/-- The script between graphs with other numbers is the same under those numbers. -/
theorem Script.between_renumbered (ρ : old.Renaming old') (τ : new.Renaming new') (config : Config)
    (clock : Clock) : Script.between old' new' config clock =
      ⟨(Script.between old new config clock).operations.map (Edit.renumbered ρ τ),
        (Script.between old new config clock).approximate⟩ := by
  unfold Script.between Matching.searched?
  rw [← Unanchored.best?_eq ρ τ]
  cases hfound : (Unanchored.problem old new).best? config.workers (config.budget.allows clock) with
  | none =>
    simp only [Option.map_none]
    rw [Matching.operations_renumbered (Matching.anchors_isRenamed ρ τ)
      (Matching.anchors_isCorrespondence old new) (Matching.anchors_isOneToOne old' new')]
  | some found =>
    have hfound' : (Unanchored.problem old' new').best? config.workers
        (config.budget.allows clock) = some found := by
      rw [← Unanchored.best?_eq ρ τ, hfound]
    have hbest := Assignment.Problem.isBest_of_best?_eq_some hfound
    have hbest' := Assignment.Problem.isBest_of_best?_eq_some hfound'
    simp only [Option.map_some]
    rw [Matching.operations_renumbered (Matching.ofAssignment_isRenamed ρ τ found)
      (Matching.ofAssignment_isCorrespondence hbest.1.isAssignment)
      (Matching.ofAssignment_isOneToOne hbest'.1.isAssignment)]

end SchemaDelta
