import SchemaDelta.Proofs.Edit.Accounts
import SchemaDelta.Proofs.Edit.Edited
import SchemaDelta.Proofs.Edit.Schedules

/-!
A script turns the old graph into the new one. Each vertex and each edge of both graphs is dealt
with once, and the edited graph is the new one up to paths.
-/

namespace SchemaDelta

variable {old new : Graph} {m : Matching}

/-! ## The edited graph -/

namespace EditedGraph

open Realization

/-- The new vertex that a vertex of an edited graph has become. -/
def number? (m : Matching) : Origin → Option Nat
  | .old id => m.image? id
  | .new id => some id

theorem number?_standIn (h : m.IsOneToOne) (id : Nat) : number? m (standIn m id) = some id := by
  unfold standIn
  cases hpreimage : m.preimage? id with
  | none => rfl
  | some source => exact h.image?_eq_some_iff.2 (Matching.mem_of_preimage? hpreimage)

theorem eq_map_range {α : Type} [Inhabited α] (as : List α) :
    as = (List.range as.length).map fun i => as[i]?.getD default := by
  have hfirsts := congrArg (List.map Prod.fst) (zipIdx_eq_map_range as)
  rwa [List.zipIdx_map_fst, List.map_map] at hfirsts

section After

variable {edges : Settlement Nat} {operations : List Edit}

theorem old_mem_vertices_after (h : m.IsCorrespondence old new)
    (hoperations : operations.Perm (stepsOf (vertexSettlement old new m) edges))
    {source target : Nat} (hmem : (source, target) ∈ m.pairs) :
    .old source ∈ (after old new m operations).vertices.map EditedVertex.origin := by
  have hperm : (after old new m operations).vertices.Perm _ :=
    vertices_after_perm (vertexSettlement_settles h).olds hoperations
  rw [(hperm.map _).mem_iff, List.map_append, List.map_append, List.map_map, List.map_map]
  refine List.mem_append_left _ ?_
  -- the pair is kept or changed
  rw [List.mem_append, List.mem_map, List.mem_map]
  unfold vertexSettlement
  simp only [List.mem_filter]
  by_cases hagree : ((old.vertex? source).getD default).Agrees ((new.vertex? target).getD default)
  · exact Or.inl ⟨(source, target), ⟨hmem, by simpa using hagree⟩, rfl⟩
  · exact Or.inr ⟨(source, target), ⟨hmem, by simpa using hagree⟩, rfl⟩

/-- Edges that are not deleted lead between old vertices that are not deleted. -/
theorem ends_mem_vertices_after (h : m.IsCorrespondence old new)
    (hoperations : operations.Perm (stepsOf (vertexSettlement old new m) edges))
    {source target : Nat} {related : String → String → Prop}
    (hrelated : m.RelatesEdges old new related source target) :
    (oldEdge old source).one ∈ (after old new m operations).vertices.map EditedVertex.origin ∧
      (oldEdge old source).two ∈
        (after old new m operations).vertices.map EditedVertex.origin := by
  obtain ⟨x, y, hx, -, hone, htwo, -⟩ := hrelated
  simp only [oldEdge, hx, Option.getD_some]
  exact ⟨old_mem_vertices_after h hoperations hone, old_mem_vertices_after h hoperations htwo⟩

theorem standIn_mem_vertices_after (h : m.IsCorrespondence old new)
    (hoperations : operations.Perm (stepsOf (vertexSettlement old new m) edges))
    {target : Nat} (htarget : target < new.vertices.length) :
    standIn m target ∈ (after old new m operations).vertices.map EditedVertex.origin := by
  unfold standIn
  cases hpreimage : m.preimage? target with
  | some source =>
    exact old_mem_vertices_after h hoperations (Matching.mem_of_preimage? hpreimage)
  | none =>
    have hperm : (after old new m operations).vertices.Perm _ :=
      vertices_after_perm (vertexSettlement_settles h).olds hoperations
    rw [(hperm.map _).mem_iff, List.map_append, List.map_map]
    refine List.mem_append_right _ (List.mem_map.2 ⟨target, ?_, rfl⟩)
    exact List.mem_filter.2 ⟨List.mem_range.2 htarget, by rw [hpreimage]; rfl⟩

/-- Steps that settle the vertices and edges of two graphs make the one into the other. -/
theorem after_isNumberedAs (h : m.IsCorrespondence old new)
    (hedges : Settles (m.RelatesEdges old new (· = ·)) (m.RelatesEdges old new (· ≠ ·))
      (List.range old.edges.length) (List.range new.edges.length) edges)
    (hoperations : operations.Perm (stepsOf (vertexSettlement old new m) edges)) :
    (after old new m operations).IsNumberedAs new (number? m) where
  vertices := by
    have hvertices := vertexSettlement_settles h
    have hperm : (after old new m operations).vertices.Perm _ :=
      vertices_after_perm hvertices.olds hoperations
    refine (hperm.map _).trans ?_
    rw [zipIdx_eq_map_range, List.map_map]
    refine List.Perm.trans (List.Perm.of_eq ?_) (hvertices.news.map _)
    unfold Settlement.news
    simp only [List.map_append, List.map_map]
    congr 2
    · apply List.map_congr_left
      intro pair hpair
      obtain ⟨v, w, hv, hw, himage, hkind, hname, hproperties⟩ :=
        (hvertices.kept pair hpair).exists_kind h
      have hw'' : new.vertices[pair.2]? = some w := hw
      simp [oldVertex, number?, himage, hv, hw'', hkind, hname, hproperties]
    · apply List.map_congr_left
      intro pair hpair
      obtain ⟨v, w, hv, hw, himage, hkind, -⟩ := (hvertices.changed pair hpair).exists_kind h
      have hw'' : new.vertices[pair.2]? = some w := hw
      simp [becomeVertex, oldVertex, number?, himage, hv, hw, hw'', hkind]
  edges := by
    have hperm : (after old new m operations).edges.Perm _ :=
      edges_after_perm hedges.olds hoperations
    refine (hperm.map _).trans ?_
    rw [eq_map_range new.edges, List.map_map]
    refine List.Perm.trans (List.Perm.of_eq ?_) (hedges.news.map _)
    unfold Settlement.news
    simp only [List.map_append, List.map_map]
    congr 2
    · apply List.map_congr_left
      intro pair hpair
      obtain ⟨x, y, hx, hy, hone, htwo, hlabel⟩ := hedges.kept pair hpair
      have hy' : new.edges[pair.2]? = some y := hy
      simp [oldEdge, number?, hx, hy', hlabel, h.isOneToOne.image?_eq_some_iff.2 hone,
        h.isOneToOne.image?_eq_some_iff.2 htwo]
    · apply List.map_congr_left
      intro pair hpair
      obtain ⟨x, y, hx, hy, hone, htwo, -⟩ := hedges.changed pair hpair
      have hy' : new.edges[pair.2]? = some y := hy
      simp [becomeEdge, oldEdge, number?, hx, hy, hy', h.isOneToOne.image?_eq_some_iff.2 hone,
        h.isOneToOne.image?_eq_some_iff.2 htwo]
    · funext target
      simp only [newEdge, Function.comp_apply, number?_standIn h.isOneToOne]
      rfl
  ends := by
    intro e he
    have hperm : (after old new m operations).edges.Perm _ :=
      edges_after_perm hedges.olds hoperations
    rcases List.mem_append.1 (hperm.mem_iff.1 he) with he | he
    · rcases List.mem_append.1 he with he | he
      · obtain ⟨pair, hpair, rfl⟩ := List.mem_map.1 he
        exact ends_mem_vertices_after h hoperations (hedges.kept pair hpair)
      · obtain ⟨pair, hpair, rfl⟩ := List.mem_map.1 he
        exact ends_mem_vertices_after h hoperations (hedges.changed pair hpair)
    · obtain ⟨target, htarget, rfl⟩ := List.mem_map.1 he
      have hlt : target < new.edges.length := by
        rw [← List.mem_range, ← hedges.news.mem_iff]
        exact List.mem_append_right _ htarget
      have hknown := new.ends_known _ (List.getElem_mem hlt)
      have hedge : new.edge? target = some new.edges[target] := List.getElem?_eq_getElem hlt
      simp only [newEdge, hedge, Option.getD_some]
      exact ⟨standIn_mem_vertices_after h hoperations hknown.1,
        standIn_mem_vertices_after h hoperations hknown.2⟩

end After

end EditedGraph

/-! ## Scripts -/

/-- Whatever the schedule, a script realizes a matching that keeps kinds and places, whether or not
the search is given up. -/
theorem Script.CanBe.exists_isCorrespondence {config : Config} {clock : Clock} {exhausted : Bool}
    {script : Script} (h : Script.CanBe old new config clock exhausted script) :
    ∃ m : Matching, m.IsCorrespondence old new ∧ script.operations = m.operations old new := by
  obtain ⟨found, houtcome, rfl⟩ := h
  obtain ⟨best, hbest⟩ := (Unanchored.problem old new).exists_isBest
  rw [houtcome.eq_ite hbest]
  cases exhausted with
  | true => exact ⟨_, Matching.anchors_isCorrespondence old new, rfl⟩
  | false => exact ⟨_, Matching.ofAssignment_isCorrespondence hbest.1.isAssignment, rfl⟩

theorem Matching.CanBeFound.isCorrespondence {config : Config} {clock : Clock} {m : Matching}
    (h : Matching.CanBeFound old new config clock m) : m.IsCorrespondence old new := by
  obtain ⟨assignment, hfeasible, rfl⟩ := h.exists_isFeasible
  exact ofAssignment_isCorrespondence hfeasible.isAssignment

theorem Matching.between_isCorrespondence (old new : Graph) (config : Config) (clock : Clock) :
    (between old new config clock).IsCorrespondence old new := by
  unfold between
  cases hfound : searched? old new config clock with
  | none => exact anchors_isCorrespondence old new
  | some m => exact (canBeFound_of_searched? hfound).isCorrespondence

theorem Script.operations_between (old new : Graph) (config : Config) (clock : Clock) :
    (between old new config clock).operations =
      (Matching.between old new config clock).operations old new := by
  unfold between Matching.between
  cases Matching.searched? old new config clock <;> rfl

theorem Script.exists_isCorrespondence (old new : Graph) (config : Config) (clock : Clock) :
    ∃ m : Matching, m.IsCorrespondence old new ∧
      (Script.between old new config clock).operations = m.operations old new :=
  ⟨_, Matching.between_isCorrespondence old new config clock,
    Script.operations_between old new config clock⟩

/-- Whatever the configuration, and whether or not the search is given up, a script accounts for all
vertices and edges of both graphs, and carried out on the old graph it gives the new one. -/
theorem every_script_turns_old_into_new (old new : Graph) (config : Config) (clock : Clock) :
    ∃ m kept : Matching, m.IsCorrespondence old new ∧
      AccountFor (Script.between old new config clock).operations old new m kept ∧
      (EditedGraph.after old new m (Script.between old new config clock).operations).IsNumberedAs
        new (EditedGraph.number? m) := by
  obtain ⟨m, hm, hoperations⟩ := Script.exists_isCorrespondence old new config clock
  obtain ⟨edges, hedges, hperm⟩ := hm.exists_operations_perm
  rw [hoperations]
  exact ⟨m, ⟨edges.kept⟩, hm, (accountFor_stepsOf hm hedges).of_perm hperm,
    EditedGraph.after_isNumberedAs hm hedges hperm⟩

end SchemaDelta
