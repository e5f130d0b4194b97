import SchemaDelta.Proofs.Edit.Agreement
import SchemaDelta.Proofs.Edit.Schedules
import SchemaDelta.Proofs.Renaming.Scripts

/-!
What an assignment costs when an element is renamed. Whatever the assignment, the element itself is
deleted or changed, and so is each edge with another label; so none is cheaper than the one in
place.
-/

namespace SchemaDelta

open Assignment Unanchored Realization

/-- The old vertex or edge that a step is about. -/
def Edit.source? : Edit → Option Piece
  | .insertVertex _ | .insertEdge _ => none
  | .deleteVertex source | .changeVertex source _ => some (.oldVertex source)
  | .deleteEdge source | .changeEdge source _ => some (.oldEdge source)

/-- There are at least as many steps as there are vertices and edges that they are about. -/
theorem length_le_of_source? {pieces : List Piece} {operations : List Edit} (hnodup : pieces.Nodup)
    (h : ∀ piece ∈ pieces, ∃ operation ∈ operations, operation.source? = some piece) :
    pieces.length ≤ operations.length := by
  have hsubset : pieces ⊆ operations.filterMap Edit.source? := fun piece hpiece =>
    List.mem_filterMap.2 (h piece hpiece)
  exact (List.subperm_of_subset hnodup hsubset).length_le.trans (List.length_filterMap_le ..)

/-! ## What is touched whatever the assignment -/

/-- The searched vertices matched with one of their own name that has other properties. -/
def reset (old new : Graph) (assignment : List Choice) : List Nat :=
  ((pairs old new assignment).filter (propertiesAloneDiffer old new)).map (·.1)

/-- What has a step about it when the element at `center` is renamed. -/
def touched (old new : Graph) (assignment : List Choice) (center : Nat) : List Piece :=
  (center :: reset old new assignment).map Piece.oldVertex ++
    (old.relabelled new).map Piece.oldEdge

section Touched

variable {old new : Graph} {assignment : List Choice}

theorem length_touched {center : Nat} : (touched old new assignment center).length =
    1 + (pairs old new assignment).countP (propertiesAloneDiffer old new) +
      (old.relabelled new).length := by
  simp only [touched, reset, List.length_append, List.length_map, List.length_cons,
    ← List.countP_eq_length_filter]
  omega

variable (hassignment : (problem old new).IsAssignment assignment)

include hassignment

theorem nodup_reset : (reset old new assignment).Nodup :=
  (nodup_sources_pairs old new (Nat.le_of_eq (length_assignment hassignment).symm)).sublist
    (List.filter_sublist.map _)

theorem exists_of_mem_reset {source : Nat} (hsource : source ∈ reset old new assignment) :
    ∃ target v w, (source, target) ∈ (Matching.ofAssignment old new assignment).pairs ∧
      old.vertex? source = some v ∧ new.vertex? target = some w ∧ v.kind = w.kind ∧
      v.name = w.name ∧ v.properties ≠ w.properties := by
  obtain ⟨⟨source, target⟩, hmem, rfl⟩ := List.mem_map.1 hsource
  obtain ⟨hpair, hdiffers⟩ := List.mem_filter.1 hmem
  have hmatched := Matching.mem_ofAssignment.2 (.inr hpair)
  obtain ⟨v, w, hv, hw, hkind⟩ :=
    (Matching.ofAssignment_isCorrespondence hassignment).kinds hmatched
  simp only [propertiesAloneDiffer, hv, hw, Option.getD_some, Bool.and_eq_true, beq_iff_eq,
    bne_iff_ne] at hdiffers
  exact ⟨target, v, w, hmatched, hv, hw, hkind, hdiffers.1, hdiffers.2⟩

end Touched

namespace Graph.BecomesBy

variable {r : Rename} {old new : Graph} {center target : Nat} {v w : Vertex}
  {assignment : List Choice} (h : old.BecomesBy r new) (hcenter : old.vertex? center = some v)
  (hat : r.IsAt v)

include h hcenter hat

theorem exists_renamed : ∃ w, new.vertex? center = some w ∧ w.name = r.newName := by
  obtain ⟨w, hw, hmoves⟩ := h.exists_new hcenter
  exact ⟨w, hw, by rw [hmoves.eq_of_isAt hat]⟩

/-- Whatever is renamed is matched with, it has another name. -/
theorem name_ne (hmem : (center, target) ∈ (Matching.ofAssignment old new assignment).pairs)
    (hw : new.vertex? target = some w) (hkind : v.kind = w.kind) : v.name ≠ w.name := by
  obtain ⟨w', hw', hname⟩ := h.exists_renamed hcenter hat
  -- the element is the only one of its kind that is searched
  have htarget : target = center := by
    rcases Matching.mem_ofAssignment.1 hmem with hanchor | hpair
    · exact (h.mem_anchors_iff.1 hanchor).1.symm
    · have hsearched := (mem_searched_of_mem_pairs hpair).2
      rw [h.newSearched_eq] at hsearched
      obtain ⟨hlt, hfree⟩ := h.mem_oldSearched_iff.1 hsearched
      obtain ⟨u, w₂, hu, hw₂, hkind', hmoved⟩ := h.exists_moved hlt hfree
      cases hw.symm.trans hw₂
      rcases hmoved with hat' | ⟨hrank, -⟩
      · exact Graph.eq_of_place hu hcenter (hat'.place_eq hat)
      · rw [hkind', ← hkind] at hrank
        exact absurd hrank hat.not_inside
  subst htarget
  cases hw.symm.trans hw'
  rw [hat.name, hname]
  exact h.ne.symm

/-! ## What no script leaves as it is -/

section Account

variable {kept : Matching} (hassignment : (problem old new).IsAssignment assignment)
  (haccount : AccountFor ((Matching.ofAssignment old new assignment).operations old new) old new
    (Matching.ofAssignment old new assignment) kept)

include haccount

include hassignment in
theorem exists_step_of_center :
    ∃ operation ∈ (Matching.ofAssignment old new assignment).operations old new,
      operation.source? = some (.oldVertex center) := by
  by_cases hmatched : ∃ target,
      (center, target) ∈ (Matching.ofAssignment old new assignment).pairs
  · obtain ⟨target, hmem⟩ := hmatched
    obtain ⟨v', w, hv', hw, hkind⟩ :=
      (Matching.ofAssignment_isCorrespondence hassignment).kinds hmem
    cases hcenter.symm.trans hv'
    exact ⟨_, (haccount.changeVertex_mem_iff center target).2 ⟨hmem, v, w, hcenter, hw,
      fun hagree => h.name_ne hcenter hat hmem hw hkind hagree.1⟩, rfl⟩
  · have hlt : center < old.vertices.length := Graph.lt_of_vertex? hcenter
    exact ⟨_, (haccount.deleteVertex_mem_iff center).2
      ⟨hlt, fun target hmem => hmatched ⟨target, hmem⟩⟩, rfl⟩

omit hcenter hat in
theorem exists_step_of_relabelled {id : Nat} (hid : id ∈ old.relabelled new) :
    ∃ operation ∈ (Matching.ofAssignment old new assignment).operations old new,
      operation.source? = some (.oldEdge id) := by
  obtain ⟨e, e', he, he', hne⟩ := Graph.mem_relabelled_iff.1 hid
  have hlt : id < old.edges.length := (List.getElem?_eq_some_iff.1 he).1
  have hpair : (e, e') ∈ old.edges.zip new.edges :=
    List.mem_of_getElem? (List.getElem?_zip_eq_some.2 ⟨he, he'⟩)
  rcases haccount.oldEdges id hlt with ⟨hdelete, -⟩ | ⟨-, ⟨target, hchange⟩, -⟩ |
    ⟨-, -, target, hkept⟩
  · exact ⟨_, hdelete, rfl⟩
  · exact ⟨_, hchange, rfl⟩
  -- no edge has its label afterwards
  · obtain ⟨x, y, hx, hy, -, -, hlabel⟩ := haccount.kept_related id target hkept
    cases he.symm.trans hx
    exact absurd hlabel.symm (h.gone (e, e') hpair hne y (List.mem_of_getElem? hy))

end Account

/-- Each of the touched pieces has a step about it. -/
theorem exists_step_of_touched (hassignment : (problem old new).IsAssignment assignment)
    {piece : Piece} (hpiece : piece ∈ touched old new assignment center) :
    ∃ operation ∈ (Matching.ofAssignment old new assignment).operations old new,
      operation.source? = some piece := by
  have hm := Matching.ofAssignment_isCorrespondence hassignment
  obtain ⟨edges, hedges, hperm⟩ := hm.exists_operations_perm
  have haccount := (accountFor_stepsOf hm hedges).of_perm hperm
  rcases List.mem_append.1 hpiece with hvertex | hedge
  · obtain ⟨id, hid, rfl⟩ := List.mem_map.1 hvertex
    rcases List.mem_cons.1 hid with rfl | hid
    · exact h.exists_step_of_center hcenter hat hassignment haccount
    · obtain ⟨target, v, w, hmem, hv, hw, -, -, hproperties⟩ := exists_of_mem_reset hassignment hid
      exact ⟨_, (haccount.changeVertex_mem_iff id target).2
        ⟨hmem, v, w, hv, hw, fun hagree => hproperties hagree.2⟩, rfl⟩
  · obtain ⟨id, hid, rfl⟩ := List.mem_map.1 hedge
    exact h.exists_step_of_relabelled haccount hid

theorem nodup_touched (hassignment : (problem old new).IsAssignment assignment) :
    (touched old new assignment center).Nodup := by
  have hcenter_notMem : center ∉ reset old new assignment := by
    intro hmem
    obtain ⟨target, v', w, hmem, hv', hw, hkind, hname, -⟩ := exists_of_mem_reset hassignment hmem
    cases hcenter.symm.trans hv'
    exact h.name_ne hcenter hat hmem hw hkind hname
  have hvertices := List.nodup_cons.2 ⟨hcenter_notMem, nodup_reset hassignment⟩
  refine List.nodup_append.2 ⟨hvertices.map fun _ _ => Piece.oldVertex.inj,
    (Graph.nodup_relabelled old new).map fun _ _ => Piece.oldEdge.inj, ?_⟩
  intro piece hvertex piece' hedge heq
  obtain ⟨_, -, rfl⟩ := List.mem_map.1 hvertex
  obtain ⟨_, -, rfl⟩ := List.mem_map.1 hedge
  cases heq

theorem length_operations_ge (hassignment : (problem old new).IsAssignment assignment) :
    1 + (pairs old new assignment).countP (propertiesAloneDiffer old new) +
        (old.relabelled new).length ≤
      ((Matching.ofAssignment old new assignment).operations old new).length := by
  have hlength := length_le_of_source? (h.nodup_touched hcenter hat hassignment) fun _ =>
    h.exists_step_of_touched hcenter hat hassignment
  rwa [length_touched] at hlength

/-! ## The best assignment -/

theorem inPlace_operations_perm :
    ((Matching.ofAssignment old new (problem old new).inPlace).operations old new).Perm
      (.changeVertex center center ::
        (old.relabelled new).map fun id => .changeEdge id id) :=
  h.operations_perm (fun _ _ => h.mem_ofAssignment_inPlace_iff)
    (Matching.ofAssignment_isCorrespondence h.isFeasible_inPlace.isAssignment) hcenter hat

theorem isBest_inPlace : (problem old new).IsBest (problem old new).inPlace := by
  refine Problem.isBest_inPlace h.isFeasible_inPlace fun assignment hassignment => ?_
  have hlength := Unanchored.length_operations hassignment
  have hinPlace := Unanchored.length_operations h.isFeasible_inPlace.isAssignment
  have hsteps := (h.inPlace_operations_perm hcenter hat).length_eq
  have hleast := h.length_operations_ge hcenter hat hassignment
  rw [List.length_cons, List.length_map] at hsteps
  omega

/-- Whatever the schedule, a search that is not given up comes to the assignment in place. -/
theorem eq_of_canBe {config : Config} {clock : Clock} {exhausted : Bool} {script : Script}
    (hscript : Script.CanBe old new config clock exhausted script)
    (hfound : script.approximate = false) :
    script = ⟨(Matching.ofAssignment old new (problem old new).inPlace).operations old new,
      false⟩ := by
  obtain ⟨found, houtcome, rfl⟩ := hscript
  rw [houtcome.eq_ite (h.isBest_inPlace hcenter hat)] at hfound ⊢
  cases exhausted with
  | false => rfl
  | true => cases hfound

end Graph.BecomesBy

end SchemaDelta
