import SchemaDelta.Proofs.Edit.Accounts
import SchemaDelta.Proofs.Edit.Bundles
import SchemaDelta.Proofs.Renaming.Searches

/-!
The script when an element is renamed and everything is matched with itself: the element is changed,
and so is each edge whose label is another one.
-/

namespace SchemaDelta

open Assignment Unanchored Realization

/-- The numbers of the edges that have other labels in another graph. -/
def Graph.relabelled (g g' : Graph) : List Nat :=
  ((g.edges.zip g'.edges).zipIdx.filter fun entry => entry.1.1.label != entry.1.2.label).map (·.2)

theorem Graph.nodup_relabelled (g g' : Graph) : (g.relabelled g').Nodup := by
  have hnumbers : ((g.edges.zip g'.edges).zipIdx.map (·.2)).Nodup := by
    rw [List.zipIdx_map_snd]
    exact List.nodup_range'
  exact hnumbers.sublist (List.filter_sublist.map _)

theorem Graph.mem_relabelled_iff {g g' : Graph} {id : Nat} : id ∈ g.relabelled g' ↔
    ∃ e e', g.edge? id = some e ∧ g'.edge? id = some e' ∧ e.label ≠ e'.label := by
  simp only [relabelled, List.mem_map, List.mem_filter, bne_iff_ne, Prod.exists,
    List.mem_zipIdx_iff_getElem?, List.getElem?_zip_eq_some]
  constructor
  · rintro ⟨e, e', _, ⟨⟨he, he'⟩, hne⟩, rfl⟩
    exact ⟨e, e', he, he', hne⟩
  · rintro ⟨e, e', he, he', hne⟩
    exact ⟨e, e', id, ⟨⟨he, he'⟩, hne⟩, rfl⟩

/-- A matching of every vertex with the one under its number. -/
def Matching.IsInPlace (m : Matching) (g : Graph) : Prop :=
  ∀ source target, (source, target) ∈ m.pairs ↔ source = target ∧ source < g.vertices.length

/-- Only what is renamed differs from what it was in more than its path. -/
theorem Rename.MovesVertex.agrees {r : Rename} {v w : Vertex} (h : r.MovesVertex v w)
    (hother : ¬ r.IsAt v) : v.Agrees w := by
  cases h with
  | renamed hat => exact absurd hat hother
  | same | inside => exact ⟨rfl, rfl⟩

namespace Graph.BecomesBy

variable {r : Rename} {old new : Graph} {m : Matching} {id center : Nat} {v : Vertex}
  (h : old.BecomesBy r new)

include h

/-! ## Steps on edges -/

/-- The edges of both graphs, side by side, with their numbers. -/
def sides (old new : Graph) : List ((Edge × Edge) × Nat) :=
  (old.edges.zip new.edges).zipIdx

theorem numberedEdges_old :
    old.numberedEdges = (sides old new).map fun entry => (entry.1.1, entry.2) := by
  have hedges : old.edges = (old.edges.zip new.edges).map Prod.fst :=
    (List.map_fst_zip (Nat.le_of_eq h.ends.length_eq)).symm
  unfold Graph.numberedEdges sides
  conv_lhs => rw [hedges, List.zipIdx_map]
  rfl

theorem numberedEdges_new :
    new.numberedEdges = (sides old new).map fun entry => (entry.1.2, entry.2) := by
  have hedges : new.edges = (old.edges.zip new.edges).map Prod.snd :=
    (List.map_snd_zip (Nat.le_of_eq h.ends.length_eq.symm)).symm
  unfold Graph.numberedEdges sides
  conv_lhs => rw [hedges, List.zipIdx_map]
  rfl

omit h in
theorem mem_sides {entry : (Edge × Edge) × Nat} (hentry : entry ∈ sides old new) :
    entry.1 ∈ old.edges.zip new.edges :=
  List.mem_of_getElem? (List.mem_zipIdx_iff_getElem?.1 hentry)

/-- The strand of one of two edges side by side. -/
def strand (label : Edge × Edge → String) (entry : (Edge × Edge) × Nat) : Strand :=
  ⟨entry.1.1.one, entry.1.1.two, label entry.1, entry.2⟩

section InPlace

variable (hm : m.IsOneToOne) (hall : m.IsInPlace old)

include hm hall

omit h in
theorem image?_eq (hlt : id < old.vertices.length) : m.image? id = some id :=
  hm.image?_eq_some_iff.2 ((hall id id).2 ⟨rfl, hlt⟩)

omit h in
theorem preimage?_eq_self (hlt : id < old.vertices.length) : m.preimage? id = some id :=
  hm.preimage?_eq_some_iff.2 ((hall id id).2 ⟨rfl, hlt⟩)

omit h in
theorem oldStrand?_eq {entry : (Edge × Edge) × Nat} (hentry : entry ∈ sides old new) :
    oldStrand? m (entry.1.1, entry.2) = some (strand (·.1.label) entry) := by
  obtain ⟨hone, htwo⟩ := old.ends_known _ (List.of_mem_zip (mem_sides hentry)).1
  rw [oldStrand?, image?_eq hm hall hone, image?_eq hm hall htwo]
  rfl

theorem newStrand?_eq {entry : (Edge × Edge) × Nat} (hentry : entry ∈ sides old new) :
    newStrand? m (entry.1.2, entry.2) = some (strand (·.2.label) entry) := by
  obtain ⟨hone, htwo⟩ := old.ends_known _ (List.of_mem_zip (mem_sides hentry)).1
  obtain ⟨hone', htwo'⟩ := (List.forall₂_iff_zip.1 h.ends).2 (mem_sides hentry)
  rw [newStrand?, ← hone', ← htwo', preimage?_eq_self hm hall hone,
    preimage?_eq_self hm hall htwo]
  rfl

theorem edgeOperations_eq : edgeOperations old new m =
    (((sides old new).map (strand (·.1.label)) ++
        (sides old new).map (strand (·.2.label))).map Strand.ends).eraseDups.flatMap fun ends =>
      bundleOperations
        (((sides old new).filter fun entry => (entry.1.1.one, entry.1.1.two) == ends).map
          (strand (·.1.label)))
        (((sides old new).filter fun entry => (entry.1.1.one, entry.1.1.two) == ends).map
          (strand (·.2.label))) := by
  have holds : old.numberedEdges.filterMap (oldStrand? m) =
      (sides old new).map (strand (·.1.label)) := by
    rw [h.numberedEdges_old, List.filterMap_map]
    exact filterMap_eq_map_of_eq_some fun _ hentry => oldStrand?_eq hm hall hentry
  have hnews : new.numberedEdges.filterMap (newStrand? m) =
      (sides old new).map (strand (·.2.label)) := by
    rw [h.numberedEdges_new, List.filterMap_map]
    exact filterMap_eq_map_of_eq_some fun _ hentry => h.newStrand?_eq hm hall hentry
  have hdeleted : old.numberedEdges.filter (fun entry => (oldStrand? m entry).isNone) = [] := by
    refine List.filter_eq_nil_iff.2 fun entry hentry => ?_
    rw [h.numberedEdges_old] at hentry
    obtain ⟨side, hside, rfl⟩ := List.mem_map.1 hentry
    rw [oldStrand?_eq hm hall hside]
    exact Bool.false_ne_true
  have hinserted : new.numberedEdges.filter (fun entry => (newStrand? m entry).isNone) = [] := by
    refine List.filter_eq_nil_iff.2 fun entry hentry => ?_
    rw [h.numberedEdges_new] at hentry
    obtain ⟨side, hside, rfl⟩ := List.mem_map.1 hentry
    rw [h.newStrand?_eq hm hall hside]
    exact Bool.false_ne_true
  unfold edgeOperations
  simp only [holds, hnews, hdeleted, hinserted, List.filter_map, List.map_nil, List.nil_append]
  rfl

omit h hm hall in
/-- Strands with the same ends and the same label differ in their numbers only. -/
theorem map_strand_eq {label : Edge × Edge → String} {bundle : List ((Edge × Edge) × Nat)}
    {ends : Nat × Nat} {text : String} (h : ∀ entry ∈ bundle,
      (entry.1.1.one, entry.1.1.two) = ends ∧ label entry.1 = text) :
    bundle.map (strand label) = (bundle.map (·.2)).map (⟨ends.1, ends.2, text, ·⟩) := by
  rw [List.map_map]
  refine List.map_congr_left fun entry hentry => ?_
  obtain ⟨rfl, rfl⟩ := h entry hentry
  rfl

omit hm hall in
/-- In a bundle nothing is changed, or every edge. -/
theorem mem_bundleOperations_iff {operation : Edit} (ends : Nat × Nat) :
    let bundle := (sides old new).filter fun entry => (entry.1.1.one, entry.1.1.two) == ends
    operation ∈ bundleOperations (bundle.map (strand (·.1.label)))
      (bundle.map (strand (·.2.label))) ↔
      ∃ entry ∈ bundle, entry.1.1.label ≠ entry.1.2.label ∧
        operation = .changeEdge entry.2 entry.2 := by
  intro bundle
  by_cases hsame : ∀ entry ∈ bundle, entry.1.1.label = entry.1.2.label
  · have hstrands : bundle.map (strand (·.1.label)) = bundle.map (strand (·.2.label)) :=
      List.map_congr_left fun entry hentry => by rw [strand, strand, hsame entry hentry]
    rw [hstrands, bundleOperations_self]
    refine iff_of_false List.not_mem_nil ?_
    rintro ⟨entry, hentry, hne, -⟩
    exact hne (hsame entry hentry)
  · push Not at hsame
    obtain ⟨first, hfirst, hne⟩ := hsame
    -- then all labels in the bundle are those of the one that changes
    have hends {entry : (Edge × Edge) × Nat} (hentry : entry ∈ bundle) :
        entry ∈ sides old new ∧ (entry.1.1.one, entry.1.1.two) = ends :=
      (List.mem_filter.1 hentry).imp_right beq_iff_eq.1
    have hlabels {entry : (Edge × Edge) × Nat} (hentry : entry ∈ bundle) :
        entry.1.1.label = first.1.1.label ∧ entry.1.2.label = first.1.2.label := by
      obtain ⟨hmem, hends₁⟩ := hends hentry
      obtain ⟨hmem', rfl⟩ := hends hfirst
      obtain ⟨hone, htwo⟩ := Prod.mk.inj hends₁
      exact h.parallel first.1 (mem_sides hmem') hne entry.1 (mem_sides hmem) hone htwo
    have holds : bundle.map (strand (·.1.label)) =
        (bundle.map (·.2)).map (⟨ends.1, ends.2, first.1.1.label, ·⟩) :=
      map_strand_eq fun entry hentry => ⟨(hends hentry).2, (hlabels hentry).1⟩
    have hnews : bundle.map (strand (·.2.label)) =
        (bundle.map (·.2)).map (⟨ends.1, ends.2, first.1.2.label, ·⟩) :=
      map_strand_eq fun entry hentry => ⟨(hends hentry).2, (hlabels hentry).2⟩
    rw [holds, hnews, bundleOperations_map hne.symm, List.mem_map]
    constructor
    · rintro ⟨id, hid, rfl⟩
      obtain ⟨entry, hentry, rfl⟩ := List.mem_map.1 ((sortBy_perm _ _).mem_iff.1 hid)
      refine ⟨entry, hentry, ?_, rfl⟩
      rwa [(hlabels hentry).1, (hlabels hentry).2]
    · rintro ⟨entry, hentry, -, rfl⟩
      exact ⟨entry.2, (sortBy_perm _ _).mem_iff.2 (List.mem_map_of_mem hentry), rfl⟩

theorem mem_edgeOperations_iff {operation : Edit} : operation ∈ edgeOperations old new m ↔
    ∃ id ∈ old.relabelled new, operation = .changeEdge id id := by
  rw [h.edgeOperations_eq hm hall, List.mem_flatMap]
  constructor
  · rintro ⟨ends, -, hoperation⟩
    obtain ⟨entry, hentry, hne, rfl⟩ := (h.mem_bundleOperations_iff ends).1 hoperation
    exact ⟨entry.2, List.mem_map_of_mem (List.mem_filter.2
      ⟨(List.mem_filter.1 hentry).1, bne_iff_ne.2 hne⟩), rfl⟩
  · rintro ⟨id, hid, rfl⟩
    obtain ⟨entry, hentry, rfl⟩ := List.mem_map.1 hid
    obtain ⟨hmem, hne⟩ := List.mem_filter.1 hentry
    refine ⟨(entry.1.1.one, entry.1.1.two), ?_, (h.mem_bundleOperations_iff _).2
      ⟨entry, List.mem_filter.2 ⟨hmem, beq_self_eq_true _⟩, bne_iff_ne.1 hne, rfl⟩⟩
    rw [List.mem_eraseDups, List.map_append, List.map_map]
    exact List.mem_append_left _ (List.mem_map_of_mem hmem)

/-! ## Steps on vertices -/

omit hm in
theorem mem_vertexOperations_iff (hcorrespondence : m.IsCorrespondence old new)
    (hcenter : old.vertex? center = some v) (hat : r.IsAt v) {operation : Edit} :
    operation ∈ vertexOperations old new m ↔ operation = .changeVertex center center := by
  have hdeleted : (vertexSettlement old new m).deleted = [] :=
    List.eq_nil_iff_forall_not_mem.2 fun source hmem =>
      (mem_deleted_iff.1 hmem).2 source ((hall source source).2 ⟨rfl, (mem_deleted_iff.1 hmem).1⟩)
  have hinserted : (vertexSettlement old new m).inserted = [] := by
    refine List.eq_nil_iff_forall_not_mem.2 fun target hmem => ?_
    obtain ⟨hlt, hnone⟩ := mem_inserted_iff.1 hmem
    exact hnone target ((hall target target).2 ⟨rfl, h.vertices.length_eq ▸ hlt⟩)
  have hchanged (source target : Nat) : (source, target) ∈ (vertexSettlement old new m).changed ↔
      source = center ∧ target = center := by
    rw [mem_changed_iff hcorrespondence]
    constructor
    · rintro ⟨hmem, v', w, hv', hw, hdiffers⟩
      obtain ⟨rfl, -⟩ := (hall source target).1 hmem
      obtain ⟨w', hw', hmoves⟩ := h.exists_new hv'
      cases hw.symm.trans hw'
      have hat' : r.IsAt v' := not_not.1 (mt hmoves.agrees hdiffers)
      obtain rfl : source = center := Graph.eq_of_place hv' hcenter (hat'.place_eq hat)
      exact ⟨rfl, rfl⟩
    · rintro ⟨rfl, rfl⟩
      obtain ⟨w, hw, hmoves⟩ := h.exists_new hcenter
      refine ⟨(hall _ _).2 ⟨rfl, Graph.lt_of_vertex? hcenter⟩, v, w, hcenter, hw,
        fun hagree => ?_⟩
      rw [hmoves.eq_of_isAt hat] at hagree
      exact h.ne (hagree.1.symm.trans hat.name)
  rw [(vertexOperations_perm hcorrespondence).mem_iff, Settlement.steps, hdeleted, hinserted,
    List.map_nil, List.map_nil, List.append_nil, List.append_nil, List.mem_map]
  constructor
  · rintro ⟨⟨source, target⟩, hmem, rfl⟩
    obtain ⟨rfl, rfl⟩ := (hchanged source target).1 hmem
    rfl
  · rintro rfl
    exact ⟨(center, center), (hchanged center center).2 ⟨rfl, rfl⟩, rfl⟩

/-! ## The script -/

omit h hm hall in
theorem nodup_operations (hcorrespondence : m.IsCorrespondence old new) :
    (m.operations old new).Nodup := by
  obtain ⟨edges, hedges, hperm⟩ := hcorrespondence.exists_operations_perm
  have huses := ((accountFor_stepsOf hcorrespondence hedges).of_perm hperm).uses_nodup
  refine (List.nodup_flatMap.1 huses).2.imp fun {a b} hdisjoint heq => ?_
  subst heq
  -- every step uses something
  cases a <;> exact hdisjoint List.mem_cons_self List.mem_cons_self

omit hm in
/-- What is renamed is changed, and each edge with another label is changed into itself. -/
theorem operations_perm (hcorrespondence : m.IsCorrespondence old new)
    (hcenter : old.vertex? center = some v) (hat : r.IsAt v) :
    (m.operations old new).Perm (.changeVertex center center ::
      (old.relabelled new).map fun id => .changeEdge id id) := by
  refine (List.perm_ext_iff_of_nodup (nodup_operations hcorrespondence) ?_).2 fun operation => ?_
  · refine List.nodup_cons.2 ⟨fun hmem => ?_, (Graph.nodup_relabelled old new).map
      fun _ _ heq => (Edit.changeEdge.inj heq).1⟩
    obtain ⟨id, -, hid⟩ := List.mem_map.1 hmem
    cases hid
  · rw [Matching.operations, (ordered_perm ..).mem_iff, List.mem_append, List.mem_cons,
      List.mem_map, h.mem_vertexOperations_iff hall hcorrespondence hcenter hat,
      h.mem_edgeOperations_iff hcorrespondence.isOneToOne hall]
    simp only [eq_comm]

end InPlace

end Graph.BecomesBy

end SchemaDelta
