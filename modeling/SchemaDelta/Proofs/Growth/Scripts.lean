import SchemaDelta.Proofs.Analysis.Events
import SchemaDelta.Proofs.Edit.Unsearched
import SchemaDelta.Proofs.Growth.Graphs

/-!
The scripts between a graph and a part of it. Everything in the part is anchored, so that nothing is
searched, and the only steps are those that insert or delete the rest, in order.
-/

namespace SchemaDelta

variable {g h : Graph} {id : Nat} {v w : Vertex}

/-! ## A part agrees with the whole -/

namespace Graph.IsPartOf

variable (hpart : g.IsPartOf h)

include hpart

theorem mem_places (hv : g.vertex? id = some v) : v.place ∈ h.places :=
  List.mem_map_of_mem (hpart.vertices v (List.mem_of_getElem? hv))

theorem agreesWith : g.AgreesWith h where
  vertices {source target v w} hv hw hplace := by
    obtain ⟨id, hid⟩ := List.mem_iff_getElem?.1 (hpart.vertices v (List.mem_of_getElem? hv))
    obtain rfl : id = target := Graph.eq_of_place hid hw hplace
    exact Option.some.inj (hid.symm.trans hw)
  labels {one two one' two' v w} hone hone' htwo htwo' := by
    obtain ⟨more, hperm, houtside⟩ := hpart.edges
    have hv : v.place ∈ g.places := List.mem_map_of_mem (List.mem_of_getElem? hone)
    have hw : w.place ∈ g.places := List.mem_map_of_mem (List.mem_of_getElem? htwo)
    -- none of the edges that are more lead between these places
    have hnone : more.filter (fun edge =>
        edge.1 == some v.place && edge.2.2 == some w.place) = [] := by
      refine List.filter_eq_nil_iff.2 fun edge hedge => ?_
      rw [Bool.and_eq_true, beq_iff_eq, beq_iff_eq]
      rintro ⟨hsource, htarget⟩
      rcases houtside edge hedge with ⟨place, hplace, heq⟩ | ⟨-, place, hplace, heq⟩
      · exact hplace (Option.some.inj (hsource.symm.trans heq) ▸ hv)
      · exact hplace (Option.some.inj (htarget.symm.trans heq) ▸ hw)
    rw [Graph.labelsBetween_eq hone htwo, Graph.labelsBetween_eq hone' htwo']
    have hfilter := hperm.filter fun edge => edge.1 == some v.place && edge.2.2 == some w.place
    rw [List.filter_append, hnone, List.append_nil] at hfilter
    exact (hfilter.map _).symm

/-- An edge to an interface that is not in the part begins at a type that is not in it. -/
theorem source_not_mem_places {e : Edge} (he : h.edge? id = some e) (hv : h.vertex? e.one = some v)
    (hw : h.vertex? e.two = some w) (hlabel : Label.isImplements e.label = true)
    (hout : v.place ∉ g.places ∨ w.place ∉ g.places) : v.place ∉ g.places := by
  obtain ⟨more, hperm, houtside⟩ := hpart.edges
  have hplaced : h.placedEdge e = (some v.place, e.label, some w.place) := by
    rw [Graph.placedEdge, hv, hw]
    rfl
  have hmem : h.placedEdge e ∈ g.placedEdges ++ more :=
    hperm.mem_iff.1 (List.mem_map_of_mem (List.mem_of_getElem? he))
  rcases List.mem_append.1 hmem with hmem | hmem
  -- an edge in the part has both ends there
  · obtain ⟨e', he', heq⟩ := List.mem_map.1 hmem
    obtain ⟨id', hid'⟩ := List.mem_iff_getElem?.1 he'
    obtain ⟨one, two, hone, htwo⟩ := Graph.exists_ends hid'
    rw [hplaced, Graph.placedEdge, hone, htwo] at heq
    have hone' : one.place = v.place := Option.some.inj (congrArg (·.1) heq)
    have htwo' : two.place = w.place := Option.some.inj (congrArg (·.2.2) heq)
    rcases hout with hout | hout
    · exact hout
    · exact absurd (htwo' ▸ List.mem_map_of_mem (List.mem_of_getElem? htwo)) hout
  · rw [hplaced] at hmem
    rcases houtside _ hmem with ⟨place, hplace, heq⟩ | ⟨hother, -⟩
    · exact Option.some.inj heq ▸ hplace
    · exact absurd (hlabel.symm.trans hother) (by decide)

/-! ## The scripts -/

theorem between_eq (config : Config) (clock : Clock) :
    (∀ exhausted script, Script.CanBe g h config clock exhausted script →
      script = ⟨(Matching.anchors g h).operations g h, false⟩) ∧
    ∀ exhausted script, Script.CanBe h g config clock exhausted script →
      script = ⟨(Matching.anchors h g).operations h g, false⟩ := by
  have hplaces : ∀ v ∈ g.vertices, v.place ∈ h.places := fun v hv =>
    List.mem_map_of_mem (hpart.vertices v hv)
  exact ⟨fun _ _ hscript => hscript.eq_of_oldSearched_eq_nil (Unanchored.oldSearched_eq_nil
      (.inl hplaces)),
    fun _ _ hscript => hscript.eq_of_oldSearched_eq_nil (Unanchored.oldSearched_eq_nil
      (.inr hplaces))⟩

/-- The steps from the part to the whole insert what is not in the part. -/
theorem exists_of_mem_insertions {operation : Edit}
    (hmem : operation ∈ (Matching.anchors g h).operations g h) :
    (∃ target, operation = .insertVertex target) ∨
    ∃ target e one two, operation = .insertEdge target ∧ h.edge? target = some e ∧
      h.vertex? e.one = some one ∧ h.vertex? e.two = some two ∧
      (one.place ∉ g.places ∨ two.place ∉ g.places) := by
  rcases Realization.exists_of_mem_operations_anchors hpart.agreesWith hmem with
    ⟨_, _, -, hv, hout⟩ | ⟨target, _, heq, -⟩ | ⟨_, _, _, _, -, -, hone, htwo, hout⟩ | hinserted
  · exact absurd (hpart.mem_places hv) hout
  · exact Or.inl ⟨target, heq⟩
  · exact (hout.elim (· (hpart.mem_places hone)) (· (hpart.mem_places htwo))).elim
  · exact Or.inr hinserted

/-- The steps from the whole to the part delete what is not in the part. -/
theorem exists_of_mem_deletions {operation : Edit}
    (hmem : operation ∈ (Matching.anchors h g).operations h g) :
    (∃ source, operation = .deleteVertex source) ∨
    ∃ source e one two, operation = .deleteEdge source ∧ h.edge? source = some e ∧
      h.vertex? e.one = some one ∧ h.vertex? e.two = some two ∧
      (one.place ∉ g.places ∨ two.place ∉ g.places) := by
  rcases Realization.exists_of_mem_operations_anchors hpart.agreesWith.symm hmem with
    ⟨source, _, heq, -⟩ | ⟨_, _, -, hw, hout⟩ | hdeleted | ⟨_, _, _, _, -, -, hone, htwo, hout⟩
  · exact Or.inl ⟨source, heq⟩
  · exact absurd (hpart.mem_places hw) hout
  · exact Or.inr hdeleted
  · exact (hout.elim (· (hpart.mem_places hone)) (· (hpart.mem_places htwo))).elim

end Graph.IsPartOf

/-! ## Order -/

namespace Realization

open Unanchored

/-- Steps of one kind on vertices come in the order of the vertices. -/
theorem isLE_compareVertices {rank a b : Nat}
    (hle : (OrderKey.compare (.ofVertex g rank a) (.ofVertex g rank b)).isLE = true) :
    (compareVertices g a b).isLE = true := by
  simp only [OrderKey.compare, OrderKey.ofVertex, compareVertices, compareLex, compareOn,
    Std.ReflOrd.compare_self, Ordering.eq_then] at hle ⊢
  generalize compare ((g.vertex? a).getD default).kind ((g.vertex? b).getD default).kind = byKind
    at hle ⊢
  generalize compare ((g.vertex? a).getD default).name ((g.vertex? b).getD default).name = byName
    at hle ⊢
  generalize compare ((g.vertex? a).getD default).path ((g.vertex? b).getD default).path = byPath
    at hle ⊢
  cases byKind <;> cases byName <;> cases byPath <;> first | rfl | cases hle

/-- Vertices of steps that come in the order of the vertices stand in that order, none of them
twice. -/
theorem ascending_of_ordered {old new : Graph} {operations : List Edit} {pick? : Edit → Option Nat}
    (hpick : ∀ {x y : Edit} {a b : Nat}, pick? x = some a → pick? y = some b →
      (compareSteps old new x y).isLE = true → (compareVertices g a b).isLE = true)
    (hlt : ∀ a ∈ (ordered old new operations).filterMap pick?, a < g.vertices.length)
    (hnodup : ((ordered old new operations).filterMap pick?).Nodup) :
    ((ordered old new operations).filterMap pick?).Pairwise
      fun a b => compareVertices g a b = .lt := by
  have hsorted : ((ordered old new operations).filterMap pick?).Pairwise
      fun a b => (compareVertices g a b).isLE = true := by
    rw [ordered_eq]
    exact (sortBy_pairwise (compareSteps old new) operations).filterMap pick?
      fun _ _ hle _ ha _ hb => hpick ha hb hle
  refine (hsorted.and hnodup).imp_of_mem fun ha hb hab => ?_
  have hne : compareVertices g _ _ ≠ .eq := fun heq =>
    hab.2 (eq_of_compareVertices (hlt _ ha) (hlt _ hb) heq)
  have hle := hab.1
  revert hne hle
  cases compareVertices g _ _ <;> simp

end Realization

end SchemaDelta
