import SchemaDelta.Edit.Realization
import SchemaDelta.Proofs.Edit.Matchings
import SchemaDelta.Proofs.Lists

/-!
The order in which vertices are searched, the order in which parallel edges are compared, and the
order in which steps are made. All are by what a vertex, an edge or a step is about, and leave nothing
open but which of two equal edges comes first.
-/

namespace SchemaDelta

/-! ## Vertices -/

namespace Unanchored

instance (g : Graph) : Std.TransCmp (compareVertices g) := by
  unfold compareVertices
  infer_instance

/-- Vertices that compare as equal are at one place. -/
theorem eq_of_compareVertices {g : Graph} {a b : Nat} (ha : a < g.vertices.length)
    (hb : b < g.vertices.length) (h : compareVertices g a b = .eq) : a = b := by
  obtain ⟨v, hv⟩ := Graph.exists_vertex?_of_lt ha
  obtain ⟨w, hw⟩ := Graph.exists_vertex?_of_lt hb
  rw [compareVertices, compareLex_eq_eq, compareLex_eq_eq] at h
  obtain ⟨hkind, -, hpath⟩ := h
  simp only [compareOn, hv, hw, Option.getD_some, Std.LawfulEqOrd.compare_eq_iff_eq] at hkind hpath
  exact Graph.eq_of_place hv hw (by rw [Vertex.place, Vertex.place, hkind, hpath])

end Unanchored

/-! ## Steps -/

namespace Realization

instance : Std.TransCmp Strand.compare := by
  unfold Strand.compare
  infer_instance

namespace OrderKey

instance : Std.TransCmp compare := by
  unfold compare
  infer_instance

instance : Std.LawfulEqCmp compare where
  eq_of_compare {k l} h := by
    simp only [compare, compareLex_eq_eq, compareOn, Std.LawfulEqOrd.compare_eq_iff_eq] at h
    obtain ⟨_, _, _, _, _, _, _, _⟩ := k
    obtain ⟨_, _, _, _, _, _, _, _⟩ := l
    simp_all

end OrderKey

/-- The order of steps, by their keys. -/
def compareSteps (old new : Graph) (a b : Edit) : Ordering :=
  OrderKey.compare (OrderKey.ofOperation old new a) (OrderKey.ofOperation old new b)

instance (old new : Graph) : Std.TransCmp (compareSteps old new) where
  eq_swap {_ _} := (Std.OrientedCmp.eq_swap : OrderKey.compare _ _ = _)
  isLE_trans hab hbc := (Std.TransCmp.isLE_trans hab hbc : (OrderKey.compare _ _).isLE = true)

/-- To look the keys up beforehand makes no difference. -/
theorem ordered_eq (old new : Graph) (operations : List Edit) :
    ordered old new operations = sortBy (compareSteps old new) operations := by
  let keyed (operation : Edit) : OrderKey × Edit :=
    (OrderKey.ofOperation old new operation, operation)
  have hkeyed : sortBy (fun a b => OrderKey.compare a.1 b.1) (operations.map keyed) =
      (sortBy (compareSteps old new) operations).map keyed := sortBy_map fun _ _ _ _ => rfl
  change (sortBy _ (operations.map keyed)).map (·.2) = _
  rw [hkeyed, List.map_map]
  exact List.map_id _

theorem ordered_perm (old new : Graph) (operations : List Edit) :
    (ordered old new operations).Perm operations := by
  rw [ordered_eq]
  exact sortBy_perm _ _

end Realization

end SchemaDelta
