import Mathlib.Data.Finset.Card
import SchemaDelta.Proofs.Graph.Ancestors
import SchemaDelta.Proofs.Graph.Builder
import SchemaDelta.Proofs.Graph.Indices

/-!
Chains of owners in the graph of any draft. An element has one owner at most, but nothing keeps it
from owning itself, at once or through others: then its chain goes round for ever. A chain that
comes by no element twice ends before it is as long as the graph, and in the graph of a type system
all of them do.
-/

namespace SchemaDelta

namespace Graph

variable {g : Graph} {id top around owner m n : Nat}

/-! ## Climbing -/

/-- Where so many steps from an element to its owner lead. -/
def climb (g : Graph) : Nat → Nat → Option Nat
  | 0, id => some id
  | n + 1, id => (g.owner? id).bind (g.climb n)

/-- Whether the chain of owners of an element comes to one that has none, in fewer steps than there
are elements. -/
def ReachesTop (g : Graph) (id : Nat) : Prop :=
  ∃ n < g.vertices.length, ∃ top, g.climb n id = some top ∧ g.owner? top = none

/-- Whether the chain of owners of an element comes by one that is above itself. -/
def RunsInCircle (g : Graph) (id : Nat) : Prop :=
  ∃ n around m, g.climb n id = some around ∧ g.climb (m + 1) around = some around

theorem climb_succ (howner : g.owner? id = some owner) (n : Nat) :
    g.climb (n + 1) id = g.climb n owner := by
  rw [climb, howner]
  rfl

theorem climb_succ_eq_none (howner : g.owner? id = none) (n : Nat) : g.climb (n + 1) id = none := by
  rw [climb, howner]
  rfl

theorem climb_add (m n : Nat) (id : Nat) :
    g.climb (m + n) id = (g.climb m id).bind (g.climb n) := by
  induction m generalizing id with
  | zero => rw [Nat.zero_add]; rfl
  | succ m ih =>
    rw [Nat.succ_add]
    cases howner : g.owner? id with
    | none => rw [climb_succ_eq_none howner, climb_succ_eq_none howner]; rfl
    | some owner => rw [climb_succ howner, climb_succ howner, ih]

/-- Who climbs further has climbed less far before. -/
theorem climb_isSome_of_le (h : (g.climb n id).isSome = true) (hle : m ≤ n) :
    (g.climb m id).isSome = true := by
  obtain ⟨k, rfl⟩ := Nat.exists_eq_add_of_le hle
  rw [climb_add] at h
  exact Option.isSome_of_isSome_bind h

theorem climb_lt (hid : id < g.vertices.length) (h : g.climb n id = some top) :
    top < g.vertices.length := by
  induction n generalizing id with
  | zero =>
    cases h
    exact hid
  | succ n ih =>
    cases howner : g.owner? id with
    | none => cases (climb_succ_eq_none howner n).symm.trans h
    | some owner =>
      obtain ⟨e, hmem, -, -, rfl⟩ := owner?_eq_some_iff.1 howner
      exact ih (g.ends_known e hmem).1 ((climb_succ howner n).symm.trans h)

/-! ## Tops and circles -/

/-- A climb that comes to nothing has passed an element without an owner. -/
theorem exists_top_of_climb_eq_none (h : g.climb n id = none) :
    ∃ m < n, ∃ top, g.climb m id = some top ∧ g.owner? top = none := by
  induction n generalizing id with
  | zero => cases h
  | succ n ih =>
    cases howner : g.owner? id with
    | none => exact ⟨0, Nat.succ_pos n, id, rfl, howner⟩
    | some owner =>
      obtain ⟨m, hlt, top, hclimb, htop⟩ := ih ((climb_succ howner n).symm.trans h)
      exact ⟨m + 1, Nat.succ_lt_succ hlt, top, (climb_succ howner m).trans hclimb, htop⟩

theorem climb_eq_none_of_top (hclimb : g.climb m id = some top) (htop : g.owner? top = none)
    (hlt : m < n) : g.climb n id = none := by
  obtain ⟨k, rfl⟩ := Nat.exists_eq_add_of_lt hlt
  rw [Nat.add_assoc, climb_add, hclimb]
  exact climb_succ_eq_none htop k

theorem climb_around (haround : g.climb (m + 1) around = some around) (rounds : Nat) :
    g.climb (rounds * (m + 1)) around = some around := by
  induction rounds with
  | zero => rw [Nat.zero_mul]; rfl
  | succ rounds ih => rw [Nat.succ_mul, climb_add, ih]; exact haround

/-- In a circle one can climb as far as one likes. -/
theorem RunsInCircle.climb_isSome (h : g.RunsInCircle id) (n : Nat) :
    (g.climb n id).isSome = true := by
  obtain ⟨start, around, m, hstart, haround⟩ := h
  have hfar : g.climb (start + n * (m + 1)) id = some around := by
    rw [climb_add, hstart]
    exact climb_around haround n
  refine climb_isSome_of_le (by rw [hfar]; rfl) ?_
  calc n ≤ n * (m + 1) := Nat.le_mul_of_pos_right n (Nat.succ_pos m)
    _ ≤ start + n * (m + 1) := Nat.le_add_left ..

/-- Who climbs as many steps as there are elements has come by one of them twice. -/
theorem runsInCircle_of_climb_isSome (hid : id < g.vertices.length)
    (h : (g.climb g.vertices.length id).isSome = true) : g.RunsInCircle id := by
  have hsome (k : Nat) (hk : k ∈ Finset.range (g.vertices.length + 1)) :
      g.climb k id = some ((g.climb k id).getD 0) := by
    have hk' := climb_isSome_of_le h (Nat.le_of_lt_succ (Finset.mem_range.1 hk))
    obtain ⟨a, ha⟩ := Option.isSome_iff_exists.1 hk'
    rw [ha]
    rfl
  have hcard : (Finset.range g.vertices.length).card <
      (Finset.range (g.vertices.length + 1)).card := by simp
  obtain ⟨i, hi, j, hj, hne, heq⟩ := Finset.exists_ne_map_eq_of_card_lt_of_maps_to hcard
    (fun k hk => Finset.mem_coe.2 (Finset.mem_range.2 (climb_lt hid (hsome k hk))))
  -- the one of the two numbers that is less comes first
  wlog hlt : i < j generalizing i j
  · exact this j hj i hi hne.symm heq.symm (by omega)
  obtain ⟨m, rfl⟩ := Nat.exists_eq_add_of_lt hlt
  refine ⟨i, _, m, hsome i hi, ?_⟩
  have hfirst := hsome _ hj
  rwa [← heq, Nat.add_assoc, climb_add, hsome i hi] at hfirst

theorem reachesTop_iff (hid : id < g.vertices.length) :
    g.ReachesTop id ↔ ¬ g.RunsInCircle id := by
  constructor
  · rintro ⟨n, -, top, hclimb, htop⟩ hcircle
    have hsome := hcircle.climb_isSome (n + 1)
    rw [climb_eq_none_of_top hclimb htop (Nat.lt_succ_self n)] at hsome
    cases hsome
  · intro hcircle
    refine exists_top_of_climb_eq_none (Option.not_isSome_iff_eq_none.1 fun hsome => ?_)
    exact hcircle (runsInCircle_of_climb_isSome hid hsome)

/-! ## Ancestors -/

theorem getElem?_ancestors (n k : Nat) :
    (g.ancestors n id)[k]? = if k < n then g.climb (k + 1) id else none := by
  induction n generalizing id k with
  | zero => simp [ancestors]
  | succ n ih =>
    cases howner : g.owner? id with
    | none => simp [ancestors_eq_nil howner, climb_succ_eq_none howner]
    | some owner =>
      rw [ancestors_succ howner, climb_succ howner]
      cases k with
      | zero => simp [climb]
      | succ k => simp [ih]

theorem RunsInCircle.length_ancestors (h : g.RunsInCircle id) (n : Nat) :
    (g.ancestors n id).length = n := by
  have hle : (g.ancestors n id).length ≤ n := by
    rw [← List.getElem?_eq_none_iff, getElem?_ancestors, if_neg (Nat.lt_irrefl n)]
  refine Nat.le_antisymm hle (Nat.le_of_not_lt fun hlt => ?_)
  -- the chain would end where one can climb on
  have hnone := List.getElem?_eq_none (Nat.le_refl (g.ancestors n id).length)
  rw [getElem?_ancestors, if_pos hlt] at hnone
  have hsome := h.climb_isSome ((g.ancestors n id).length + 1)
  rw [hnone] at hsome
  cases hsome

theorem ReachesTop.length_allAncestors_lt (h : g.ReachesTop id) :
    (g.allAncestors id).length < g.vertices.length := by
  obtain ⟨n, hlt, top, hclimb, htop⟩ := h
  refine Nat.lt_of_le_of_lt (List.getElem?_eq_none_iff.1 ?_) hlt
  rw [allAncestors, getElem?_ancestors, if_pos hlt,
    climb_eq_none_of_top hclimb htop (Nat.lt_succ_self n)]

/-- What is around an element that has a top above it is all there is, however far one looks. -/
theorem ReachesTop.ancestors_eq (h : g.ReachesTop id) (n : Nat) :
    g.ancestors n id = (g.allAncestors id).take n := by
  obtain ⟨m, hlt, top, hclimb, htop⟩ := h
  refine List.ext_getElem? fun k => ?_
  rw [List.getElem?_take, allAncestors, getElem?_ancestors, getElem?_ancestors]
  by_cases hk : k < g.vertices.length
  · rw [if_pos hk]
  · rw [if_neg hk, climb_eq_none_of_top hclimb htop (by omega)]

end Graph

/-- In the graph of a type system every element has a top above it. -/
theorem TypeSystem.reachesTop {ts : TypeSystem} {g : Graph} (h : Graph.ofTypeSystem ts = .ok g)
    {id : Nat} (hid : id < g.vertices.length) : g.ReachesTop id := by
  rw [Graph.reachesTop_iff hid]
  intro hcircle
  obtain ⟨v, hv⟩ := Graph.exists_vertex?_of_lt hid
  exact Nat.ne_of_lt (length_ancestors_lt h hv _) (hcircle.length_ancestors _)

/-- Whatever graph is put together, the chain of owners of an element ends before it is as long as
the graph, or else it runs in a circle and goes on for ever. In the graph of a type system there are
no circles. -/
theorem chains_of_owners_end_or_run_in_circles :
    (∀ calls g, (Draft.assembled calls).toGraph = .ok g → ∀ id < g.vertices.length,
      (g.ReachesTop id ↔ ¬ g.RunsInCircle id) ∧
      (∀ n k, (g.ancestors n id)[k]? = if k < n then g.climb (k + 1) id else none) ∧
      (g.ReachesTop id → (g.allAncestors id).length < g.vertices.length ∧
        ∀ n, g.ancestors n id = (g.allAncestors id).take n) ∧
      (g.RunsInCircle id → ∀ n, (g.ancestors n id).length = n)) ∧
    ∀ ts g, Graph.build ts = .ok g → ∀ id < g.vertices.length, g.ReachesTop id := by
  refine ⟨fun _ g _ id hid => ⟨Graph.reachesTop_iff hid, Graph.getElem?_ancestors,
    fun htop => ⟨htop.length_allAncestors_lt, htop.ancestors_eq⟩,
    fun hcircle => hcircle.length_ancestors⟩, fun ts g hg id hid => ?_⟩
  rw [Graph.build_eq] at hg
  exact TypeSystem.reachesTop hg hid

theorem chains_of_owners_end_or_run_in_circles_beside_each_other :
    let calls : List Draft.Call := [.vertex ⟨.field, "a", "a", .empty⟩,
      .vertex ⟨.argument, "b", "a.b", .empty⟩, .vertex ⟨.appliedDirective, "d", "a.b@d", .empty⟩,
      .vertex ⟨.object, "Q", "Q", .empty⟩, .vertex ⟨.field, "f", "Q.f", .empty⟩,
      .edge ⟨0, 1, Label.argument⟩, .edge ⟨1, 2, Label.appliedDirective⟩,
      .edge ⟨3, 4, Label.field⟩, .edge ⟨1, 0, Label.field⟩]
    let ts : TypeSystem := ⟨⟨[⟨"Q", none, [⟨"d", []⟩], .object [] []⟩], by decide⟩,
      ⟨[⟨"d", [], [], true, none⟩], by decide⟩⟩
    (∃ g, (Draft.assembled calls).toGraph = .ok g ∧ (∀ n, (g.ancestors n 2).length = n) ∧
      g.ReachesTop 4 ∧ g.ancestors 7 4 = (g.allAncestors 4).take 7) ∧
    ∃ g, Graph.build ts = .ok g ∧ g.ReachesTop 2 := by
  intro calls ts
  obtain ⟨hends, hbuilt⟩ := chains_of_owners_end_or_run_in_circles
  obtain ⟨g, hg⟩ := exists_eq_ok
    (show (Draft.assembled calls).toGraph.toOption.isSome = true by decide +kernel)
  obtain ⟨g', hg'⟩ := exists_eq_ok (show (Graph.build ts).toOption.isSome = true by decide +kernel)
  have hdraft := Draft.toGraph_eq_ok_iff.1 hg
  have hvertices : g.vertices.length = 5 := by
    rw [hdraft]
    rfl
  have howner (e : Edge) (he : e ∈ (Draft.assembled calls).edges) (howns : e.isOwnership = true) :
      g.owner? e.two = some e.one :=
    Graph.owner?_eq_some_iff.2 ⟨e, hdraft ▸ he, howns, rfl, rfl⟩
  have hcircle : g.RunsInCircle 2 := by
    refine ⟨1, 1, 1, ?_, ?_⟩
    · exact Graph.climb_succ (howner ⟨1, 2, Label.appliedDirective⟩ (by decide) (by decide)) 0
    · rw [Graph.climb_succ (howner ⟨0, 1, Label.argument⟩ (by decide) (by decide)) 1]
      exact Graph.climb_succ (howner ⟨1, 0, Label.field⟩ (by decide) (by decide)) 0
  have htop : g.ReachesTop 4 := by
    refine ⟨1, by omega, 3, ?_, ?_⟩
    · exact Graph.climb_succ (howner ⟨3, 4, Label.field⟩ (by decide) (by decide)) 0
    · rw [Graph.owner?, hdraft]
      rfl
  have hlength : (Graph.build ts).toOption.map (fun g => g.vertices.length) = some 3 := by
    decide +kernel
  rw [hg'] at hlength
  have hthree : g'.vertices.length = 3 := Option.some.inj hlength
  exact ⟨⟨g, hg, (hends calls g hg 2 (by omega)).2.2.2 hcircle, htop,
    ((hends calls g hg 4 (by omega)).2.2.1 htop).2 7⟩, g', hg', hbuilt ts g' hg' 2 (by omega)⟩

/-- Nothing keeps an element from being its own owner, and then there is no top above it. -/
theorem a_field_may_own_itself :
    let calls : List Draft.Call :=
      [.vertex ⟨.field, "a", "a", .empty⟩, .edge ⟨0, 0, Label.field⟩]
    ∃ g, (Draft.assembled calls).toGraph = .ok g ∧ 0 < g.vertices.length ∧ ¬ g.ReachesTop 0 ∧
      ∀ n, (g.ancestors n 0).length = n := by
  intro calls
  obtain ⟨g, hg⟩ := Draft.exists_toGraph_iff.2
    (show (Draft.assembled calls).places.Nodup ∧ (Draft.assembled calls).owned.Nodup by decide)
  have hdraft := Draft.toGraph_eq_ok_iff.1 hg
  have hlt : 0 < g.vertices.length := by
    rw [hdraft]
    decide
  have howner : g.owner? 0 = some 0 :=
    Graph.owner?_eq_some_iff.2 ⟨⟨0, 0, Label.field⟩, by rw [hdraft]; decide, by decide, rfl, rfl⟩
  have hcircle : g.RunsInCircle 0 := ⟨0, 0, 0, rfl, Graph.climb_succ howner 0⟩
  exact ⟨g, hg, hlt, fun htop => (Graph.reachesTop_iff hlt).1 htop hcircle,
    hcircle.length_ancestors⟩

end SchemaDelta
