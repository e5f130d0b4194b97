import SchemaDelta.Proofs.Assignment.Ties
import SchemaDelta.Proofs.Edit.Length

/-!
Searched vertices as elements of the assignment problem: which roles their neighbours have, and
which edges between vertices their ties stand for.
-/

namespace SchemaDelta.Unanchored

open Assignment

variable {old new g : Graph}

/-! ## Roles -/

section Roles

variable {anchor? : Nat → Option Nat} {searched : List Nat} {id : Nat}

theorem role_eq_anchored_iff {source : Nat} :
    role anchor? searched id = .anchored source ↔ anchor? id = some source := by
  unfold role
  cases anchor? id with
  | none => cases searched.idxOf? id <;> simp
  | some _ => simp

theorem role_eq_searched_iff (hnodup : searched.Nodup) (hfree : ∀ id ∈ searched, anchor? id = none)
    {position : Nat} :
    role anchor? searched id = .searched position ↔ searched[position]? = some id := by
  unfold role
  constructor
  · intro h
    cases hanchor : anchor? id with
    | some _ => simp [hanchor] at h
    | none =>
      cases hindex : searched.idxOf? id with
      | none => simp [hanchor, hindex] at h
      | some index =>
        simp only [hanchor, hindex, Role.searched.injEq] at h
        obtain ⟨hlt, hget, -⟩ := List.idxOf?_eq_some_iff.1 hindex
        rw [← h, List.getElem?_eq_getElem hlt, hget]
  · intro h
    rw [hfree id (List.mem_of_getElem? h)]
    obtain ⟨hlt, hget⟩ := List.getElem?_eq_some_iff.1 h
    have hindex : searched.idxOf? id = some position := by
      refine List.idxOf?_eq_some_iff.2 ⟨hlt, hget, fun before hbefore heq => ?_⟩
      have := hnodup.getElem_inj_iff.1 (heq.trans hget.symm)
      omega
    simp [hindex]

theorem role_eq_fixed_iff :
    role anchor? searched id = .fixed ↔ anchor? id = none ∧ id ∉ searched := by
  unfold role
  cases anchor? id with
  | some _ => simp
  | none =>
    cases hindex : searched.idxOf? id with
    | none => simpa using hindex
    | some index =>
      have hmem : id ∈ searched := by
        obtain ⟨hlt, hget, -⟩ := List.idxOf?_eq_some_iff.1 hindex
        rw [← hget]
        exact List.getElem_mem hlt
      simp [hmem]

/-- Different vertices have different roles, unless they are fixed. -/
theorem eq_of_role_eq (hnodup : searched.Nodup) (hfree : ∀ id ∈ searched, anchor? id = none)
    (hanchor : ∀ {id id' source : Nat}, anchor? id = some source → anchor? id' = some source →
      id = id')
    {id' : Nat} (h : role anchor? searched id = role anchor? searched id')
    (hfixed : role anchor? searched id' ≠ .fixed) : id = id' := by
  cases hrole : role anchor? searched id' with
  | fixed => exact absurd hrole hfixed
  | anchored source =>
    rw [hrole] at h
    exact hanchor (role_eq_anchored_iff.1 h) (role_eq_anchored_iff.1 hrole)
  | searched position =>
    rw [hrole] at h
    exact Option.some.inj (((role_eq_searched_iff hnodup hfree).1 h).symm.trans
      ((role_eq_searched_iff hnodup hfree).1 hrole))

end Roles

/-! ## Ties -/

section Ties

variable {role : Nat → Role} {id : Nat} {q : Role → Bool}

/-- The edges that lead from a vertex, as ties. -/
theorem labels_outgoing (g : Graph) (role : Nat → Role) (id : Nat) (hfixed : q .fixed = false) :
    ((ties g role id).filter fun tie => tie.outgoing == true && q tie.other).map Tie.label =
      (g.edges.filter fun e => e.one == id && q (role e.two)).map Edge.label := by
  unfold ties
  rw [List.filter_filter, List.filter_append, List.filter_map, List.filter_map, List.filter_filter,
    List.filter_filter, List.map_append, List.map_map, List.map_map]
  -- an edge from the vertex to itself is an outgoing tie only
  have hincoming : (g.edges.filter fun e =>
      ((fun tie : Tie => tie.outgoing == true && q tie.other && tie.other != .fixed) ∘
        fun e : Edge => ⟨false, role e.one, e.label⟩) e && (e.two == id && e.one != id)) = [] := by
    simp
  rw [hincoming, List.map_nil, List.append_nil]
  congr 1
  apply List.filter_congr
  intro e _
  by_cases hrole : role e.two = .fixed
  · simp [hrole, hfixed]
  · have hne : (role e.two != .fixed) = true := by simpa using hrole
    simp [hne, Bool.and_comm]

/-- The edges that lead to a vertex from others, as ties. -/
theorem labels_incoming (g : Graph) (role : Nat → Role) (id : Nat) (hfixed : q .fixed = false) :
    ((ties g role id).filter fun tie => tie.outgoing == false && q tie.other).map Tie.label =
      (g.edges.filter fun e => e.two == id && e.one != id && q (role e.one)).map Edge.label := by
  unfold ties
  rw [List.filter_filter, List.filter_append, List.filter_map, List.filter_map, List.filter_filter,
    List.filter_filter, List.map_append, List.map_map, List.map_map]
  have houtgoing : (g.edges.filter fun e =>
      ((fun tie : Tie => tie.outgoing == false && q tie.other && tie.other != .fixed) ∘
        fun e : Edge => ⟨true, role e.two, e.label⟩) e && (e.one == id)) = [] := by
    simp
  rw [houtgoing, List.map_nil, List.nil_append]
  congr 1
  apply List.filter_congr
  intro e _
  by_cases hrole : role e.one = .fixed
  · simp [hrole, hfixed]
  · have hne : (role e.one != .fixed) = true := by simpa using hrole
    simp [hne, Bool.and_comm, Bool.and_left_comm]

theorem countP_outgoing (g : Graph) (id : Nat) (s : Finset Nat) :
    g.edges.countP (fun e => e.one == id && decide (e.two ∈ s)) =
      ∑ other ∈ s, (g.labelsBetween id other).length := by
  have hcount := countP_mem_eq_sum Edge.two s (g.edges.filter fun e => e.one == id)
  simp only [List.countP_filter] at hcount
  simp only [Bool.and_comm] at hcount ⊢
  rw [hcount]
  apply Finset.sum_congr rfl
  intro other _
  rw [g.length_labelsBetween (id, other)]
  apply List.countP_congr
  intro e _
  simp [Prod.ext_iff]

theorem countP_incoming (g : Graph) (id : Nat) (s : Finset Nat) :
    g.edges.countP (fun e => e.two == id && e.one != id && decide (e.one ∈ s)) =
      ∑ other ∈ s, if other = id then 0 else (g.labelsBetween other id).length := by
  have hcount := countP_mem_eq_sum Edge.one s (g.edges.filter fun e => e.two == id && e.one != id)
  simp only [List.countP_filter] at hcount
  simp only [Bool.and_comm _ (decide _)] at hcount ⊢
  rw [hcount]
  apply Finset.sum_congr rfl
  intro other _
  split
  · next heq =>
    apply List.countP_eq_zero.2
    intro e _
    simp only [heq, Bool.and_eq_true, decide_eq_true_eq, bne_iff_ne]
    exact fun h => h.2.2 h.1
  · next hne =>
    rw [g.length_labelsBetween (other, id)]
    apply List.countP_congr
    intro e _
    simp only [Prod.ext_iff, Bool.and_eq_true, beq_iff_eq, bne_iff_ne, decide_eq_true_eq]
    grind

/-- The ties of a vertex that are counted, by condition on the other ends of those that lead from it
and of those that lead to it, vertex by vertex. -/
theorem countP_ties (g : Graph) (role : Nat → Role) (id : Nat) (q q' : Role → Bool)
    (hfixed : q .fixed = false) (hfixed' : q' .fixed = false) :
    (ties g role id).countP (fun tie => if tie.outgoing then q tie.other else q' tie.other) =
      ∑ other ∈ (Finset.range g.vertices.length).filter (fun other => q (role other) = true),
          (g.labelsBetween id other).length +
        ∑ other ∈ (Finset.range g.vertices.length).filter (fun other => q' (role other) = true),
          if other = id then 0 else (g.labelsBetween other id).length := by
  have hsplit : (ties g role id).countP
        (fun tie => if tie.outgoing then q tie.other else q' tie.other) =
      ((ties g role id).filter fun tie => tie.outgoing == true && q tie.other).length +
        ((ties g role id).filter fun tie => tie.outgoing == false && q' tie.other).length := by
    induction ties g role id with
    | nil => rfl
    | cons tie rest ih =>
      cases hout : tie.outgoing <;> cases hq : q tie.other <;> cases hq' : q' tie.other <;>
        simp only [List.countP_cons, List.filter_cons, hout, hq, hq', ih] <;> simp <;> omega
  have houtgoing := congrArg List.length (labels_outgoing g role id hfixed)
  have hincoming := congrArg List.length (labels_incoming g role id hfixed')
  rw [List.length_map, List.length_map] at houtgoing hincoming
  rw [hsplit, houtgoing, hincoming, ← countP_outgoing, ← countP_incoming,
    ← List.countP_eq_length_filter, ← List.countP_eq_length_filter]
  congr 1
  · apply List.countP_congr
    intro e he
    simp [(g.ends_known e he).2]
  · apply List.countP_congr
    intro e he
    simp [(g.ends_known e he).1]

theorem filter_range_eq {n : Nat} {q : Nat → Bool} {ids : Finset Nat}
    (hids : ids ⊆ Finset.range n) (hq : ∀ id, q id = true ↔ id ∈ ids) :
    (Finset.range n).filter (fun id => q id = true) = ids := by
  ext id
  rw [Finset.mem_filter, hq]
  exact ⟨fun h => h.2, fun h => ⟨hids h, h⟩⟩

/-- The labels of the edges from a vertex to one other, or of those from the other to it. -/
def labelsAcross (g : Graph) (id other : Nat) : Bool → List String
  | true => g.labelsBetween id other
  | false => if other = id then [] else g.labelsBetween other id

/-- Ties whose other end is one vertex stand for the edges to it and from it. -/
theorem labels_across (hfixed : q .fixed = false) {other : Nat}
    (hq : ∀ id, q (role id) = true ↔ id = other) (outgoing : Bool) :
    ((ties g role id).filter fun tie => tie.outgoing == outgoing && q tie.other).map Tie.label =
      labelsAcross g id other outgoing := by
  cases outgoing with
  | true =>
    rw [labels_outgoing g role id hfixed]
    unfold labelsAcross Graph.labelsBetween
    congr 1
    apply List.filter_congr
    intro e _
    rw [Bool.eq_iff_iff, Bool.and_eq_true, Bool.and_eq_true, hq, beq_iff_eq, beq_iff_eq]
  | false =>
    rw [labels_incoming g role id hfixed]
    unfold labelsAcross
    by_cases heq : other = id
    · rw [if_pos heq, List.map_eq_nil_iff, List.filter_eq_nil_iff]
      intro e _
      simp only [Bool.and_eq_true, hq, bne_iff_ne]
      grind
    · rw [if_neg heq]
      unfold Graph.labelsBetween
      congr 1
      apply List.filter_congr
      intro e _
      rw [Bool.eq_iff_iff]
      simp only [Bool.and_eq_true, hq, beq_iff_eq, bne_iff_ne]
      grind

theorem labels_of_none (hfixed : q .fixed = false) (hq : ∀ id, q (role id) = false)
    (outgoing : Bool) :
    ((ties g role id).filter fun tie => tie.outgoing == outgoing && q tie.other).map Tie.label =
      [] := by
  cases outgoing with
  | true =>
    rw [labels_outgoing g role id hfixed]
    simp [hq]
  | false =>
    rw [labels_incoming g role id hfixed]
    simp [hq]

theorem labelsIn_eq (outgoing : Bool) (other : Role) (ties : List Tie) :
    labelsIn (outgoing, other) ties =
      (ties.filter fun tie => tie.outgoing == outgoing && tie.other == other).map Tie.label := by
  rfl

end Ties

end SchemaDelta.Unanchored
