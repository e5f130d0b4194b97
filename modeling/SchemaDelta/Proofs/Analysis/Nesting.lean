import SchemaDelta.Proofs.Analysis.Events
import SchemaDelta.Proofs.Graph.Ancestors

/-!
Elements inside others that come or go too. They are told of only where that is asked for; otherwise
the outermost element is told in their place, unless that is a built-in scalar.
-/

namespace SchemaDelta

theorem rel_filter_some {α β : Type} {R : α → β → Prop} {p : α → Bool} {a : α} {b : β}
    (ha : p a = true) (h : R a b) : Option.Rel R ((some a).filter p) (some b) := by
  rw [Option.filter_some_pos ha]
  exact .some h

theorem rel_filter_none {α β : Type} {R : α → β → Prop} {p : α → Bool} {a : α}
    (ha : p a = false) : Option.Rel R ((some a).filter p) none := by
  rw [Option.filter_some_neg (Bool.not_eq_true _ ▸ ha)]
  exact .none

/-! ## Events of vertices -/

/-- The vertices of a side that steps bring or take away, in the order of the steps. -/
def Edit.touched (operations : List Edit) (side : Side) : List Nat :=
  operations.filterMap (Edit.at? side)

theorem Edit.mem_touched_iff {operations : List Edit} {side : Side} {id : Nat} :
    id ∈ touched operations side ↔ comesOrGoes operations side id = true :=
  mem_filterMap_at?_iff

/-- What an event tells to come or go on a side. -/
def Change.at? : Side → Change → Option Subject
  | .old => removed?
  | .new => added?

namespace Comparison

variable {c : Comparison} {m kept : Matching} {operations : List Edit} {findings : List Finding}
  {operation : Edit} {finding : Finding} {id : Nat} {v : Vertex}

/-- Of the vertices that come or go, those that are told of, in the order of the steps. -/
def told (c : Comparison) (operations : List Edit) (side : Side) : List Nat :=
  (Edit.touched operations side).filter (c.isTold operations side)

theorem mem_told_iff (side : Side) (hv : (c.graph side).vertex? id = some v) :
    id ∈ c.told operations side ↔ comesOrGoes operations side id = true ∧ v.isBuiltIn = false ∧
      c.isCovered operations side id = false := by
  rw [told, List.mem_filter, Edit.mem_touched_iff, isTold_eq side hv, Bool.and_eq_true,
    Bool.not_eq_true', Bool.not_eq_true']

theorem isTold_eq_true (side : Side) (hv : (c.graph side).vertex? id = some v)
    (hbuiltIn : v.isBuiltIn = false) (hcovered : c.isCovered operations side id = false) :
    c.isTold operations side id = true := by
  rw [isTold_eq side hv, hbuiltIn, hcovered]
  rfl

theorem isTold_eq_false (side : Side) (hv : (c.graph side).vertex? id = some v)
    (hquiet : v.isBuiltIn = true ∨ c.isCovered operations side id = true) :
    c.isTold operations side id = false := by
  rw [isTold_eq side hv]
  rcases hquiet with hquiet | hquiet <;> simp [hquiet]

/-- A step is told as an event of a vertex exactly if it brings or takes away one that is told
of. -/
theorem Tells.rel_told (h : c.Tells operations operation finding) (side : Side) :
    Option.Rel (c.graph side).IsSubject
      ((Edit.at? side operation).filter (c.isTold operations side))
      (finding.change?.bind (Change.at? side)) := by
  cases h with
  | inserted hv hbuiltIn hcovered hsubject =>
    cases side with
    | old => exact .none
    | new => exact rel_filter_some (isTold_eq_true .new hv hbuiltIn hcovered) hsubject
  | coveredInsertion hv hquiet =>
    cases side with
    | old => exact .none
    | new => exact rel_filter_none (isTold_eq_false .new hv hquiet)
  | deleted hv hbuiltIn hcovered hsubject =>
    cases side with
    | old => exact rel_filter_some (isTold_eq_true .old hv hbuiltIn hcovered) hsubject
    | new => exact .none
  | coveredDeletion hv hquiet =>
    cases side with
    | old => exact rel_filter_none (isTold_eq_false .old hv hquiet)
    | new => exact .none
  | revised =>
    rw [change?_revisionFinding_bind]
    · cases side <;> exact .none
    · intro kind name details
      cases side <;> rfl
    · intro kind name owner details
      cases side <;> rfl
  | _ => cases side <;> exact .none

/-- The events of vertices tell of those that are told of, in their order. -/
theorem IsTelling.forall₂_told (h : c.IsTelling m kept operations findings) (side : Side) :
    List.Forall₂ (c.graph side).IsSubject (c.told operations side)
      ((Analysis.ofFindings findings).changes.filterMap (Change.at? side)) := by
  rw [told, Edit.touched, List.filter_filterMap, filterMap_changes findings]
  · exact List.rel_filterMap (R := c.Tells operations) (fun _ _ htells => htells.rel_told side)
      h.tells
  · intro entry
    cases side <;> rfl
  · intro entry
    cases side <;> rfl

end Comparison

/-! ## Elements inside others -/

namespace Graph

/-- Whether a vertex is told of by itself, with nothing around it among those that come or go. -/
def IsToldAlone (g : Graph) (touched told : List Nat) (id : Nat) : Prop :=
  id ∈ told ∧ ∀ ancestor ∈ g.allAncestors id, ancestor ∉ touched

/-- Whether a vertex is not told of by itself, but something around it that comes or goes is. -/
def IsToldWithin (g : Graph) (touched told : List Nat) (id : Nat) : Prop :=
  id ∉ told ∧ ∃ ancestor ∈ g.allAncestors id, ancestor ∈ touched ∧ ancestor ∈ told

/-- Whether a vertex is on a built-in scalar that comes or goes. -/
def IsOnBuiltIn (g : Graph) (touched : List Nat) (id : Nat) : Prop :=
  ∃ owner w, g.owner? id = some owner ∧ owner ∈ touched ∧ g.vertex? owner = some w ∧
    w.isBuiltIn = true

/-- Whether subjects tell of different vertices among those that come or go, in their order, so that
each of these is told of either alone or within another, built-in scalars and what is on them apart.
-/
def AreTold (g : Graph) (touched : List Nat) (subjects : List Subject) : Prop :=
  ∃ told : List Nat, told.Nodup ∧ told.Sublist touched ∧ List.Forall₂ g.IsSubject told subjects ∧
    ∀ id ∈ touched, ∀ v, g.vertex? id = some v → v.isBuiltIn = false →
      (Xor (g.IsToldAlone touched told id) (g.IsToldWithin touched told id) ↔
        ¬ g.IsOnBuiltIn touched id)

end Graph

namespace TypeSystem

variable {ts : TypeSystem} {g : Graph} (h : Graph.ofTypeSystem ts = .ok g) {id owner : Nat}
  {w : Vertex}

include h

/-- Around what is on a built-in scalar there is only the scalar. -/
theorem allAncestors_of_isBuiltIn (howner : g.owner? id = some owner)
    (hw : g.vertex? owner = some w) (hbuiltIn : w.isBuiltIn = true) :
    g.allAncestors id = [owner] := by
  have hkind := ((has_of_vertex? h hw).isBuiltIn_iff h).1 hbuiltIn
  have hdefinition : w.kind.isDefinition = true := by
    rw [hkind.1]
    rfl
  rw [allAncestors_eq_cons h howner, Graph.allAncestors_eq_nil (owner?_eq_none h hw hdefinition)]

end TypeSystem

namespace Comparison

variable {c : Comparison} {m kept : Matching} {operations : List Edit} {findings : List Finding}
  {id : Nat} {v : Vertex} (h : c.IsTelling m kept operations findings) (side : Side)
  (hnested : c.reportsNested side = false)

include hnested

/-- Where what is inside is not asked for, a vertex is told of unless something around it comes or
goes too. -/
theorem mem_told_iff_of_nested (hv : (c.graph side).vertex? id = some v) :
    id ∈ c.told operations side ↔ id ∈ Edit.touched operations side ∧ v.isBuiltIn = false ∧
      ∀ ancestor ∈ (c.graph side).allAncestors id, ancestor ∉ Edit.touched operations side := by
  rw [mem_told_iff side hv, Edit.mem_touched_iff, isCovered, hnested, Bool.not_false, Bool.true_and,
    List.any_eq_false]
  simp only [Edit.mem_touched_iff]

namespace IsTelling

include h

/-- Where something around a vertex comes or goes, that is told of instead, unless it is a built-in
scalar. -/
theorem isToldWithin_iff (hv : (c.graph side).vertex? id = some v)
    (hsome : ∃ ancestor ∈ (c.graph side).allAncestors id,
      ancestor ∈ Edit.touched operations side) :
    (c.graph side).IsToldWithin (Edit.touched operations side) (c.told operations side) id ↔
      ¬ (c.graph side).IsOnBuiltIn (Edit.touched operations side) id := by
  have hbuilt := h.built.ofTypeSystem_eq side
  have huntold : id ∉ c.told operations side := by
    obtain ⟨ancestor, haround, htouched⟩ := hsome
    exact fun htold => ((mem_told_iff_of_nested side hnested hv).1 htold).2.2 ancestor haround
      htouched
  obtain ⟨outermost, haround, htouched, houter⟩ := TypeSystem.exists_outermost hbuilt hsome
  obtain ⟨-, w, -, hw, -⟩ := TypeSystem.exists_rank_lt_of_mem_ancestors hbuilt haround
  cases hscalar : w.isBuiltIn with
  | false =>
    -- the outermost vertex tells of the others
    have htold := (mem_told_iff_of_nested side hnested hw).2 ⟨htouched, hscalar, houter⟩
    refine iff_of_true ⟨huntold, outermost, haround, htouched, htold⟩ ?_
    rintro ⟨owner, w', howner, -, hw', hscalar'⟩
    rw [TypeSystem.allAncestors_of_isBuiltIn hbuilt howner hw' hscalar'] at haround
    obtain rfl := List.mem_singleton.1 haround
    cases hw.symm.trans hw'
    rw [hscalar] at hscalar'
    cases hscalar'
  | true =>
    -- there is only the built-in scalar, of which nothing is told
    have hkind := ((TypeSystem.has_of_vertex? hbuilt hw).isBuiltIn_iff hbuilt).1 hscalar
    have howner := TypeSystem.owner?_of_scalar_mem_allAncestors hbuilt haround hw hkind.1
    refine iff_of_false ?_ (not_not_intro ⟨outermost, w, howner, htouched, hw, hscalar⟩)
    rintro ⟨-, ancestor, haround', -, htold⟩
    rw [TypeSystem.allAncestors_of_isBuiltIn hbuilt howner hw hscalar] at haround'
    obtain rfl := List.mem_singleton.1 haround'
    have hfalse := ((mem_told_iff_of_nested side hnested hw).1 htold).2.1
    rw [hscalar] at hfalse
    cases hfalse

theorem xor_told_iff (hmem : id ∈ Edit.touched operations side)
    (hv : (c.graph side).vertex? id = some v) (hbuiltIn : v.isBuiltIn = false) :
    Xor ((c.graph side).IsToldAlone (Edit.touched operations side) (c.told operations side) id)
      ((c.graph side).IsToldWithin (Edit.touched operations side) (c.told operations side) id) ↔
      ¬ (c.graph side).IsOnBuiltIn (Edit.touched operations side) id := by
  by_cases hsome : ∃ ancestor ∈ (c.graph side).allAncestors id,
      ancestor ∈ Edit.touched operations side
  · have halone : ¬ (c.graph side).IsToldAlone (Edit.touched operations side)
        (c.told operations side) id := by
      obtain ⟨ancestor, haround, htouched⟩ := hsome
      exact fun halone => halone.2 ancestor haround htouched
    rw [← h.isToldWithin_iff side hnested hv hsome]
    simp [Xor, halone]
  · have hnone : ∀ ancestor ∈ (c.graph side).allAncestors id,
        ancestor ∉ Edit.touched operations side :=
      fun ancestor haround htouched => hsome ⟨ancestor, haround, htouched⟩
    have htold := (mem_told_iff_of_nested side hnested hv).2 ⟨hmem, hbuiltIn, hnone⟩
    refine iff_of_true (Or.inl ⟨⟨htold, hnone⟩, fun hwithin => hwithin.1 htold⟩) ?_
    rintro ⟨owner, w, howner, htouched, -⟩
    have haround := (TypeSystem.mem_allAncestors_iff (h.built.ofTypeSystem_eq side) howner).2
      (Or.inl rfl)
    exact hnone owner haround htouched

theorem areTold : (c.graph side).AreTold (Edit.touched operations side)
    ((Analysis.ofFindings findings).changes.filterMap (Change.at? side)) :=
  ⟨c.told operations side, (nodup_at? h.account.uses_nodup side).filter _, List.filter_sublist,
    h.forall₂_told side, fun _ hmem _ hv hbuiltIn => h.xor_told_iff side hnested hmem hv hbuiltIn⟩

end IsTelling

end Comparison

/-- Where what is inside definitions is not asked for, everything that comes or goes is told of just
once, whatever the search may do: by itself if nothing around it comes or goes too, and otherwise by
something around it. Left out are built-in scalars, and with them the directives that are applied to
one that comes or goes. -/
theorem what_comes_or_goes_is_told_once_unless_on_a_built_in_scalar {old new : TypeSystem}
    {oldGraph newGraph : Graph} (hold : Graph.ofTypeSystem old = .ok oldGraph)
    (hnew : Graph.ofTypeSystem new = .ok newGraph) {config : Config} (clock : Clock)
    (hadditions : config.additions = false) (hremovals : config.removals = false) :
    ∃ diff, Delta.between old new config clock = .ok diff ∧
      newGraph.AreTold
        (Edit.touched (Script.between oldGraph newGraph config clock).operations .new)
        (diff.changes.filterMap Change.added?) ∧
      oldGraph.AreTold
        (Edit.touched (Script.between oldGraph newGraph config clock).operations .old)
        (diff.changes.filterMap Change.removed?) := by
  obtain ⟨m, kept, findings, htelling, hdiff⟩ := Delta.exists_between hold hnew config clock
  exact ⟨_, hdiff, htelling.areTold .new hadditions, htelling.areTold .old hremovals⟩

set_option maxRecDepth 20000 in
/-- So a new object tells of its field, and a built-in scalar that is defined does not tell of the
directive on it. -/
theorem a_new_object_tells_of_its_field :
    let a : Field := ⟨"a", .named "String", [], none, []⟩
    let object (name : String) : TypeDefinition := ⟨name, none, [], .object [] [a]⟩
    let int : TypeDefinition := ⟨"Int", none, [⟨"d", []⟩], .scalar⟩
    let d : DirectiveDefinition := ⟨"d", [], ["SCALAR"], false, none⟩
    let old : TypeSystem := ⟨⟨[object "Q"], by decide⟩, ⟨[d], by decide⟩⟩
    let new : TypeSystem := ⟨⟨[object "Q", int, object "P"], by decide⟩, ⟨[d], by decide⟩⟩
    ∃ oldGraph newGraph, Graph.ofTypeSystem old = .ok oldGraph ∧
      Graph.ofTypeSystem new = .ok newGraph ∧
      Delta.between old new .standard .stopped = .ok ⟨[.added (.object "P")], [], false⟩ ∧
      newGraph.AreTold
        (Edit.touched (Script.between oldGraph newGraph .standard .stopped).operations .new)
        [.object "P"] := by
  intro a object int d old new
  have hdiff : (Delta.between old new .standard .stopped).toOption = some
      ⟨[.added (.object "P")], [], false⟩ := by
    decide
  obtain ⟨oldGraph, newGraph, hold, hnew⟩ := Delta.exists_graphs_of_between hdiff
  obtain ⟨diff, hbetween, htold, -⟩ :=
    what_comes_or_goes_is_told_once_unless_on_a_built_in_scalar hold hnew .stopped
      (show Config.standard.additions = false from rfl) rfl
  cases hbetween.symm.trans (eq_ok_of_toOption hdiff)
  exact ⟨oldGraph, newGraph, hold, hnew, hbetween, htold⟩

set_option maxRecDepth 20000 in
/-- A directive on a built-in scalar comes with the definition of that scalar and is told of neither
by itself nor by anything around it. -/
theorem a_directive_on_a_new_built_in_scalar_is_not_told :
    let a : Field := ⟨"a", .named "String", [], none, []⟩
    let q : TypeDefinition := ⟨"Q", none, [], .object [] [a]⟩
    let int : TypeDefinition := ⟨"Int", none, [⟨"d", []⟩], .scalar⟩
    let d : DirectiveDefinition := ⟨"d", [], ["SCALAR"], false, none⟩
    let old : TypeSystem := ⟨⟨[q], by decide⟩, ⟨[d], by decide⟩⟩
    let new : TypeSystem := ⟨⟨[q, int], by decide⟩, ⟨[d], by decide⟩⟩
    ∃ oldGraph newGraph id v, Graph.ofTypeSystem old = .ok oldGraph ∧
      Graph.ofTypeSystem new = .ok newGraph ∧
      id ∈ Edit.touched (Script.between oldGraph newGraph .standard .stopped).operations .new ∧
      newGraph.vertex? id = some v ∧ v.isBuiltIn = false ∧
      ∃ diff, Delta.between old new .standard .stopped = .ok diff ∧
        ∀ touched told,
          List.Forall₂ newGraph.IsSubject told (diff.changes.filterMap Change.added?) →
          ¬ Xor (newGraph.IsToldAlone touched told id) (newGraph.IsToldWithin touched told id) := by
  intro a q int d old new
  have hdiff : (Delta.between old new .standard .stopped).toOption = some ⟨[], [], false⟩ := by
    decide
  obtain ⟨oldGraph, newGraph, hold, hnew⟩ := Delta.exists_graphs_of_between hdiff
  have hcomputed : ((Graph.ofTypeSystem old).toOption.bind fun oldGraph =>
      (Graph.ofTypeSystem new).toOption.map fun newGraph =>
        (Edit.touched (Script.between oldGraph newGraph .standard .stopped).operations .new,
          (newGraph.vertex? 5).map fun v => (v.kind, v.isBuiltIn))) =
      some ([1, 5], some (.appliedDirective, false)) := by
    decide
  rw [hold, hnew] at hcomputed
  obtain ⟨htouched, hvertex⟩ := Prod.ext_iff.1 (Option.some.inj hcomputed)
  obtain ⟨v, hv, heq⟩ := Option.map_eq_some_iff.1 hvertex
  refine ⟨oldGraph, newGraph, 5, v, hold, hnew, ?_, hv, (Prod.ext_iff.1 heq).2, _,
    eq_ok_of_toOption hdiff, ?_⟩
  · rw [show Edit.touched _ _ = [1, 5] from htouched]
    decide
  · intro touched told htold
    -- there are no events that could tell of anything
    cases htold
    rw [xor_iff_or_and_not_and]
    rintro ⟨⟨htold, -⟩ | ⟨-, ancestor, -, -, htold⟩, -⟩ <;> cases htold

end SchemaDelta
