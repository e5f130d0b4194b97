import SchemaDelta.Proofs.Analysis.Types
import SchemaDelta.Proofs.Growth.Scripts

/-!
What is reported of a type system that has grown. Each outermost element that was not there is told
as added, in order, and nothing else is told; and compared the other way round the same elements are
told as removed.
-/

namespace SchemaDelta

/-! ## Outermost elements -/

/-- Whether a vertex is one that another graph has not, inside no other such vertex. Built-in
scalars are there when they are mentioned and do not count. -/
def Graph.IsOutermost (g other : Graph) (id : Nat) : Prop :=
  ∃ v, g.vertex? id = some v ∧ v.isBuiltIn = false ∧ v.place ∉ other.places ∧
    ∀ ancestor ∈ g.allAncestors id, ∀ w, g.vertex? ancestor = some w → w.place ∈ other.places

/-- Vertices that stand in their order are told by which they are. -/
theorem eq_of_ascending {g : Graph} {ids ids' : List Nat}
    (h : ids.Pairwise fun a b => Unanchored.compareVertices g a b = .lt)
    (h' : ids'.Pairwise fun a b => Unanchored.compareVertices g a b = .lt)
    (hmem : ∀ id, id ∈ ids ↔ id ∈ ids') : ids = ids' := by
  have hnodup {ids : List Nat}
      (h : ids.Pairwise fun a b => Unanchored.compareVertices g a b = .lt) : ids.Nodup := by
    refine h.imp ?_
    rintro a b hlt rfl
    exact Std.OrientedCmp.not_lt_of_lt hlt hlt
  refine List.Perm.eq_of_pairwise ?_ h h'
    ((List.perm_ext_iff_of_nodup (hnodup h) (hnodup h')).2 hmem)
  intro a b _ _ hlt hgt
  exact absurd hgt (Std.OrientedCmp.not_lt_of_lt hlt)

/-! ## Findings -/

/-- What a step comes to where only vertices are told of, and not all of them. -/
inductive IsToldAs (g : Graph) (pick? : Edit → Option Nat) (isTold : Nat → Bool)
    (event : Subject → Change) : Edit → Finding → Prop where
  | told {operation : Edit} {id : Nat} {subject : Subject} (hpick : pick? operation = some id)
    (htold : isTold id = true) (hsubject : g.IsSubject id subject) :
    IsToldAs g pick? isTold event operation (.change (event subject))
  | untold {operation : Edit} {id : Nat} (hpick : pick? operation = some id)
    (htold : isTold id = false) : IsToldAs g pick? isTold event operation .nothing
  | other {operation : Edit} (hpick : pick? operation = none) :
    IsToldAs g pick? isTold event operation .nothing

theorem exists_subjects {g : Graph} {pick? : Edit → Option Nat} {isTold : Nat → Bool}
    {event : Subject → Change} {operations : List Edit} {findings : List Finding}
    (h : List.Forall₂ (IsToldAs g pick? isTold event) operations findings) : ∃ subjects,
      List.Forall₂ g.IsSubject ((operations.filterMap pick?).filter isTold) subjects ∧
        Analysis.ofFindings findings = ⟨subjects.map event, []⟩ := by
  have hall : ∃ subjects,
      List.Forall₂ g.IsSubject ((operations.filterMap pick?).filter isTold) subjects ∧
        findings.filterMap Finding.change? = subjects.map event ∧
        findings.filterMap Finding.object? = [] ∧ findings.filterMap Finding.interface? = [] ∧
        findings.filterMap Finding.unclassified? = [] := by
    induction h with
    | nil => exact ⟨[], .nil, rfl, rfl, rfl, rfl⟩
    | cons hstep _ ih =>
      obtain ⟨subjects, hsubjects, hchange, hobject, hinterface, hunclassified⟩ := ih
      cases hstep with
      | @told id subject hpick htold hsubject =>
        refine ⟨subject :: subjects, ?_, ?_, hobject, hinterface, hunclassified⟩
        · rw [List.filterMap_cons_some hpick, List.filter_cons_of_pos htold]
          exact .cons hsubject hsubjects
        · rw [List.map_cons, ← hchange]
          rfl
      | untold hpick htold =>
        refine ⟨subjects, ?_, hchange, hobject, hinterface, hunclassified⟩
        rwa [List.filterMap_cons_some hpick, List.filter_cons_of_neg (by simp [htold])]
      | other hpick =>
        refine ⟨subjects, ?_, hchange, hobject, hinterface, hunclassified⟩
        rwa [List.filterMap_cons_none hpick]
  obtain ⟨subjects, hsubjects, hchange, hobject, hinterface, hunclassified⟩ := hall
  refine ⟨subjects, hsubjects, ?_⟩
  rw [Analysis.ofFindings, hchange, hobject, hinterface, hunclassified]
  simp [gathered]

/-! ## Telling from the anchors -/

namespace Comparison

variable {c : Comparison} {kept : Matching} {operations : List Edit} {findings : List Finding}
  {id : Nat}

namespace IsTelling

variable (h : c.IsTelling (.anchors c.oldGraph c.newGraph) kept operations findings)

include h

/-- What comes or goes is what is at no place of the other side. -/
theorem comesOrGoes_iff (side : Side) : comesOrGoes operations side id = true ↔
    ∃ v, (c.graph side).vertex? id = some v ∧ v.place ∉ (c.graph side.other).places := by
  cases side with
  | old =>
    rw [comesOrGoes_old]
    exact h.account.deleteVertex_mem_iff_of_anchors
  | new =>
    rw [comesOrGoes_new]
    exact h.account.insertVertex_mem_iff_of_anchors

/-- What is told of is what is outermost on a side, unless what is inside is to be reported. -/
theorem mem_told_iff (side : Side) (hnested : c.reportsNested side = false) :
    id ∈ (operations.filterMap (Edit.at? side)).filter (c.isTold operations side) ↔
      (c.graph side).IsOutermost (c.graph side.other) id := by
  rw [List.mem_filter, mem_filterMap_at?_iff, h.comesOrGoes_iff side, Graph.IsOutermost, ← exists_and_right]
  refine exists_congr fun v => ?_
  rw [and_assoc]
  refine and_congr_right fun hv => ?_
  rw [isTold_eq side hv, isCovered, hnested, Bool.not_false, Bool.true_and, Bool.and_eq_true,
    Bool.not_eq_true', Bool.not_eq_true', List.any_eq_false]
  have hancestor (ancestor : Nat) : ¬ comesOrGoes operations side ancestor = true ↔
      ∀ w, (c.graph side).vertex? ancestor = some w →
        w.place ∈ (c.graph side.other).places := by
    rw [h.comesOrGoes_iff side]
    push Not
    rfl
  simp only [hancestor]
  tauto

/-- An end that is at no place of the other side comes or goes. -/
theorem comesOrGoes_end (side : Side) {e : Edge} {one two : Vertex}
    (hone : (c.graph side).vertex? e.one = some one)
    (htwo : (c.graph side).vertex? e.two = some two)
    (hout : one.place ∉ (c.graph side.other).places ∨ two.place ∉ (c.graph side.other).places) :
    ¬ (comesOrGoes operations side e.one = false ∧ comesOrGoes operations side e.two = false) := by
  rintro ⟨hfirst, hsecond⟩
  rcases hout with hout | hout
  · exact Bool.false_ne_true (hfirst.symm.trans ((h.comesOrGoes_iff side).2 ⟨one, hone, hout⟩))
  · exact Bool.false_ne_true (hsecond.symm.trans ((h.comesOrGoes_iff side).2 ⟨two, htwo, hout⟩))

/-- Of the steps from a part to the whole, only those that bring vertices are told. -/
theorem isToldAs_insertions (hpart : c.oldGraph.IsPartOf c.newGraph) (hnested : c.additions = false)
    (hoperations : operations =
      (Matching.anchors c.oldGraph c.newGraph).operations c.oldGraph c.newGraph) :
    List.Forall₂ (IsToldAs c.newGraph Edit.inserted? (c.isTold operations .new) .added)
      operations findings := by
  refine h.tells_mem.imp fun operation finding ⟨hmem, htells⟩ => ?_
  rcases hpart.exists_of_mem_insertions (hoperations ▸ hmem) with
    ⟨target, rfl⟩ | ⟨target, e, one, two, rfl, he, hone, htwo, hout⟩
  · cases htells with
    | inserted hv hbuiltIn hcovered hsubject =>
      exact .told rfl (by rw [isTold_eq .new hv, hbuiltIn, hcovered]; rfl) hsubject
    | coveredInsertion hv hquiet =>
      exact .untold rfl (by rw [isTold_eq .new hv]; rcases hquiet with h | h <;> simp [h])
  · cases htells with
    | gainedInterface he' hlabel hone' htwo' hends hreported =>
      cases he.symm.trans he'
      cases hone.symm.trans hone'
      cases htwo.symm.trans htwo'
      -- the type that gains the interface is the first end, which comes
      have hinterface := TypeSystem.kind_of_isImplements h.built.new (List.mem_of_getElem? he)
        hlabel htwo
      rcases eq_of_objectAndInterface? hends with ⟨rfl, rfl, rfl⟩ | ⟨rfl, rfl, rfl⟩
      · have hcomes := (h.comesOrGoes_iff .new).2
          ⟨_, hone, hpart.source_not_mem_places he hone htwo hlabel hout⟩
        rw [hnested, hcomes] at hreported
        simp at hreported
      · have hobject := (kind_of_objectAndInterface? hends).1
        rw [hinterface] at hobject
        cases hobject
    | insertedEdge he' hone' htwo' hends =>
      cases he.symm.trans he'
      exact absurd hends (h.comesOrGoes_end .new hone htwo hout)
    | coveredEdgeInsertion => exact .other rfl

/-- Of the steps from the whole to a part, only those that take vertices away are told. -/
theorem isToldAs_deletions (hpart : c.newGraph.IsPartOf c.oldGraph)
    (hoperations : operations =
      (Matching.anchors c.oldGraph c.newGraph).operations c.oldGraph c.newGraph) :
    List.Forall₂ (IsToldAs c.oldGraph Edit.deleted? (c.isTold operations .old) .removed)
      operations findings := by
  refine h.tells_mem.imp fun operation finding ⟨hmem, htells⟩ => ?_
  rcases hpart.exists_of_mem_deletions (hoperations ▸ hmem) with
    ⟨source, rfl⟩ | ⟨source, e, one, two, rfl, he, hone, htwo, hout⟩
  · cases htells with
    | deleted hv hbuiltIn hcovered hsubject =>
      exact .told rfl (by rw [isTold_eq .old hv, hbuiltIn, hcovered]; rfl) hsubject
    | coveredDeletion hv hquiet =>
      exact .untold rfl (by rw [isTold_eq .old hv]; rcases hquiet with h | h <;> simp [h])
  · cases htells with
    | deletedEdge he' hone' htwo' hends =>
      cases he.symm.trans he'
      exact absurd hends (h.comesOrGoes_end .old hone htwo hout)
    | coveredEdgeDeletion => exact .other rfl

end IsTelling

end Comparison

/-! ## Reports -/

section Reports

variable {old new : TypeSystem} {oldGraph newGraph : Graph}
  (hold : Graph.ofTypeSystem old = .ok oldGraph) (hnew : Graph.ofTypeSystem new = .ok newGraph)
  {config : Config} (clock : Clock)

include hold hnew

/-- A report from a part to the whole tells what is outermost in the rest as added. -/
theorem Graph.IsPartOf.exists_added (hpart : oldGraph.IsPartOf newGraph)
    (hadditions : config.additions = false) : ∃ ids subjects,
      (ids.Pairwise fun a b => Unanchored.compareVertices newGraph a b = .lt) ∧
      (∀ id, id ∈ ids ↔ newGraph.IsOutermost oldGraph id) ∧
      List.Forall₂ newGraph.IsSubject ids subjects ∧
      Delta.between old new config clock = .ok ⟨subjects.map .added, [], false⟩ := by
  obtain ⟨_, hcanBe⟩ := Script.exists_canBe_between oldGraph newGraph config clock
  have hscript := (hpart.between_eq config clock).1 _ _ hcanBe
  obtain ⟨kept, findings, htelling, hreport⟩ := Delta.exists_between_of_operations hold hnew
    (Matching.anchors_isCorrespondence oldGraph newGraph) (congrArg Script.operations hscript)
  rw [hscript] at htelling hreport
  obtain ⟨subjects, hsubjects, hfindings⟩ :=
    exists_subjects (htelling.isToldAs_insertions hpart hadditions rfl)
  refine ⟨_, subjects, ?_, fun id => htelling.mem_told_iff .new hadditions, hsubjects, ?_⟩
  · refine List.Pairwise.sublist List.filter_sublist
      (Realization.ascending_of_ordered ?_ (fun target hmem => ?_) ?_)
    · intro x y a b hx hy hle
      cases x <;> cases hx
      cases y <;> cases hy
      exact Realization.isLE_compareVertices hle
    · obtain ⟨operation, hoperation, heq⟩ := List.mem_filterMap.1 hmem
      cases operation <;> cases heq
      exact ((htelling.account.insertVertex_mem_iff target).1 hoperation).1
    · exact nodup_inserted htelling.account.uses_nodup
  · rw [hreport, hfindings]

/-- A report from the whole to a part tells what is outermost in the rest as removed. -/
theorem Graph.IsPartOf.exists_removed (hpart : newGraph.IsPartOf oldGraph)
    (hremovals : config.removals = false) : ∃ ids subjects,
      (ids.Pairwise fun a b => Unanchored.compareVertices oldGraph a b = .lt) ∧
      (∀ id, id ∈ ids ↔ oldGraph.IsOutermost newGraph id) ∧
      List.Forall₂ oldGraph.IsSubject ids subjects ∧
      Delta.between old new config clock = .ok ⟨subjects.map .removed, [], false⟩ := by
  obtain ⟨_, hcanBe⟩ := Script.exists_canBe_between oldGraph newGraph config clock
  have hscript := (hpart.between_eq config clock).2 _ _ hcanBe
  obtain ⟨kept, findings, htelling, hreport⟩ := Delta.exists_between_of_operations hold hnew
    (Matching.anchors_isCorrespondence oldGraph newGraph) (congrArg Script.operations hscript)
  rw [hscript] at htelling hreport
  obtain ⟨subjects, hsubjects, hfindings⟩ :=
    exists_subjects (htelling.isToldAs_deletions hpart rfl)
  refine ⟨_, subjects, ?_, fun id => htelling.mem_told_iff .old hremovals, hsubjects, ?_⟩
  · refine List.Pairwise.sublist List.filter_sublist
      (Realization.ascending_of_ordered ?_ (fun source hmem => ?_) ?_)
    · intro x y a b hx hy hle
      cases x <;> cases hx
      cases y <;> cases hy
      exact Realization.isLE_compareVertices hle
    · obtain ⟨operation, hoperation, heq⟩ := List.mem_filterMap.1 hmem
      cases operation <;> cases heq
      exact ((htelling.account.deleteVertex_mem_iff source).1 hoperation).1
    · exact nodup_deleted htelling.account.uses_nodup
  · rw [hreport, hfindings]

/-- Of a type system that has grown, exactly the outermost elements that were not there are told as
added, each once and in the order of kind, name and path, whatever the budget of the search; nothing
else is told, and the script is not approximate. Compared the other way round, exactly the same
elements are told as removed. Nothing is searched either way, so that all schedules of the workers
come to the same script. -/
theorem growth_is_told_by_its_outermost_elements (hgrows : old.Grows new)
    (hadditions : config.additions = false) (hremovals : config.removals = false) :
    ∃ ids subjects,
      (ids.Pairwise fun a b => Unanchored.compareVertices newGraph a b = .lt) ∧
      (∀ id, id ∈ ids ↔ newGraph.IsOutermost oldGraph id) ∧
      List.Forall₂ newGraph.IsSubject ids subjects ∧
      Delta.between old new config clock = .ok ⟨subjects.map .added, [], false⟩ ∧
      Delta.between new old config clock = .ok ⟨subjects.map .removed, [], false⟩ ∧
      (∀ exhausted script, Script.CanBe oldGraph newGraph config clock exhausted script →
        script = Script.between oldGraph newGraph config clock) ∧
      ∀ exhausted script, Script.CanBe newGraph oldGraph config clock exhausted script →
        script = Script.between newGraph oldGraph config clock := by
  have hpart := hgrows.isPartOf hold hnew
  obtain ⟨ids, subjects, hascending, hmem, hsubjects, hadded⟩ :=
    hpart.exists_added hold hnew clock hadditions
  obtain ⟨ids', subjects', hascending', hmem', hsubjects', hremoved⟩ :=
    hpart.exists_removed hnew hold clock hremovals
  -- the same vertices in the same order are told the same way
  obtain rfl : ids = ids' :=
    eq_of_ascending hascending hascending' fun id => (hmem id).trans (hmem' id).symm
  obtain rfl : subjects = subjects' :=
    List.right_unique_forall₂' (fun _ _ _ h h' => h.eq h') hsubjects hsubjects'
  obtain ⟨hforth, hback⟩ := hpart.between_eq config clock
  obtain ⟨_, hcanBe⟩ := Script.exists_canBe_between oldGraph newGraph config clock
  obtain ⟨_, hcanBe'⟩ := Script.exists_canBe_between newGraph oldGraph config clock
  exact ⟨ids, subjects, hascending, hmem, hsubjects, hadded, hremoved,
    fun _ _ h => (hforth _ _ h).trans (hforth _ _ hcanBe).symm,
    fun _ _ h => (hback _ _ h).trans (hback _ _ hcanBe').symm⟩

end Reports

set_option maxRecDepth 20000 in
/-- So it is without any search where a type with an interface comes, an applied directive is
defined, and something comes into each definition. -/
theorem growth_is_told_by_its_outermost_elements_of_every_kind :
    let x : InputValue := ⟨"x", .named "Int", none, none, []⟩
    let y : InputValue := ⟨"y", .named "Float", none, none, []⟩
    let a (arguments : List InputValue) : Field := ⟨"a", .named "Int", arguments, none, [⟨"d", []⟩]⟩
    let b : Field := ⟨"b", .named "E", [x], none, []⟩
    let i : Field := ⟨"i", .named "ID", [], none, []⟩
    let n : TypeDefinition := ⟨"N", none, [], .interface [] [i]⟩
    let q (fields : List Field) : TypeDefinition := ⟨"Q", none, [], .object [] fields⟩
    let e (values : List EnumValue) : TypeDefinition := ⟨"E", none, [], .enum values⟩
    let p : TypeDefinition := ⟨"P", none, [⟨"d", []⟩], .object ["N"] [i]⟩
    let r (arguments : List InputValue) : DirectiveDefinition :=
      ⟨"r", arguments, ["FIELD"], false, none⟩
    let d : DirectiveDefinition := ⟨"d", [], ["OBJECT", "FIELD_DEFINITION"], false, none⟩
    let old : TypeSystem := ⟨⟨[n, q [a [x]], e [⟨"X", none, []⟩]], by decide⟩,
      ⟨[r [x]], by decide⟩⟩
    let new : TypeSystem :=
      ⟨⟨[p, n, q [b, a [x, y]], e [⟨"X", none, []⟩, ⟨"Y", none, []⟩]], by decide⟩,
        ⟨[r [y, x], d], by decide⟩⟩
    ∃ oldGraph newGraph, Graph.ofTypeSystem old = .ok oldGraph ∧
      Graph.ofTypeSystem new = .ok newGraph ∧ old.Grows new ∧
      ∃ ids subjects, (∀ id, id ∈ ids ↔ newGraph.IsOutermost oldGraph id) ∧
        List.Forall₂ newGraph.IsSubject ids subjects ∧
        subjects = [.object "P", .definition .directive "d", .part .field "b" "Q",
          .part .argument "y" "@r", .part .argument "y" "Q.a", .part .enumValue "Y" "E"] ∧
        Delta.between old new .unsearched .stopped = .ok ⟨subjects.map .added, [], false⟩ ∧
        Delta.between new old .unsearched .stopped = .ok ⟨subjects.map .removed, [], false⟩ := by
  intro x y a b i n q e p r d old new
  have hgrows : old.Grows new :=
    { types := ⟨[n, q [b, a [x, y]], e [⟨"X", none, []⟩, ⟨"Y", none, []⟩]], [p], by decide,
        .cons ⟨.interface ⟨[i], [], by decide, .cons ⟨⟨[], [], .refl _, .nil⟩, rfl⟩ .nil⟩, rfl⟩
          (.cons ⟨.object ⟨[a [x, y]], [b], by decide,
              .cons ⟨⟨[x], [y], .refl _, .cons rfl .nil⟩, rfl⟩ .nil⟩, rfl⟩
            (.cons ⟨.enum ⟨[⟨"X", none, []⟩], [⟨"Y", none, []⟩], .refl _, .cons rfl .nil⟩, rfl⟩
              .nil))⟩
      directives := ⟨[r [y, x]], [d], .refl _,
        .cons ⟨⟨[x], [y], .swap _ _ _, .cons rfl .nil⟩, rfl⟩ .nil⟩
      builtIn := by decide }
  obtain ⟨oldGraph, hold⟩ := exists_eq_ok
    (show (Graph.ofTypeSystem old).toOption.isSome = true by decide)
  obtain ⟨newGraph, hnew⟩ := exists_eq_ok
    (show (Graph.ofTypeSystem new).toOption.isSome = true by decide)
  obtain ⟨ids, subjects, -, hmem, hsubjects, hadded, hremoved, -⟩ :=
    growth_is_told_by_its_outermost_elements hold hnew .stopped hgrows
      (show Config.unsearched.additions = false from rfl) rfl
  refine ⟨oldGraph, newGraph, hold, hnew, hgrows, ids, subjects, hmem, hsubjects, ?_, hadded,
    hremoved⟩
  have hdiff : (Delta.between old new .unsearched .stopped).toOption = some
      ⟨[.added (.object "P"), .added (.definition .directive "d"), .added (.part .field "b" "Q"),
        .added (.part .argument "y" "@r"), .added (.part .argument "y" "Q.a"),
        .added (.part .enumValue "Y" "E")], [], false⟩ := by
    decide
  have hchanges := congrArg Delta.changes
    (Except.ok.inj (hadded.symm.trans (eq_ok_of_toOption hdiff)))
  exact List.map_injective_iff.2 (fun _ _ => Change.added.inj) hchanges

end SchemaDelta
