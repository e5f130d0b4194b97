import SchemaDelta.Proofs.Analysis.Events
import SchemaDelta.Proofs.Edit.Owners
import SchemaDelta.Proofs.Graph.Paths
import SchemaDelta.Proofs.Renaming.Names

/-!
Renamed parts stay where they were. What a search matches is inside what its owner was matched with,
and a part that is told under another name was matched by the search, since a path ends in the name
of its element.
-/

namespace SchemaDelta

/-! ## The end of a path -/

/-- Parts at one place have one name, directives that are applied apart. -/
theorem TypeSystem.Has.name_eq_of_place {ts ts' : TypeSystem} {v w : Vertex} (hv : ts.Has v)
    (hw : ts'.Has w) (hnames : ts.HasNames) (hnames' : ts'.HasNames)
    (hpart : v.kind.isDefinition = false) (hkind : v.kind ≠ .appliedDirective)
    (hplace : v.place = w.place) : v.name = w.name := by
  have hsame : v.kind = w.kind := congrArg Place.kind hplace
  obtain ⟨owner, label, hmem⟩ := hv.exists_element hpart
  obtain ⟨owner', label', hmem'⟩ := hw.exists_element (hsame ▸ hpart)
  have hpath : v.path = w.path := congrArg Place.path hplace
  rw [(HasPaths.typeSystem ts).inner owner label v hmem hkind,
    (HasPaths.typeSystem ts').inner owner' label' w hmem' (hsame ▸ hkind)] at hpath
  exact (innerPath_inj (hnames v (mem_vertices_iff.2 hv)) (hnames' w (mem_vertices_iff.2 hw))
    hpath).2

/-! ## Renamed parts -/

/-- Whether a part of a new graph was there under an old name, inside what has become its owner. -/
def Matching.IsRenamedInside (m : Matching) (old new : Graph) (kind : PartKind)
    (name owner oldName : String) : Prop :=
  ∃ source target v, old.vertex? source = some v ∧ v.kind = kind.element ∧ v.name = oldName ∧
    new.IsSubject target (.part kind name owner) ∧ (source, target) ∈ m.pairs ∧
    ∃ container container', old.owner? source = some container ∧
      new.owner? target = some container' ∧ (container, container') ∈ m.pairs

namespace Comparison.IsTelling

variable {c : Comparison} {m kept : Matching} {operations : List Edit} {findings : List Finding}

/-- What is told as a renamed part was matched by the search. -/
theorem isRenamedInside (h : c.IsTelling m kept operations findings)
    (hkeeps : m.KeepsOwners c.oldGraph c.newGraph) (hold : c.oldSystem.HasNames)
    (hnew : c.newSystem.HasNames) {kind : PartKind} (hkind : kind ≠ .appliedDirective)
    {name owner oldName : String} {details : List Revision}
    (hmem : .partChanged kind name owner details ∈ (Analysis.ofFindings findings).changes)
    (hrenamed : .renamed oldName ∈ details) :
    m.IsRenamedInside c.oldGraph c.newGraph kind name owner oldName := by
  have hevent : (Change.partChanged kind name owner details).revised? =
      some (.part kind name owner, details) :=
    Change.revised?_eq_some_iff.2 ⟨rfl, rfl, List.ne_nil_of_mem hrenamed⟩
  -- the event comes from one finding, which is about a part
  obtain ⟨finding, hfinding, hchange⟩ : ∃ finding ∈ findings,
      finding.change? = some (.partChanged kind name owner details) := by
    rw [changes_ofFindings, List.mem_append, List.mem_append] at hmem
    rcases hmem with (hmem | hmem) | hmem
    · exact List.mem_filterMap.1 hmem
    · obtain ⟨entry, -, heq⟩ := List.mem_map.1 hmem
      cases heq
    · obtain ⟨entry, -, heq⟩ := List.mem_map.1 hmem
      cases heq
  obtain ⟨operation, hoperation, htells⟩ := h.exists_operation hfinding
  obtain ⟨source, target, v, w, rfl, hv, hw, -, -, hsubject, rfl⟩ :=
    htells.exists_changed (Finding.event?_of_change? hchange) hevent
  obtain ⟨hne, rfl⟩ := renamed_mem_revisions.1 hrenamed
  obtain ⟨hpair, -⟩ := (h.account.changeVertex_mem_iff source target).1 hoperation
  have hwkind : w.kind = kind.element := hsubject.kind_eq hw
  have hvkind : v.kind = kind.element := (h.correspondence.kind_eq hpair hv hw).trans hwkind
  have hpart : v.kind.isDefinition = false := by
    rw [hvkind]
    cases kind <;> rfl
  have hinner : v.kind ≠ .appliedDirective := by
    rw [hvkind]
    cases kind <;> first | exact absurd rfl hkind | exact ElementKind.noConfusion
  -- anchors would have one name
  have hsearched : (source, target) ∉ (Matching.anchors c.oldGraph c.newGraph).pairs := by
    intro hanchored
    obtain ⟨v', w', hv', hw', hplace⟩ := Matching.mem_anchors.1 hanchored
    cases hv.symm.trans hv'
    cases hw.symm.trans hw'
    exact hne ((TypeSystem.has_of_vertex? h.built.old hv).name_eq_of_place
      (TypeSystem.has_of_vertex? h.built.new hw) hold hnew hpart hinner hplace)
  refine ⟨source, target, v, hv, hvkind, rfl, hsubject, hpair, ?_⟩
  rcases hkeeps source target hpair hsearched with ⟨hnone, -⟩ | howners
  · obtain ⟨container, u, label, hcontainer, -⟩ :=
      TypeSystem.exists_owner_of_part h.built.old hv hpart
    cases hnone.symm.trans hcontainer
  · exact howners

end Comparison.IsTelling

/-- A report that is not approximate is that of a search that came to its end. -/
theorem Delta.exists_of_approximate_eq_false {old new : TypeSystem} {config : Config} {clock : Clock}
    {diff : Delta} (hdiff : Delta.between old new config clock = .ok diff)
    (happroximate : diff.approximate = false) : ∃ oldGraph newGraph m,
      Graph.ofTypeSystem old = .ok oldGraph ∧ Graph.ofTypeSystem new = .ok newGraph ∧
      Matching.searched? oldGraph newGraph config clock = some m ∧
      (Script.between oldGraph newGraph config clock).operations =
        m.operations oldGraph newGraph := by
  obtain ⟨oldGraph, newGraph, hold, hnew⟩ :=
    Delta.exists_graphs_of_between (congrArg Except.toOption hdiff)
  obtain ⟨-, kept, findings, -, hbetween⟩ := Delta.exists_between hold hnew config clock
  cases hdiff.symm.trans hbetween
  refine ⟨oldGraph, newGraph, ?_⟩
  unfold Script.between at happroximate ⊢
  cases hfound : Matching.searched? oldGraph newGraph config clock with
  | none =>
    rw [hfound] at happroximate
    cases happroximate
  | some m => exact ⟨m, hold, hnew, rfl, rfl⟩

/-- Whatever the workers do, a search that comes to its end matches two vertices only if nothing owns
them or their owners are matched in the end, provided that owners come first, as they do in the
graphs of type systems. So what is told as a renamed part in the report of such a search was inside
what its owner was, if all elements have names. Directives that are applied are left out. -/
theorem a_completed_search_keeps_owners :
    (∀ {old new : Graph}, old.OwnersComeFirst → ∀ {config : Config} {clock : Clock} {m : Matching},
      Matching.CanBeFound old new config clock m → m.KeepsOwners old new) ∧
    (∀ {ts : TypeSystem} {g : Graph}, Graph.ofTypeSystem ts = .ok g → g.OwnersComeFirst) ∧
    ∀ {old new : TypeSystem}, old.HasNames → new.HasNames →
      ∀ {config : Config} {clock : Clock} {diff : Delta},
      Delta.between old new config clock = .ok diff → diff.approximate = false →
      ∃ oldGraph newGraph m, Graph.ofTypeSystem old = .ok oldGraph ∧
        Graph.ofTypeSystem new = .ok newGraph ∧
        Matching.CanBeFound oldGraph newGraph config clock m ∧
        ∀ {kind name owner details oldName}, kind ≠ .appliedDirective →
          .partChanged kind name owner details ∈ diff.changes → .renamed oldName ∈ details →
          m.IsRenamedInside oldGraph newGraph kind name owner oldName := by
  have hkeeps {old new : Graph} (hold : old.OwnersComeFirst) {config : Config} {clock : Clock}
      {m : Matching} (hm : Matching.CanBeFound old new config clock m) : m.KeepsOwners old new := by
    obtain ⟨assignment, hfeasible, rfl⟩ := hm.exists_isFeasible
    exact Matching.ofAssignment_keepsOwners hold hfeasible
  refine ⟨hkeeps, TypeSystem.ownersComeFirst, ?_⟩
  intro old new hnames hnames' config clock diff hdiff happroximate
  obtain ⟨oldGraph, newGraph, m, hold, hnew, hsearched, hoperations⟩ :=
    Delta.exists_of_approximate_eq_false hdiff happroximate
  have hfound := Matching.canBeFound_of_searched? hsearched
  obtain ⟨kept, findings, htelling, hbetween⟩ :=
    Delta.exists_between_of_operations hold hnew hfound.isCorrespondence hoperations
  cases hdiff.symm.trans hbetween
  exact ⟨oldGraph, newGraph, m, hold, hnew, hfound, fun hkind hmem hrenamed =>
    htelling.isRenamedInside (hkeeps (TypeSystem.ownersComeFirst hold) hfound) hnames hnames' hkind
      hmem hrenamed⟩

set_option maxRecDepth 20000 in
/-- So it is with a field that is renamed together with its object. -/
theorem a_completed_search_keeps_owners_of_a_renamed_field :
    let q (a : String) : TypeDefinition :=
      ⟨"Q", none, [], .object [] [⟨"x", .named a, [], none, []⟩]⟩
    let a (name field : String) : TypeDefinition :=
      ⟨name, none, [], .object [] [⟨"f", .named "Int", [], none, []⟩,
        ⟨field, .named "String", [], none, []⟩]⟩
    let old : TypeSystem := ⟨⟨[q "A", a "A" "g"], by decide⟩, .empty⟩
    let new : TypeSystem := ⟨⟨[q "B", a "B" "h"], by decide⟩, .empty⟩
    ∃ oldGraph newGraph m, Graph.ofTypeSystem old = .ok oldGraph ∧
      Graph.ofTypeSystem new = .ok newGraph ∧ old.HasNames ∧ new.HasNames ∧
      Delta.between old new .standard .stopped = .ok
        ⟨[.partChanged .field "h" "B" [.renamed "g"],
          .objectChanged "B" [.revised (.renamed "A")]],
          [⟨.changeEdge, "type=B", some "type=A", ⟨.field, "Q.x"⟩, ⟨.object, "B"⟩⟩], false⟩ ∧
      oldGraph.OwnersComeFirst ∧ Matching.CanBeFound oldGraph newGraph .standard .stopped m ∧
      m.KeepsOwners oldGraph newGraph ∧
      m.IsRenamedInside oldGraph newGraph .field "h" "B" "g" := by
  intro q a old new
  have hdiff : (Delta.between old new .standard .stopped).toOption = some
      ⟨[.partChanged .field "h" "B" [.renamed "g"], .objectChanged "B" [.revised (.renamed "A")]],
        [⟨.changeEdge, "type=B", some "type=A", ⟨.field, "Q.x"⟩, ⟨.object, "B"⟩⟩], false⟩ := by
    decide
  have hnames : old.HasNames := by decide
  have hnames' : new.HasNames := by decide
  obtain ⟨hkeeps, hfirst, htold⟩ := a_completed_search_keeps_owners
  obtain ⟨oldGraph, newGraph, m, hold, hnew, hfound, hrenamed⟩ :=
    htold hnames hnames' (eq_ok_of_toOption hdiff) rfl
  exact ⟨oldGraph, newGraph, m, hold, hnew, hnames, hnames', eq_ok_of_toOption hdiff, hfirst hold,
    hfound, hkeeps (hfirst hold) hfound,
    hrenamed PartKind.noConfusion (List.mem_cons_self ..) (List.mem_cons_self ..)⟩

end SchemaDelta
