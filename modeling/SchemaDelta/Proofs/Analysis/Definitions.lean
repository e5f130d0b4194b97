import SchemaDelta.Proofs.Analysis.Events
import SchemaDelta.Proofs.Graph.Ancestors

/-!
Definitions that come and go. Each is told by an event of its kind, except that a scalar which
becomes a built-in one, or which a built-in one becomes, is not told of.
-/

namespace SchemaDelta

/-! ## Definitions as subjects -/

/-- A type as events tell it. -/
def TypeDefinition.subject (d : TypeDefinition) : Subject :=
  match d.body with
  | .object .. => .object d.name
  | .interface .. => .definition .interface d.name
  | .union _ => .definition .union d.name
  | .inputObject _ => .definition .inputObject d.name
  | .enum _ => .definition .enum d.name
  | .scalar => .definition .scalar d.name

/-- The definition of a directive as events tell it. -/
def DirectiveDefinition.subject (d : DirectiveDefinition) : Subject :=
  .definition .directive d.name

/-- The definitions of a type system as events tell them, by kind and name. -/
def TypeSystem.definitions (ts : TypeSystem) : List Subject :=
  ts.types.entries.map TypeDefinition.subject ++ ts.directives.entries.map DirectiveDefinition.subject

namespace TypeDefinition

theorem element_subject (d : TypeDefinition) : d.subject.element = d.body.kind := by
  unfold subject
  cases d.body <;> rfl

theorem name_subject (d : TypeDefinition) : d.subject.name = d.name := by
  unfold subject
  cases d.body <;> rfl

end TypeDefinition

namespace TypeSystem

variable {ts : TypeSystem} {g : Graph} {id : Nat} {v : Vertex} {subject : Subject}

theorem isDefinition_of_mem_definitions (hmem : subject ∈ ts.definitions) :
    subject.element.isDefinition = true := by
  rcases List.mem_append.1 hmem with hmem | hmem
  · obtain ⟨d, -, rfl⟩ := List.mem_map.1 hmem
    rw [d.element_subject]
    exact ElementKind.isDefinition_iff.2 (Or.inl (TypeBody.isType_kind d.body))
  · obtain ⟨d, -, rfl⟩ := List.mem_map.1 hmem
    rfl

/-- What is defined has a vertex. -/
theorem exists_isSubject (h : Graph.ofTypeSystem ts = .ok g) (hmem : subject ∈ ts.definitions) :
    ∃ id, g.IsSubject id subject := by
  have hdefinition := isDefinition_of_mem_definitions hmem
  rcases List.mem_append.1 hmem with hmem | hmem
  · obtain ⟨d, hd, rfl⟩ := List.mem_map.1 hmem
    obtain ⟨id, hid⟩ := exists_vertex? h (.type hd)
    exact ⟨id, .of_definition hid d.element_subject.symm d.name_subject.symm hdefinition⟩
  · obtain ⟨d, hd, rfl⟩ := List.mem_map.1 hmem
    obtain ⟨id, hid⟩ := exists_vertex? h (.directive hd)
    exact ⟨id, .of_definition hid rfl rfl hdefinition⟩

/-- What has a vertex and is not a built-in scalar is defined. -/
theorem mem_definitions_of_isSubject (h : Graph.ofTypeSystem ts = .ok g)
    (hsubject : g.IsSubject id subject) (hdefinition : subject.element.isDefinition = true)
    (hbuiltIn : subject.isBuiltIn = false) : subject ∈ ts.definitions := by
  obtain ⟨v, hv, hkind, hname⟩ := hsubject.exists_vertex?
  rw [hsubject.isBuiltIn_eq h hv] at hbuiltIn
  rw [← hkind] at hdefinition
  rcases (has_of_vertex? h hv).exists_definition hdefinition hbuiltIn with
    ⟨d, hd, rfl⟩ | ⟨d, hd, rfl⟩
  · rw [hsubject.eq_of_definition (.of_definition hv d.element_subject.symm d.name_subject.symm
      (d.element_subject ▸ hdefinition)) (hkind ▸ hdefinition)]
    exact List.mem_append_left _ (List.mem_map_of_mem hd)
  · have hdirective : g.IsSubject id d.subject := .of_definition hv rfl rfl rfl
    rw [hsubject.eq_of_definition hdirective (hkind ▸ hdefinition)]
    exact List.mem_append_right _ (List.mem_map_of_mem hd)

end TypeSystem

/-! ## Events of definitions -/

/-- Whether events tell of a definition in the new schema: that it was added, or under what name it
was known before. -/
def TellNew (changes : List Change) (subject : Subject) : Prop :=
  .added subject ∈ changes ∨ ∃ oldName, ∃ event ∈ changes, event.subject = subject ∧
    .renamed oldName ∈ event.revisions

/-- Whether events tell of a definition in the old schema: that it was removed, or that one of its
kind had its name before. -/
def TellOld (changes : List Change) (subject : Subject) : Prop :=
  .removed subject ∈ changes ∨ ∃ newSubject : Subject, newSubject.element = subject.element ∧
    ∃ event ∈ changes, event.subject = newSubject ∧ .renamed subject.name ∈ event.revisions

namespace Comparison

variable {c : Comparison} {m kept : Matching} {operations : List Edit} {findings : List Finding}

theorem isCovered_eq_false {id : Nat} {v : Vertex} (h : c.IsBuilt) (operations : List Edit)
    (side : Side) (hv : (c.graph side).vertex? id = some v)
    (hkind : v.kind.isDefinition = true) : c.isCovered operations side id = false := by
  have howner := TypeSystem.owner?_eq_none (h.ofTypeSystem_eq side) hv hkind
  rw [isCovered, Graph.allAncestors_eq_nil howner, List.any_nil, Bool.and_false]

namespace IsTelling

variable (h : c.IsTelling m kept operations findings)

include h

/-- A definition that is inserted is told as added if it is not a built-in scalar, and no other is. -/
theorem added_mem_iff {subject : Subject} (hdefinition : subject.element.isDefinition = true)
    (hbuiltIn : subject.isBuiltIn = false) :
    .added subject ∈ (Analysis.ofFindings findings).changes ↔
      ∃ target, .insertVertex target ∈ operations ∧ c.newGraph.IsSubject target subject := by
  constructor
  · intro hmem
    have hadded : subject ∈ (Analysis.ofFindings findings).changes.filterMap Change.added? :=
      List.mem_filterMap.2 ⟨_, hmem, rfl⟩
    rw [filterMap_changes findings (fun _ => rfl) fun _ => rfl] at hadded
    obtain ⟨finding, hfinding, hpicked⟩ := List.mem_filterMap.1 hadded
    obtain ⟨operation, hoperation, htells⟩ := h.exists_operation hfinding
    obtain ⟨target, v, rfl, hv, -, hsubject⟩ := htells.exists_inserted hpicked
    exact ⟨target, hoperation, hsubject⟩
  · rintro ⟨target, hmem, hsubject⟩
    obtain ⟨finding, hfinding, htells⟩ := h.exists_finding hmem
    cases htells with
    | inserted hv hvertex hcovered htold =>
      cases hsubject.eq_of_definition htold hdefinition
      exact List.mem_append_left _ (List.mem_append_left _
        (List.mem_filterMap.2 ⟨_, hfinding, rfl⟩))
    | coveredInsertion hv hquiet =>
      -- nothing covers a definition, for nothing owns it
      rw [hsubject.isBuiltIn_eq h.built.new hv] at hbuiltIn
      rw [hbuiltIn, isCovered_eq_false h.built operations .new hv
        (by rw [hsubject.kind_eq hv]; exact hdefinition)] at hquiet
      simp at hquiet

theorem removed_mem_iff {subject : Subject} (hdefinition : subject.element.isDefinition = true)
    (hbuiltIn : subject.isBuiltIn = false) :
    .removed subject ∈ (Analysis.ofFindings findings).changes ↔
      ∃ source, .deleteVertex source ∈ operations ∧ c.oldGraph.IsSubject source subject := by
  constructor
  · intro hmem
    have hremoved : subject ∈ (Analysis.ofFindings findings).changes.filterMap Change.removed? :=
      List.mem_filterMap.2 ⟨_, hmem, rfl⟩
    rw [filterMap_changes findings (fun _ => rfl) fun _ => rfl] at hremoved
    obtain ⟨finding, hfinding, hpicked⟩ := List.mem_filterMap.1 hremoved
    obtain ⟨operation, hoperation, htells⟩ := h.exists_operation hfinding
    obtain ⟨source, v, rfl, hv, -, hsubject⟩ := htells.exists_deleted hpicked
    exact ⟨source, hoperation, hsubject⟩
  · rintro ⟨source, hmem, hsubject⟩
    obtain ⟨finding, hfinding, htells⟩ := h.exists_finding hmem
    cases htells with
    | deleted hv hvertex hcovered htold =>
      cases hsubject.eq_of_definition htold hdefinition
      exact List.mem_append_left _ (List.mem_append_left _
        (List.mem_filterMap.2 ⟨_, hfinding, rfl⟩))
    | coveredDeletion hv hquiet =>
      rw [hsubject.isBuiltIn_eq h.built.old hv] at hbuiltIn
      rw [hbuiltIn, isCovered_eq_false h.built operations .old hv
        (by rw [hsubject.kind_eq hv]; exact hdefinition)] at hquiet
      simp at hquiet

/-- A new name is told of the pairs of vertices that are changed and are no built-in scalars. -/
theorem renamed_iff {subject : Subject} {oldName : String}
    (hdefinition : subject.element.isDefinition = true) :
    (∃ event ∈ (Analysis.ofFindings findings).changes, event.subject = subject ∧
      .renamed oldName ∈ event.revisions) ↔
    ∃ source target v w, .changeVertex source target ∈ operations ∧
      c.oldGraph.vertex? source = some v ∧ c.newGraph.vertex? target = some w ∧
      v.isBuiltIn = false ∧ w.isBuiltIn = false ∧ c.newGraph.IsSubject target subject ∧
      v.name = oldName ∧ w.name ≠ oldName := by
  constructor
  · rintro ⟨event, hmem, hsubject, hrenamed⟩
    -- the event may be put together from several findings, and one of them tells the revision
    have hrevised : event.revised? = some (subject, event.revisions) :=
      Change.revised?_eq_some_iff.2 ⟨hsubject, rfl, List.ne_nil_of_mem hrenamed⟩
    have htold := h.revised?_perm.mem_iff.1 (List.mem_filterMap.2 ⟨event, hmem, hrevised⟩)
    obtain ⟨event', hevents, hrevised'⟩ := List.mem_filterMap.1 htold
    obtain ⟨finding, hfinding, hevent'⟩ := List.mem_filterMap.1 hevents
    obtain ⟨operation, hoperation, htells⟩ := h.exists_operation hfinding
    obtain ⟨source, target, v, w, rfl, hv, hw, hold, hnew, htarget, hdetails⟩ :=
      htells.exists_changed hevent' hrevised'
    rw [hdetails, renamed_mem_revisions] at hrenamed
    obtain ⟨hne, rfl⟩ := hrenamed
    exact ⟨source, target, v, w, hoperation, hv, hw, hold, hnew, htarget, rfl, hne.symm⟩
  · rintro ⟨source, target, v, w, hmem, hv, hw, hold, hnew, htarget, rfl, hne⟩
    have hrenamed : .renamed v.name ∈ revisions v w := renamed_mem_revisions.2 ⟨hne.symm, rfl⟩
    obtain ⟨finding, hfinding, htells⟩ := h.exists_finding hmem
    cases htells with
    | revised hv' hw' hold' hnew' hrevised htold =>
      cases hv.symm.trans hv'
      cases hw.symm.trans hw'
      cases htarget.eq_of_definition htold hdefinition
      obtain ⟨event, hevent, heq, hrevisions⟩ :=
        exists_event?_revisionFinding (revisions v w) subject
      have hmem' := h.revised?_perm.mem_iff.2 (List.mem_filterMap.2
        ⟨event, List.mem_filterMap.2 ⟨_, hfinding, hevent⟩,
          Change.revised?_eq_some_iff.2 ⟨heq, hrevisions, hrevised⟩⟩)
      obtain ⟨event', hchange, hrevised'⟩ := List.mem_filterMap.1 hmem'
      obtain ⟨heq', hrevisions', -⟩ := Change.revised?_eq_some_iff.1 hrevised'
      exact ⟨event', hchange, heq', hrevisions'.symm ▸ hrenamed⟩
    | unrevised hv' hw' hquiet =>
      -- there is another name, so there is something to tell
      cases hv.symm.trans hv'
      cases hw.symm.trans hw'
      rw [hold, hnew] at hquiet
      simp only [Bool.false_eq_true, false_or] at hquiet
      rw [hquiet] at hrenamed
      cases hrenamed

/-- A matched definition whose name is not that of a definition before is changed. -/
theorem changeVertex_mem_of_ne {source target : Nat} {v w : Vertex}
    (hpair : (source, target) ∈ m.pairs) (hv : c.oldGraph.vertex? source = some v)
    (hw : c.newGraph.vertex? target = some w) (hne : v.name ≠ w.name) :
    .changeVertex source target ∈ operations :=
  (h.account.changeVertex_mem_iff source target).2 ⟨hpair, v, w, hv, hw, fun hagree => hne hagree.1⟩

/-- A definition that is new under its name is inserted, or changed from just one vertex. -/
theorem inserted_or_changed {subject : Subject} {target : Nat}
    (htarget : c.newGraph.IsSubject target subject)
    (hdefinition : subject.element.isDefinition = true) (hbuiltIn : subject.isBuiltIn = false)
    (hnew : subject ∉ c.oldSystem.definitions) :
    (.insertVertex target ∈ operations ∧ ∀ source, .changeVertex source target ∉ operations) ∨
      (.insertVertex target ∉ operations ∧ ∃ source v, c.oldGraph.vertex? source = some v ∧
        v.name ≠ subject.name ∧ ∀ source', .changeVertex source' target ∈ operations ↔
          source' = source) := by
  obtain ⟨w, hw, hkind, hname⟩ := htarget.exists_vertex?
  by_cases hinserted : .insertVertex target ∈ operations
  · refine Or.inl ⟨hinserted, fun source hchange => ?_⟩
    exact ((h.account.insertVertex_mem_iff target).1 hinserted).2 source
      ((h.account.changeVertex_mem_iff source target).1 hchange).1
  · have hmatched : ∃ source, (source, target) ∈ m.pairs := by
      by_contra hnone
      rw [not_exists] at hnone
      exact hinserted ((h.account.insertVertex_mem_iff target).2
        ⟨Graph.lt_of_vertex? hw, hnone⟩)
    obtain ⟨source, hpair⟩ := hmatched
    obtain ⟨v, w', hv, hw', hkinds⟩ := h.correspondence.kinds hpair
    cases hw.symm.trans hw'
    -- under the same name it was defined before
    have hne : v.name ≠ subject.name := by
      intro heq
      have hsource := Graph.IsSubject.of_definition hv (hkinds.trans hkind) heq hdefinition
      exact hnew (TypeSystem.mem_definitions_of_isSubject h.built.old hsource hdefinition hbuiltIn)
    refine Or.inr ⟨hinserted, source, v, hv, hne, fun source' => ⟨fun hchange => ?_, ?_⟩⟩
    · exact h.correspondence.isOneToOne.eq_source
        ((h.account.changeVertex_mem_iff source' target).1 hchange).1 hpair
    · rintro rfl
      exact h.changeVertex_mem_of_ne hpair hv hw (hname ▸ hne)

/-- What is changed into something of the kind of a definition, and has its name, is that
definition. -/
theorem isSubject_of_changeVertex {subject newSubject : Subject} {source target : Nat}
    {v w : Vertex} (hdefinition : subject.element.isDefinition = true)
    (hchange : .changeVertex source target ∈ operations)
    (hv : c.oldGraph.vertex? source = some v) (hw : c.newGraph.vertex? target = some w)
    (htarget : c.newGraph.IsSubject target newSubject)
    (helement : newSubject.element = subject.element) (hname : v.name = subject.name) :
    c.oldGraph.IsSubject source subject := by
  obtain ⟨hpair, -⟩ := (h.account.changeVertex_mem_iff source target).1 hchange
  obtain ⟨v', w', hv', hw', hkinds⟩ := h.correspondence.kinds hpair
  cases hv.symm.trans hv'
  cases hw.symm.trans hw'
  exact .of_definition hv ((hkinds.trans (htarget.kind_eq hw)).trans helement) hname hdefinition

/-- A definition that is gone under its name is deleted, or changed into just one vertex. -/
theorem deleted_or_changed {subject : Subject} {source : Nat}
    (hsource : c.oldGraph.IsSubject source subject)
    (hdefinition : subject.element.isDefinition = true) (hbuiltIn : subject.isBuiltIn = false)
    (hold : subject ∉ c.newSystem.definitions) :
    (.deleteVertex source ∈ operations ∧ ∀ target, .changeVertex source target ∉ operations) ∨
      (.deleteVertex source ∉ operations ∧ ∃ target w, c.newGraph.vertex? target = some w ∧
        w.kind = subject.element ∧ w.name ≠ subject.name ∧
        ∀ target', .changeVertex source target' ∈ operations ↔ target' = target) := by
  obtain ⟨v, hv, hkind, hname⟩ := hsource.exists_vertex?
  by_cases hdeleted : .deleteVertex source ∈ operations
  · refine Or.inl ⟨hdeleted, fun target hchange => ?_⟩
    exact ((h.account.deleteVertex_mem_iff source).1 hdeleted).2 target
      ((h.account.changeVertex_mem_iff source target).1 hchange).1
  · have hmatched : ∃ target, (source, target) ∈ m.pairs := by
      by_contra hnone
      rw [not_exists] at hnone
      exact hdeleted ((h.account.deleteVertex_mem_iff source).2
        ⟨Graph.lt_of_vertex? hv, hnone⟩)
    obtain ⟨target, hpair⟩ := hmatched
    obtain ⟨v', w, hv', hw, hkinds⟩ := h.correspondence.kinds hpair
    cases hv.symm.trans hv'
    have hne : w.name ≠ subject.name := by
      intro heq
      have htarget := Graph.IsSubject.of_definition hw (hkinds.symm.trans hkind) heq hdefinition
      exact hold (TypeSystem.mem_definitions_of_isSubject h.built.new htarget hdefinition hbuiltIn)
    refine Or.inr ⟨hdeleted, target, w, hw, hkinds.symm.trans hkind, hne,
      fun target' => ⟨fun hchange => ?_, ?_⟩⟩
    · exact h.correspondence.isOneToOne.eq_target
        ((h.account.changeVertex_mem_iff source target').1 hchange).1 hpair
    · rintro rfl
      exact h.changeVertex_mem_of_ne hpair hv hw fun heq => hne (heq ▸ hname)

theorem tellNew_iff {subject : Subject} (hmem : subject ∈ c.newSystem.definitions)
    (hnew : subject ∉ c.oldSystem.definitions) (hbuiltIn : subject.isBuiltIn = false) :
    TellNew (Analysis.ofFindings findings).changes subject ↔
      ¬ ∃ source target v, .changeVertex source target ∈ operations ∧
        c.newGraph.IsSubject target subject ∧ c.oldGraph.vertex? source = some v ∧
          v.isBuiltIn = true := by
  have hdefinition := TypeSystem.isDefinition_of_mem_definitions hmem
  obtain ⟨target, htarget⟩ := TypeSystem.exists_isSubject h.built.new hmem
  obtain ⟨w, hw, hkind, hname⟩ := htarget.exists_vertex?
  have hunique {target' : Nat} (htarget' : c.newGraph.IsSubject target' subject) :
      target' = target := htarget'.id_eq_of_definition htarget h.built.new hdefinition
  unfold TellNew
  simp only [h.added_mem_iff hdefinition hbuiltIn, h.renamed_iff hdefinition]
  rcases h.inserted_or_changed htarget hdefinition hbuiltIn hnew with
    ⟨hinserted, hunchanged⟩ | ⟨hinserted, source, v, hv, hne, hchange⟩
  · refine iff_of_true (Or.inl ⟨target, hinserted, htarget⟩) ?_
    rintro ⟨source, target', v, hchange, htarget', -⟩
    exact hunchanged source (hunique htarget' ▸ hchange)
  · constructor
    · rintro (⟨target', hinserted', htarget'⟩ | ⟨oldName, source', target', v', w', hchange', hv', -,
        hold, -, htarget', -⟩)
      · exact absurd (hunique htarget' ▸ hinserted') hinserted
      · rintro ⟨source'', target'', v'', hchange'', htarget'', hv'', hbuiltIn'⟩
        -- what is renamed and what is excepted are made from the same vertex
        obtain rfl := (hchange _).1 (hunique htarget' ▸ hchange')
        obtain rfl := (hchange _).1 (hunique htarget'' ▸ hchange'')
        cases hv'.symm.trans hv''
        rw [hold] at hbuiltIn'
        cases hbuiltIn'
    · intro hexception
      have hold : v.isBuiltIn = false := by
        rw [← Bool.not_eq_true]
        exact fun hold => hexception ⟨source, target, v, (hchange source).2 rfl, htarget, hv, hold⟩
      have hbuiltIn' := (htarget.isBuiltIn_eq h.built.new hw).symm.trans hbuiltIn
      exact Or.inr ⟨v.name, source, target, v, w, (hchange source).2 rfl, hv, hw, hold, hbuiltIn',
        htarget, rfl, fun heq => hne (heq ▸ hname)⟩

theorem tellOld_iff {subject : Subject} (hmem : subject ∈ c.oldSystem.definitions)
    (hold : subject ∉ c.newSystem.definitions) (hbuiltIn : subject.isBuiltIn = false) :
    TellOld (Analysis.ofFindings findings).changes subject ↔
      ¬ ∃ source target w, .changeVertex source target ∈ operations ∧
        c.oldGraph.IsSubject source subject ∧ c.newGraph.vertex? target = some w ∧
          w.isBuiltIn = true := by
  have hdefinition := TypeSystem.isDefinition_of_mem_definitions hmem
  obtain ⟨source, hsource⟩ := TypeSystem.exists_isSubject h.built.old hmem
  obtain ⟨v, hv, hkind, hname⟩ := hsource.exists_vertex?
  have hunique {source' : Nat} (hsource' : c.oldGraph.IsSubject source' subject) :
      source' = source := hsource'.id_eq_of_definition hsource h.built.old hdefinition
  unfold TellOld
  rw [h.removed_mem_iff hdefinition hbuiltIn]
  rcases h.deleted_or_changed hsource hdefinition hbuiltIn hold with
    ⟨hdeleted, hunchanged⟩ | ⟨hdeleted, target, w, hw, hwkind, hne, hchange⟩
  · refine iff_of_true (Or.inl ⟨source, hdeleted, hsource⟩) ?_
    rintro ⟨source', target, v, hchange, hsource', -⟩
    exact hunchanged target (hunique hsource' ▸ hchange)
  · constructor
    · rintro (⟨source', hdeleted', hsource'⟩ | ⟨newSubject, helement, hrenamed⟩)
      · exact absurd (hunique hsource' ▸ hdeleted') hdeleted
      · rintro ⟨source'', target'', w'', hchange'', hsource'', hw'', hbuiltIn'⟩
        obtain ⟨source', target', v', w', hchange', hv', hw', -, hnew, htarget', hname', -⟩ :=
          (h.renamed_iff (helement ▸ hdefinition)).1 hrenamed
        have hsource' := h.isSubject_of_changeVertex hdefinition hchange' hv' hw' htarget' helement
          hname'
        -- both changes are of the one vertex, which becomes one other
        rw [hunique hsource'] at hchange'
        rw [hunique hsource''] at hchange''
        obtain rfl := (hchange _).1 hchange'
        obtain rfl := (hchange _).1 hchange''
        cases hw'.symm.trans hw''
        rw [hnew] at hbuiltIn'
        cases hbuiltIn'
    · intro hexception
      have hnew : w.isBuiltIn = false := by
        rw [← Bool.not_eq_true]
        exact fun hnew => hexception ⟨source, target, w, (hchange target).2 rfl, hsource, hw, hnew⟩
      have hbuiltIn' := (hsource.isBuiltIn_eq h.built.old hv).symm.trans hbuiltIn
      obtain ⟨newSubject, -, htarget⟩ := h.built.exists_subject .new hw
      have helement : newSubject.element = subject.element := (htarget.kind_eq hw).symm.trans hwkind
      refine Or.inr ⟨newSubject, helement, (h.renamed_iff (helement ▸ hdefinition)).2 ?_⟩
      exact ⟨source, target, v, w, (hchange target).2 rfl, hv, hw, hbuiltIn', hnew, htarget, hname,
        hne⟩

end IsTelling

end Comparison

/-- Whatever the search may do, a definition that is new under its name is told by an event of its
kind unless the script makes it out of a built-in scalar, and one that is gone under its name unless
the script makes a built-in scalar out of it. -/
theorem definitions_are_told_unless_made_from_built_in_scalars {old new : TypeSystem}
    {oldGraph newGraph : Graph} (hold : Graph.ofTypeSystem old = .ok oldGraph)
    (hnew : Graph.ofTypeSystem new = .ok newGraph) (config : Config) (clock : Clock) :
    ∃ diff, Delta.between old new config clock = .ok diff ∧
      (∀ subject ∈ new.definitions, subject ∉ old.definitions → subject.isBuiltIn = false →
        (TellNew diff.changes subject ↔ ¬ ∃ source target v,
          .changeVertex source target ∈ (Script.between oldGraph newGraph config clock).operations ∧
            newGraph.IsSubject target subject ∧ oldGraph.vertex? source = some v ∧
              v.isBuiltIn = true)) ∧
      ∀ subject ∈ old.definitions, subject ∉ new.definitions → subject.isBuiltIn = false →
        (TellOld diff.changes subject ↔ ¬ ∃ source target w,
          .changeVertex source target ∈ (Script.between oldGraph newGraph config clock).operations ∧
            oldGraph.IsSubject source subject ∧ newGraph.vertex? target = some w ∧
              w.isBuiltIn = true) := by
  obtain ⟨m, kept, findings, htelling, hdiff⟩ := Delta.exists_between hold hnew config clock
  exact ⟨_, hdiff, fun _ => htelling.tellNew_iff, fun _ => htelling.tellOld_iff⟩

/-- Two documents: in one an object has a field of a built-in scalar, in the other there is a scalar
in place of that field. -/
theorem TypeSystem.ofDocument_field_or_scalar :
    TypeSystem.ofDocument "type Q { a: Int b: String }" =
      ⟨⟨[⟨"Q", none, [], .object [] [⟨"a", .named "Int", [], none, []⟩,
        ⟨"b", .named "String", [], none, []⟩]⟩], by decide⟩, .empty⟩ ∧
    TypeSystem.ofDocument "type Q { b: String } scalar Date" =
      ⟨⟨[⟨"Q", none, [], .object [] [⟨"b", .named "String", [], none, []⟩]⟩,
        ⟨"Date", none, [], .scalar⟩], by decide⟩, .empty⟩ := by
  decide +kernel

set_option maxRecDepth 20000 in
/-- A scalar that is defined where a built-in one is mentioned no more is not told of. -/
theorem a_scalar_made_from_a_built_in_one_is_not_told :
    let old : TypeSystem := .ofDocument "type Q { a: Int b: String }"
    let new : TypeSystem := .ofDocument "type Q { b: String } scalar Date"
    (Graph.ofTypeSystem old).toOption.isSome = true ∧
      (Graph.ofTypeSystem new).toOption.isSome = true ∧
      .definition .scalar "Date" ∈ new.definitions ∧ .definition .scalar "Date" ∉ old.definitions ∧
      isBuiltIn "Date" = false ∧
      ∃ diff, Delta.between old new .standard .stopped = .ok diff ∧
        ¬ TellNew diff.changes (.definition .scalar "Date") := by
  rw [TypeSystem.ofDocument_field_or_scalar.1, TypeSystem.ofDocument_field_or_scalar.2]
  intro old new
  have hdiff : (Delta.between old new .standard .stopped).toOption = some
      ⟨[.removed (.part .field "a" "Q")], [], false⟩ := by
    decide
  obtain ⟨oldGraph, newGraph, hold, hnew⟩ := Delta.exists_graphs_of_between hdiff
  rw [hold, hnew]
  refine ⟨rfl, rfl, by decide, by decide, by decide, _, eq_ok_of_toOption hdiff, ?_⟩
  simp [TellNew, Change.subject]

set_option maxRecDepth 20000 in
/-- There the script makes the scalar out of the built-in one. -/
theorem the_script_makes_a_scalar_from_a_built_in_one :
    let old : TypeSystem := .ofDocument "type Q { a: Int b: String }"
    let new : TypeSystem := .ofDocument "type Q { b: String } scalar Date"
    ∃ oldGraph newGraph source target v, Graph.ofTypeSystem old = .ok oldGraph ∧
      Graph.ofTypeSystem new = .ok newGraph ∧ .changeVertex source target ∈
        (Script.between oldGraph newGraph .standard .stopped).operations ∧
      newGraph.IsSubject target (.definition .scalar "Date") ∧
      oldGraph.vertex? source = some v ∧ v.isBuiltIn = true := by
  rw [TypeSystem.ofDocument_field_or_scalar.1, TypeSystem.ofDocument_field_or_scalar.2]
  intro old new
  have hdiff : (Delta.between old new .standard .stopped).toOption = some
      ⟨[.removed (.part .field "a" "Q")], [], false⟩ := by
    decide
  obtain ⟨oldGraph, newGraph, hold, hnew⟩ := Delta.exists_graphs_of_between hdiff
  obtain ⟨diff, hbetween, htold, -⟩ :=
    definitions_are_told_unless_made_from_built_in_scalars hold hnew .standard .stopped
  cases hbetween.symm.trans (eq_ok_of_toOption hdiff)
  have huntold : ¬ TellNew [.removed (.part .field "a" "Q")] (.definition .scalar "Date") := by
    simp [TellNew, Change.subject]
  rw [htold _ (by decide) (by decide) (by decide), not_not] at huntold
  obtain ⟨source, target, v, hchange, htarget, hv, hbuiltIn⟩ := huntold
  exact ⟨oldGraph, newGraph, source, target, v, hold, hnew, hchange, htarget, hv, hbuiltIn⟩

end SchemaDelta
