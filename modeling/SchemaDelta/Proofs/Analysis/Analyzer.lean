import SchemaDelta.Analysis.Analyzer
import SchemaDelta.Graph.Build
import SchemaDelta.Proofs.Analysis.Gathering
import SchemaDelta.Proofs.Lists

/-!
Steps that are told one after the other. A step adds what it comes to, and that depends on the marks
alone, which are set before the first step is told; so it makes no difference which steps were told
before. Details that are put under their names one by one are gathered by name in the end.
-/

namespace SchemaDelta

/-! ## Steps -/

namespace Analyzer

variable {c : Comparison} {operations : List Edit} {a : Analyzer}

/-- Adds what a step comes to. -/
def enter (a : Analyzer) : Finding → Analyzer
  | .nothing => a
  | .change event => a.tell event
  | .object name details => a.tellObject name details
  | .interface name details => a.tellInterface name details
  | .unclassified edge => a.keep edge

/-- Whether the vertices that come or go with some steps are marked. -/
def Marks (a : Analyzer) (operations : List Edit) : Prop :=
  ∀ side, a.isMarked side = comesOrGoes operations side

theorem Marks.enter (h : a.Marks operations) (finding : Finding) :
    (a.enter finding).Marks operations := by
  intro side
  rw [← h side]
  cases finding <;> cases side <;> rfl

theorem foldl_mark_isMarked (operations : List Edit) (a : Analyzer) (side : Side) (id : Nat) :
    (operations.foldl mark a).isMarked side id =
      (comesOrGoes operations side id || a.isMarked side id) := by
  induction operations generalizing a with
  | nil => cases side <;> rfl
  | cons operation rest ih =>
    rw [List.foldl_cons, ih, Bool.eq_iff_iff]
    cases operation <;> cases side <;> simp [mark, isMarked, comesOrGoes, or_left_comm, or_assoc]

/-- Nothing is told by the marks. -/
theorem exists_foldl_mark_eq (operations : List Edit) (a : Analyzer) : ∃ inserted deleted,
    operations.foldl mark a = { a with inserted := inserted, deleted := deleted } := by
  induction operations generalizing a with
  | nil => exact ⟨_, _, rfl⟩
  | cons operation rest ih =>
    obtain ⟨inserted, deleted, hrest⟩ := ih (a.mark operation)
    refine ⟨inserted, deleted, hrest.trans ?_⟩
    cases operation <;> rfl

theorem vertexStep_eq (h : a.Marks operations) (operation : EditKind) (side : Side)
    (event : Subject → Change) (id : Nat) : a.vertexStep c operation side event id =
      (c.vertexFinding operations operation side event id).map a.enter := by
  unfold vertexStep Comparison.vertexFinding Comparison.isCovered
  rw [h side]
  refine bind_eq_map_bind fun v => ?_
  cases v.isBuiltIn with
  | true => rfl
  | false =>
    cases !c.reportsNested side &&
        ((c.graph side).allAncestors id).any (comesOrGoes operations side) with
    | true => rfl
    | false => exact bind_eq_map_bind fun _ => bind_eq_map_bind fun subject => rfl

theorem tellRevised_eq (a : Analyzer) (details : List Revision) (subject : Subject) :
    a.tellRevised details subject = a.enter (Comparison.revisionFinding details subject) := by
  cases subject with
  | object name => rfl
  | definition kind name => cases kind <;> rfl
  | part kind name owner => rfl

theorem changedVertexStep_eq (a : Analyzer) (source target : Nat) :
    a.changedVertexStep c source target = (c.changedVertexFinding source target).map a.enter := by
  refine bind_eq_map_bind fun v => bind_eq_map_bind fun w => ?_
  split
  · rfl
  · refine bind_eq_map_bind fun _ => ?_
    dsimp only
    split
    · rfl
    · exact bind_eq_map_bind fun subject => congrArg Except.ok (a.tellRevised_eq _ subject)

theorem unclassifiedStep_eq (a : Analyzer) (operation : EditKind) (side : Side) (e : Edge)
    (oldLabel : Option String) : a.unclassifiedStep c operation side e oldLabel =
      (c.unclassifiedFinding operation side e oldLabel).map a.enter :=
  bind_eq_map_bind fun _ => bind_eq_map_bind fun _ => rfl

theorem edgeStep_eq (h : a.Marks operations) (operation : EditKind) (side : Side) (e : Edge) :
    a.edgeStep c operation side e = (c.edgeFinding operations operation side e).map a.enter := by
  unfold edgeStep Comparison.edgeFinding
  rw [h side]
  split
  · rfl
  · exact a.unclassifiedStep_eq operation side e none

theorem insertedEdgeStep_eq (h : a.Marks operations) (target : Nat) :
    a.insertedEdgeStep c target = (c.insertedEdgeFinding operations target).map a.enter := by
  refine bind_eq_map_bind fun e => ?_
  unfold implementsStep
  rw [h .new]
  split
  · refine bind_eq_map_bind fun one => bind_eq_map_bind fun two => ?_
    cases Comparison.objectAndInterface? e one two with
    | none => exact edgeStep_eq h .insertEdge .new e
    | some ends =>
      dsimp only
      split <;> rfl
  · exact edgeStep_eq h .insertEdge .new e

theorem deletedEdgeStep_eq (h : a.Marks operations) (source : Nat) :
    a.deletedEdgeStep c source = (c.deletedEdgeFinding operations source).map a.enter :=
  bind_eq_map_bind fun e => edgeStep_eq h .deleteEdge .old e

theorem changedEdgeStep_eq (a : Analyzer) (source target : Nat) :
    a.changedEdgeStep c source target = (c.changedEdgeFinding source target).map a.enter :=
  bind_eq_map_bind fun e => bind_eq_map_bind fun e' =>
    a.unclassifiedStep_eq .changeEdge .new e' (some e.label)

/-- A step adds what it comes to, whatever the steps before it have told. -/
theorem step_eq (h : a.Marks operations) (operation : Edit) :
    a.step c operation = (c.finding operations operation).map a.enter := by
  cases operation with
  | insertVertex target => exact vertexStep_eq h .insertVertex .new .added target
  | deleteVertex source => exact vertexStep_eq h .deleteVertex .old .removed source
  | changeVertex source target => exact a.changedVertexStep_eq source target
  | insertEdge target => exact insertedEdgeStep_eq h target
  | deleteEdge source => exact deletedEdgeStep_eq h source
  | changeEdge source target => exact a.changedEdgeStep_eq source target

theorem foldlM_step_eq (h : a.Marks operations) (rest : List Edit) :
    rest.foldlM (step c) a = (rest.mapM (c.finding operations)).map (List.foldl enter a) := by
  induction rest generalizing a with
  | nil => rfl
  | cons operation rest ih =>
    rw [List.foldlM_cons, List.mapM_cons, step_eq h]
    cases hfinding : c.finding operations operation with
    | error e => rfl
    | ok finding =>
      have hrest := ih (h.enter finding)
      change rest.foldlM (step c) (a.enter finding) = _
      rw [hrest]
      cases rest.mapM (c.finding operations) with
      | error e => rfl
      | ok findings => rfl

end Analyzer

/-! ## Details by name -/

section PutUnder

variable {δ : Type}

theorem putUnder_map {names : List String} (hnodup : names.Nodup) {details : String → List δ}
    {name : String} (hnone : name ∉ names → details name = []) (more : List δ) :
    putUnder name more (names.map fun other => (other, details other)) =
      (if name ∈ names then names else names ++ [name]).map fun other =>
        (other, if name = other then details other ++ more else details other) := by
  induction names with
  | nil => simp [putUnder, hnone]
  | cons first rest ih =>
    obtain ⟨hfirst, hrest⟩ := List.nodup_cons.1 hnodup
    rw [List.map_cons, putUnder]
    by_cases heq : first = name
    · subst heq
      -- a name that is there is there once
      have hothers : rest.map (fun other => (other, details other)) = rest.map fun other =>
          (other, if first = other then details other ++ more else details other) :=
        List.map_congr_left fun other hother => by
          rw [if_neg fun heq : first = other => hfirst (heq ▸ hother)]
      simp [hothers]
    · have hmem : name ∈ first :: rest ↔ name ∈ rest := by simp [Ne.symm heq]
      rw [if_neg heq, ih hrest fun hnot => hnone (mt hmem.1 hnot)]
      simp only [hmem]
      split <;> simp [Ne.symm heq]

theorem gathered_concat (entries : List (String × List δ)) (entry : String × List δ) :
    gathered (entries ++ [entry]) = putUnder entry.1 entry.2 (gathered entries) := by
  unfold gathered
  rw [putUnder_map (nodup_eraseDups _) fun hnot => ?_, List.map_append, List.map_singleton,
    eraseDups_concat]
  · simp only [List.mem_eraseDups]
    refine List.map_congr_left fun other _ => ?_
    by_cases heq : entry.1 = other <;> simp [heq]
  · rw [List.mem_eraseDups] at hnot
    rw [List.filter_eq_nil_iff.2 fun other hother heq =>
      hnot (List.mem_map.2 ⟨other, hother, beq_iff_eq.1 heq⟩)]
    rfl

/-- Details that are put under their names one after the other are gathered. -/
theorem foldl_putUnder (entries : List (String × List δ)) :
    entries.foldl (fun found entry => putUnder entry.1 entry.2 found) [] = gathered entries := by
  induction entries using List.reverseRecOn with
  | nil => rfl
  | append_singleton entries entry ih =>
    rw [List.foldl_append, List.foldl_cons, List.foldl_nil, ih, gathered_concat]

end PutUnder

namespace Analyzer

theorem foldl_enter (findings : List Finding) (a : Analyzer) : findings.foldl enter a =
    { a with
      changes := a.changes ++ findings.filterMap Finding.change?
      objects := (findings.filterMap Finding.object?).foldl
        (fun found entry => putUnder entry.1 entry.2 found) a.objects
      interfaces := (findings.filterMap Finding.interface?).foldl
        (fun found entry => putUnder entry.1 entry.2 found) a.interfaces
      unclassified := a.unclassified ++ findings.filterMap Finding.unclassified? } := by
  induction findings generalizing a with
  | nil => simp
  | cons finding findings ih =>
    rw [List.foldl_cons, ih]
    cases finding <;> simp [enter, tell, tellObject, tellInterface, keep, List.filterMap_cons,
      Finding.change?, Finding.object?, Finding.interface?, Finding.unclassified?]

end Analyzer

variable {c : Comparison} {operations operations' : List Edit}

/-- What is told step by step is what the findings of all steps add up to. -/
theorem Comparison.analyzeInTurn_eq (c : Comparison) (operations : List Edit) :
    c.analyzeInTurn operations = c.analyze operations := by
  have hmarks : (operations.foldl Analyzer.mark .empty).Marks operations := by
    intro side
    funext id
    rw [Analyzer.foldl_mark_isMarked]
    cases side <;> exact Bool.or_false _
  obtain ⟨inserted, deleted, hmarked⟩ := Analyzer.exists_foldl_mark_eq operations .empty
  unfold analyzeInTurn analyze
  dsimp only
  rw [Analyzer.foldlM_step_eq hmarks]
  cases operations.mapM (c.finding operations) with
  | error e => rfl
  | ok findings =>
    change Except.ok (findings.foldl Analyzer.enter _).analysis = .ok _
    rw [hmarked, Analyzer.foldl_enter, Analyzer.analysis]
    simp only [Analyzer.empty, List.nil_append, foldl_putUnder]
    rfl

/-! ## What single steps contribute -/

/-- Whether an event is put together from all that is told of an object or an interface. -/
def Change.isComposite : Change → Bool
  | objectChanged _ _ => true
  | definitionChanged .interface _ _ => true
  | _ => false

/-- Whether what a step comes to is an event that it makes by itself or some details. -/
def Finding.IsSound : Finding → Prop
  | nothing => True
  | change event => event.isComposite = false
  | object _ details => details ≠ []
  | interface _ details => details ≠ []
  | unclassified _ => True

namespace Comparison

theorem vertexFinding_isSound (operation : EditKind) (side : Side) {event : Subject → Change}
    (hevent : ∀ subject, (event subject).isComposite = false) (id : Nat) :
    Yields (c.vertexFinding operations operation side event id) Finding.IsSound := by
  refine yields_bind fun v => ?_
  split
  · exact yields_ok trivial
  · exact yields_bind fun _ => yields_bind fun subject => yields_ok (hevent subject)

theorem revisionFinding_isSound {details : List Revision} (h : details ≠ []) (subject : Subject) :
    (revisionFinding details subject).IsSound := by
  cases subject with
  | object name => simpa [revisionFinding, Finding.IsSound] using h
  | definition kind name => cases kind <;> first | exact h | rfl
  | part kind name owner => rfl

theorem changedVertexFinding_isSound (source target : Nat) :
    Yields (c.changedVertexFinding source target) Finding.IsSound := by
  refine yields_bind fun v => yields_bind fun w => ?_
  dsimp only
  split
  · exact yields_ok trivial
  · refine yields_bind fun _ => ?_
    split
    · exact yields_ok trivial
    · next hdetails =>
      exact yields_bind fun subject => yields_ok (revisionFinding_isSound
        (by simpa using hdetails) subject)

theorem unclassifiedFinding_isSound (operation : EditKind) (side : Side) (e : Edge)
    (oldLabel : Option String) :
    Yields (c.unclassifiedFinding operation side e oldLabel) Finding.IsSound :=
  yields_bind fun _ => yields_bind fun _ => yields_ok trivial

theorem edgeFinding_isSound (operation : EditKind) (side : Side) (e : Edge) :
    Yields (c.edgeFinding operations operation side e) Finding.IsSound := by
  unfold edgeFinding
  split
  · exact yields_ok trivial
  · exact unclassifiedFinding_isSound operation side e none

theorem insertedEdgeFinding_isSound (target : Nat) :
    Yields (c.insertedEdgeFinding operations target) Finding.IsSound := by
  refine yields_bind fun e => ?_
  split
  · refine yields_bind fun one => yields_bind fun two => ?_
    split
    · exact edgeFinding_isSound .insertEdge .new e
    · split
      · exact yields_ok trivial
      · exact yields_ok (List.cons_ne_nil _ _)
  · exact edgeFinding_isSound .insertEdge .new e

theorem finding_isSound (operation : Edit) :
    Yields (c.finding operations operation) Finding.IsSound := by
  cases operation with
  | insertVertex target => exact vertexFinding_isSound .insertVertex .new (fun _ => rfl) target
  | deleteVertex source => exact vertexFinding_isSound .deleteVertex .old (fun _ => rfl) source
  | changeVertex source target => exact changedVertexFinding_isSound source target
  | insertEdge target => exact insertedEdgeFinding_isSound target
  | deleteEdge source => exact yields_bind fun e => edgeFinding_isSound .deleteEdge .old e
  | changeEdge source target =>
    exact yields_bind fun e => yields_bind fun e' =>
      unclassifiedFinding_isSound .changeEdge .new e' (some e.label)

/-- What a step comes to does not depend on the order of the steps. -/
theorem finding_eq_of_perm (c : Comparison) (hperm : operations.Perm operations') :
    c.finding operations = c.finding operations' := by
  have hends : comesOrGoes operations = comesOrGoes operations' := by
    funext side id
    cases side <;> simp [comesOrGoes, hperm.mem_iff]
  unfold finding vertexFinding isCovered insertedEdgeFinding deletedEdgeFinding edgeFinding
  rw [hends]

end Comparison

/-! ## What all steps add up to -/

section AreGathered

variable {δ : Type} {entries entries' found found' : List (String × List δ)}

/-- Whether details are put together: the names in the order in which they come first, each of them
once, with some details, which are all that there are under the name in order. -/
structure AreGathered (entries found : List (String × List δ)) : Prop where
  names : found.map (·.1) = (entries.map (·.1)).eraseDups
  details : ∀ name details, (name, details) ∈ found →
    details = (entries.filter fun entry => entry.1 == name).flatMap (·.2)
  nonempty : ∀ name details, (name, details) ∈ found → details ≠ []

theorem areGathered (h : ∀ entry ∈ entries, entry.2 ≠ []) :
    AreGathered entries (gathered entries) := by
  have hdetails : ∀ name details, (name, details) ∈ gathered entries →
      details = (entries.filter fun entry => entry.1 == name).flatMap (·.2) := by
    intro name details hmem
    obtain ⟨_, -, heq⟩ := List.mem_map.1 hmem
    cases heq
    rfl
  refine ⟨names_gathered entries, hdetails, fun name details hmem hnil => ?_⟩
  obtain ⟨_, hname, heq⟩ := List.mem_map.1 hmem
  obtain ⟨entry, hentry, rfl⟩ := List.mem_map.1 (List.mem_eraseDups.1 hname)
  cases heq
  -- the entry that brings the name brings details too
  exact h entry hentry (List.flatMap_eq_nil_iff.1 hnil entry (List.mem_filter.2 ⟨hentry, by simp⟩))

theorem AreGathered.exists_perm (h : AreGathered entries found) (h' : AreGathered entries' found')
    (hperm : entries.Perm entries') {name : String} {details : List δ}
    (hmem : (name, details) ∈ found) :
    ∃ details', (name, details') ∈ found' ∧ details.Perm details' := by
  have hname : name ∈ found'.map (·.1) := by
    rw [h'.names, List.mem_eraseDups, ← (hperm.map (·.1)).mem_iff, ← List.mem_eraseDups, ← h.names]
    exact List.mem_map_of_mem hmem
  obtain ⟨⟨_, details'⟩, hmem', rfl⟩ := List.mem_map.1 hname
  refine ⟨details', hmem', ?_⟩
  rw [h.details _ _ hmem, h'.details _ _ hmem']
  exact (hperm.filter _).flatMap_right _

end AreGathered

namespace Analysis

variable {analysis analysis' : Analysis} {findings findings' : List Finding}

/-! ### Events in their order -/

section Joined

variable {simple : List Change} {objects : List (String × List ObjectDetail)}
  {interfaces : List (String × List Revision)}

/-- Events of single steps, then an event for each of some objects, then one for each of some
interfaces. -/
def joined (simple : List Change) (objects : List (String × List ObjectDetail))
    (interfaces : List (String × List Revision)) : List Change :=
  simple ++ objects.map (fun (name, details) => .objectChanged name details)
    ++ interfaces.map fun (name, details) => .definitionChanged .interface name details

theorem filter_joined (h : ∀ event ∈ simple, event.isComposite = false) :
    (joined simple objects interfaces).filter (fun event => !event.isComposite) = simple := by
  simpa [joined, List.filter_append, List.filter_map, Function.comp_def, Change.isComposite] using h

theorem objectChanged_mem_joined (h : ∀ event ∈ simple, event.isComposite = false) {name : String}
    {details : List ObjectDetail} :
    .objectChanged name details ∈ joined simple objects interfaces ↔ (name, details) ∈ objects := by
  have hnot : Change.objectChanged name details ∉ simple := fun hmem => by cases h _ hmem
  simp [joined, hnot]

theorem interfaceChanged_mem_joined (h : ∀ event ∈ simple, event.isComposite = false)
    {name : String} {details : List Revision} :
    .definitionChanged .interface name details ∈ joined simple objects interfaces ↔
      (name, details) ∈ interfaces := by
  have hnot : Change.definitionChanged .interface name details ∉ simple :=
    fun hmem => by cases h _ hmem
  simp [joined, hnot]

end Joined

/-- Whether findings are told: the events that the steps make by themselves in the order of the
steps, then an event for each object and then one for each interface of which anything is told, and
besides the edges for which there are no events, in the order of the steps too. -/
def TellsInOrder (analysis : Analysis) (findings : List Finding) : Prop :=
  ∃ objects interfaces,
    (∀ event ∈ findings.filterMap Finding.change?, event.isComposite = false) ∧
    AreGathered (findings.filterMap Finding.object?) objects ∧
    AreGathered (findings.filterMap Finding.interface?) interfaces ∧
    analysis.changes = joined (findings.filterMap Finding.change?) objects interfaces ∧
    analysis.unclassified = findings.filterMap Finding.unclassified?

/-- Whether everything that one analysis tells is told by another too, in whatever order. -/
structure IsRearranged (analysis analysis' : Analysis) : Prop where
  simple : (analysis.changes.filter fun event => !event.isComposite).Perm
    (analysis'.changes.filter fun event => !event.isComposite)
  objects : ∀ name details, .objectChanged name details ∈ analysis.changes →
    ∃ details', .objectChanged name details' ∈ analysis'.changes ∧ details.Perm details'
  interfaces : ∀ name details, .definitionChanged .interface name details ∈ analysis.changes →
    ∃ details', .definitionChanged .interface name details' ∈ analysis'.changes ∧
      details.Perm details'
  unclassified : analysis.unclassified.Perm analysis'.unclassified

theorem tellsInOrder (h : ∀ finding ∈ findings, finding.IsSound) :
    (ofFindings findings).TellsInOrder findings := by
  refine ⟨_, _, fun event hevent => ?_, areGathered fun entry hentry => ?_,
    areGathered fun entry hentry => ?_, rfl, rfl⟩
  · obtain ⟨finding, hmem, heq⟩ := List.mem_filterMap.1 hevent
    cases finding <;> cases heq
    exact h _ hmem
  · obtain ⟨finding, hmem, heq⟩ := List.mem_filterMap.1 hentry
    cases finding <;> cases heq
    exact h _ hmem
  · obtain ⟨finding, hmem, heq⟩ := List.mem_filterMap.1 hentry
    cases finding <;> cases heq
    exact h _ hmem

theorem TellsInOrder.isRearranged (h : analysis.TellsInOrder findings)
    (h' : analysis'.TellsInOrder findings') (hperm : findings.Perm findings') :
    analysis.IsRearranged analysis' := by
  obtain ⟨objects, interfaces, hsimple, hobjects, hinterfaces, hchanges, hunclassified⟩ := h
  obtain ⟨objects', interfaces', hsimple', hobjects', hinterfaces', hchanges', hunclassified'⟩ := h'
  constructor
  · rw [hchanges, hchanges', filter_joined hsimple, filter_joined hsimple']
    exact hperm.filterMap _
  · intro name details hmem
    rw [hchanges, objectChanged_mem_joined hsimple] at hmem
    obtain ⟨details', hmem', hdetails⟩ := hobjects.exists_perm hobjects' (hperm.filterMap _) hmem
    exact ⟨details', by rwa [hchanges', objectChanged_mem_joined hsimple'], hdetails⟩
  · intro name details hmem
    rw [hchanges, interfaceChanged_mem_joined hsimple] at hmem
    obtain ⟨details', hmem', hdetails⟩ :=
      hinterfaces.exists_perm hinterfaces' (hperm.filterMap _) hmem
    exact ⟨details', by rwa [hchanges', interfaceChanged_mem_joined hsimple'], hdetails⟩
  · rw [hunclassified, hunclassified']
    exact hperm.filterMap _

end Analysis

/-! ## Steps in any order -/

/-- Steps that can be told are told as what they come to, in their order. -/
theorem Comparison.analyze_tellsInOrder {analysis : Analysis}
    (h : c.analyze operations = .ok analysis) : ∃ findings,
      operations.mapM (c.finding operations) = .ok findings ∧ analysis = .ofFindings findings ∧
        analysis.TellsInOrder findings := by
  cases hfindings : operations.mapM (c.finding operations) with
  | error e =>
    unfold analyze at h
    rw [hfindings] at h
    cases h
  | ok findings =>
    unfold analyze at h
    rw [hfindings] at h
    cases h
    refine ⟨findings, rfl, rfl, Analysis.tellsInOrder fun finding hmem => ?_⟩
    obtain ⟨operation, -, hfinding⟩ := exists_mem_left_of_forall₂ (mapM_eq_ok_iff.1 hfindings) hmem
    exact finding_isSound operation finding hfinding

theorem Comparison.exists_analyze_of_perm (hperm : operations.Perm operations')
    {analysis : Analysis} (h : c.analyze operations = .ok analysis) :
    ∃ analysis', c.analyze operations' = .ok analysis' ∧ analysis.IsRearranged analysis' ∧
      analysis'.IsRearranged analysis := by
  obtain ⟨findings, hfindings, -, htells⟩ := analyze_tellsInOrder h
  obtain ⟨findings', hfindings', hrearranged⟩ := exists_mapM_of_perm hperm hfindings
  have h' : c.analyze operations' = .ok (.ofFindings findings') := by
    unfold analyze
    rw [← c.finding_eq_of_perm hperm, hfindings']
    rfl
  obtain ⟨_, hagain, -, htells'⟩ := analyze_tellsInOrder h'
  rw [← c.finding_eq_of_perm hperm, hfindings'] at hagain
  cases hagain
  exact ⟨_, h', htells.isRearranged htells' hrearranged,
    htells'.isRearranged htells hrearranged.symm⟩

/-- Steps can be told in any order or in none. In each order they tell the same, except that events
and details come in the order of their steps. -/
theorem steps_tell_the_same_in_any_order (c : Comparison) {operations operations' : List Edit}
    (hperm : operations.Perm operations') :
    c.analyzeInTurn operations = c.analyze operations ∧
    ((c.analyze operations).isOk = true ↔ (c.analyze operations').isOk = true) ∧
    ∀ analysis, c.analyze operations = .ok analysis →
      (∃ findings,
        List.Forall₂ (fun operation finding => c.finding operations operation = .ok finding ∧
          c.finding operations' operation = .ok finding) operations findings ∧
        analysis.TellsInOrder findings) ∧
      ∃ analysis', c.analyze operations' = .ok analysis' ∧ analysis.IsRearranged analysis' ∧
        analysis'.IsRearranged analysis := by
  have hok : ∀ {operations operations' : List Edit}, operations.Perm operations' →
      (c.analyze operations).isOk = true → (c.analyze operations').isOk = true := by
    intro operations operations' hperm hok
    cases h : c.analyze operations with
    | error e =>
      rw [h] at hok
      cases hok
    | ok analysis =>
      obtain ⟨analysis', h', -⟩ := Comparison.exists_analyze_of_perm hperm h
      rw [h']
      rfl
  refine ⟨c.analyzeInTurn_eq operations, ⟨hok hperm, hok hperm.symm⟩, fun analysis h => ?_⟩
  obtain ⟨findings, hfindings, -, htells⟩ := Comparison.analyze_tellsInOrder h
  refine ⟨⟨findings, ?_, htells⟩, Comparison.exists_analyze_of_perm hperm h⟩
  rw [← c.finding_eq_of_perm hperm]
  exact (mapM_eq_ok_iff.1 hfindings).imp fun _ _ hfinding => ⟨hfinding, hfinding⟩

set_option maxRecDepth 20000 in
/-- Objects and interfaces that change come after what is told at once, and the revisions of an
object in the order of the steps. -/
theorem steps_tell_the_same_in_any_order_of_a_renamed_object_that_gains_an_interface :
    let old : TypeSystem :=
      ⟨⟨[⟨"Old", none, [], .object [] []⟩, ⟨"I", none, [], .interface [] []⟩], by decide⟩, .empty⟩
    let new : TypeSystem :=
      ⟨⟨[⟨"New", none, [], .object ["I"] []⟩, ⟨"I", some "An interface", [], .interface [] []⟩,
        ⟨"Date", none, [], .scalar⟩], by decide⟩, .empty⟩
    let c : Comparison := ⟨old, new, (Graph.ofTypeSystem old).toOption.getD default,
      (Graph.ofTypeSystem new).toOption.getD default, false, false⟩
    let operations : List Edit :=
      [.changeVertex 1 1, .changeVertex 0 0, .insertVertex 2, .insertEdge 0]
    let told (details : List ObjectDetail) : Analysis :=
      ⟨[.added (.definition .scalar "Date"), .objectChanged "New" details,
        .definitionChanged .interface "I"
          [.propertyChanged ⟨"description", none, some "An interface"⟩]], []⟩
    operations.Perm operations.reverse ∧
      c.analyzeInTurn operations =
        .ok (told [.revised (.renamed "Old"), .addedInterface "I"]) ∧
      c.analyzeInTurn operations.reverse =
        .ok (told [.addedInterface "I", .revised (.renamed "Old")]) ∧
      (told [.revised (.renamed "Old"), .addedInterface "I"]).IsRearranged
        (told [.addedInterface "I", .revised (.renamed "Old")]) := by
  intro old new c operations told
  have hperm : operations.Perm operations.reverse := (List.reverse_perm operations).symm
  have h : c.analyze operations = .ok (told [.revised (.renamed "Old"), .addedInterface "I"]) :=
    eq_ok_of_toOption (by decide)
  have h' : c.analyze operations.reverse =
      .ok (told [.addedInterface "I", .revised (.renamed "Old")]) :=
    eq_ok_of_toOption (by decide)
  obtain ⟨hturn, -, htold⟩ := steps_tell_the_same_in_any_order c hperm
  obtain ⟨hturn', -, -⟩ := steps_tell_the_same_in_any_order c hperm.symm
  obtain ⟨-, analysis', hanalysis', hrearranged, -⟩ := htold _ h
  cases h'.symm.trans hanalysis'
  exact ⟨hperm, hturn.trans h, hturn'.trans h', hrearranged⟩

end SchemaDelta
