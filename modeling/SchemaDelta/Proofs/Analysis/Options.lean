import SchemaDelta.Proofs.Analysis.Failures

/-!
What is asked for besides. Where what is inside definitions is reported too, all that is reported
without it still is, in the same order. New objects may be told to gain interfaces then; nothing was
told under their names before, so that what is told of other objects stays as it is.
-/

namespace SchemaDelta

/-! ## Details under some of the names -/

theorem gathered_filter {δ : Type} (isTold : String → Bool) (entries : List (String × List δ)) :
    gathered (entries.filter fun entry => isTold entry.1) =
      (gathered entries).filter fun entry => isTold entry.1 := by
  have hnames : (entries.filter fun entry => isTold entry.1).map (·.1) =
      (entries.map (·.1)).filter isTold := by
    rw [List.filter_map]
    rfl
  unfold gathered
  rw [hnames, eraseDups_filter, List.filter_map]
  refine List.map_congr_left fun name hname => ?_
  have htold : isTold name = true := (List.mem_filter.1 hname).2
  -- what is left out has other names
  rw [List.filter_filter, List.filter_congr (q := fun entry => entry.1 == name)]
  intro entry _
  by_cases heq : entry.1 = name <;> simp [heq, htold]

/-! ## Findings -/

/-- Whether a finding tells what another does, except that an event may be missing and that what the
other tells of objects is left out for some of their names. -/
structure Finding.IsQuieter (isTold : String → Bool) (finding louder : Finding) : Prop where
  change : finding.change? = none ∨ finding.change? = louder.change?
  object : finding.object? = louder.object?.filter fun entry => isTold entry.1
  interface : finding.interface? = louder.interface?
  unclassified : finding.unclassified? = louder.unclassified?

namespace Finding

variable {isTold : String → Bool}

theorem IsQuieter.of_object {finding : Finding}
    (h : ∀ name details, finding = .object name details → isTold name = true) :
    finding.IsQuieter isTold finding := by
  refine ⟨Or.inr rfl, ?_, rfl, rfl⟩
  cases finding with
  | object name details => simp [object?, Option.filter, h name details rfl]
  | _ => rfl

/-- What is told unless it is covered is told too where less is covered. -/
theorem IsQuieter.ite {finding : Finding} {isCovered isCovered' : Bool}
    (hless : isCovered' = true → isCovered = true)
    (hsame : isCovered = false → finding.IsQuieter isTold finding)
    (hmore : isCovered = true → nothing.IsQuieter isTold finding) :
    (if isCovered then nothing else finding).IsQuieter isTold
      (if isCovered' then nothing else finding) := by
  cases isCovered with
  | false =>
    rw [Bool.eq_false_iff.2 (mt hless Bool.false_ne_true)]
    exact hsame rfl
  | true =>
    cases isCovered' with
    | false => exact hmore rfl
    | true => exact .of_object fun _ _ heq => nomatch heq

end Finding

namespace Analysis

variable {isTold : String → Bool} {findings louder : List Finding}

theorem sublist_of_isQuieter (h : List.Forall₂ (Finding.IsQuieter isTold) findings louder) :
    (findings.filterMap Finding.change?).Sublist (louder.filterMap Finding.change?) := by
  induction h with
  | nil => exact .slnil
  | @cons finding finding' _ _ hquieter _ ih =>
    rcases hquieter.change with hnone | heq
    · rw [List.filterMap_cons_none hnone, List.filterMap_cons]
      split
      · exact ih
      · exact ih.cons _
    · rw [List.filterMap_cons, List.filterMap_cons, heq]
      split
      · exact ih
      · exact ih.cons_cons _

/-- Quieter findings add up to some of the events, and to the same besides. -/
theorem ofFindings_of_isQuieter (h : List.Forall₂ (Finding.IsQuieter isTold) findings louder) :
    (ofFindings findings).changes.Sublist (ofFindings louder).changes ∧
      (ofFindings findings).unclassified = (ofFindings louder).unclassified := by
  have hobjects : findings.filterMap Finding.object? =
      (louder.filterMap Finding.object?).filter fun entry => isTold entry.1 := by
    rw [List.filter_filterMap]
    exact filterMap_eq_of_forall₂ h fun _ _ hquieter => hquieter.object
  have hinterfaces : findings.filterMap Finding.interface? = louder.filterMap Finding.interface? :=
    filterMap_eq_of_forall₂ h fun _ _ hquieter => hquieter.interface
  refine ⟨?_, filterMap_eq_of_forall₂ h fun _ _ hquieter => hquieter.unclassified⟩
  unfold ofFindings
  rw [hobjects, hinterfaces, gathered_filter]
  exact ((sublist_of_isQuieter h).append (List.filter_sublist.map _)).append_right _

end Analysis

/-! ## Steps -/

namespace Comparison

variable {c : Comparison} {operations : List Edit}

/-- The same two schemas, with what is inside added or removed definitions reported besides. -/
def alsoReporting (c : Comparison) (additions removals : Bool) : Comparison :=
  { c with additions := c.additions || additions, removals := c.removals || removals }

/-- Whether an object of some name comes. -/
def objectComes (c : Comparison) (operations : List Edit) (name : String) : Bool :=
  operations.any fun
    | .insertVertex target =>
      (c.newGraph.vertex? target).any fun v => v.kind = .object && v.name = name
    | _ => false

/-- Whether what a step tells of an object of some name is told whatever else is asked for. -/
def isToldAnyway (c : Comparison) (operations : List Edit) (name : String) : Bool :=
  c.additions || !c.objectComes operations name

theorem objectComes_eq (h : c.IsBuilt) {id : Nat} {v : Vertex}
    (hv : c.newGraph.vertex? id = some v) (hobject : v.kind = .object) :
    c.objectComes operations v.name = comesOrGoes operations .new id := by
  rw [Bool.eq_iff_iff, comesOrGoes_new]
  unfold objectComes
  rw [List.any_eq_true]
  constructor
  · rintro ⟨operation, hmem, hcomes⟩
    cases operation with
    | insertVertex target =>
      obtain ⟨w, hw, hnamed⟩ := (Option.any_eq_true _ _).1 hcomes
      rw [Bool.and_eq_true, decide_eq_true_iff, decide_eq_true_iff] at hnamed
      -- there is only one object of that name
      have hsame : Graph.IsSubject c.newGraph target (.object v.name) :=
        hnamed.2 ▸ .object hw hnamed.1
      rwa [(Graph.IsSubject.object hv hobject).id_eq_of_definition hsame h.new rfl]
    | _ => cases hcomes
  · intro hmem
    exact ⟨_, hmem, by simp [hv, hobject]⟩

theorem vertex?_of_objectAndInterface? {g : Graph} {e : Edge} {one two object interface : Vertex}
    {id : Nat} (hone : g.vertex? e.one = some one) (htwo : g.vertex? e.two = some two)
    (hends : objectAndInterface? e one two = some (id, object, interface)) :
    g.vertex? id = some object := by
  rcases eq_of_objectAndInterface? hends with ⟨rfl, rfl, -⟩ | ⟨rfl, rfl, -⟩
  · exact hone
  · exact htwo

variable {m kept : Matching} {additions removals : Bool}

/-- What a step tells of an object is told whatever else is asked for. -/
theorem Tells.isToldAnyway (h : c.IsBuilt)
    (haccount : AccountFor operations c.oldGraph c.newGraph m kept) {operation : Edit}
    (hmem : operation ∈ operations) {name : String} {details : List ObjectDetail}
    (htells : c.Tells operations operation (.object name details)) :
    c.isToldAnyway operations name = true := by
  have hobject : ∃ id v, c.newGraph.vertex? id = some v ∧ v.kind = .object ∧ v.name = name ∧
      (c.additions = true ∨ comesOrGoes operations .new id = false) := by
    generalize hfinding : Finding.object name details = finding at htells
    cases htells with
    | @revised _ target _ _ subject _ _ _ _ _ hsubject =>
      cases subject with
      | object =>
        cases hfinding
        cases hsubject with
        | object hw hkind =>
          -- what was there before does not come
          refine ⟨_, _, hw, hkind, rfl, Or.inr (Bool.eq_false_iff.2 fun hcomes => ?_)⟩
          obtain ⟨hpair, -⟩ := (haccount.changeVertex_mem_iff _ _).1 hmem
          exact ((haccount.insertVertex_mem_iff _).1 (comesOrGoes_new.1 hcomes)).2 _ hpair
      | definition kind => cases kind <;> cases hfinding
      | part => cases hfinding
    | gainedInterface _ _ hone htwo hends hreported =>
      cases hfinding
      exact ⟨_, _, vertex?_of_objectAndInterface? hone htwo hends,
        (kind_of_objectAndInterface? hends).1, rfl, hreported⟩
    | _ => cases hfinding
  obtain ⟨id, v, hv, hkind, rfl, htold⟩ := hobject
  rw [Comparison.isToldAnyway, objectComes_eq h hv hkind]
  rcases htold with htold | htold <;> simp [htold]

/-- A vertex that comes or goes is told if it is told with less asked for. -/
theorem IsBuilt.vertexFinding_isQuieter (h : c.IsBuilt) {isTold : String → Bool}
    {operation : EditKind} {event : Subject → Change} {id : Nat} {v : Vertex} (side : Side)
    (hv : (c.graph side).vertex? id = some v) {finding louder : Finding}
    (hfinding : c.vertexFinding operations operation side event id = .ok finding)
    (hlouder : (c.alsoReporting additions removals).vertexFinding operations operation side event id
      = .ok louder) : finding.IsQuieter isTold louder := by
  have hsame : (c.alsoReporting additions removals).graph side = c.graph side := by
    cases side <;> rfl
  have hbuilt : (c.alsoReporting additions removals).IsBuilt := ⟨h.old, h.new⟩
  obtain ⟨subject, hsubject, heq⟩ := h.vertexFinding_eq operations operation side event hv
  obtain ⟨subject', hsubject', heq'⟩ :=
    hbuilt.vertexFinding_eq operations operation side event (hsame ▸ hv)
  obtain rfl : subject' = subject := (hsame ▸ hsubject').eq hsubject
  cases hfinding.symm.trans heq
  cases hlouder.symm.trans heq'
  have hcovered : (c.alsoReporting additions removals).isCovered operations side id = true →
      c.isCovered operations side id = true := by
    unfold isCovered
    rw [hsame]
    cases side <;> simp +contextual [reportsNested, alsoReporting]
  refine .ite (fun hquiet => ?_) (fun _ => .of_object fun _ _ heq => nomatch heq)
    fun _ => ⟨Or.inl rfl, rfl, rfl, rfl⟩
  rw [Bool.or_eq_true] at hquiet ⊢
  exact hquiet.imp_right hcovered

/-- An edge that is inserted is told if it is told with less asked for. What is told besides is told of
objects that come. -/
theorem IsBuilt.insertedEdgeFinding_isQuieter (h : c.IsBuilt) {target : Nat} {e : Edge}
    (he : c.newGraph.edge? target = some e) {finding louder : Finding}
    (hsame : finding.IsQuieter (c.isToldAnyway operations) finding)
    (hfinding : c.insertedEdgeFinding operations target = .ok finding)
    (hlouder : (c.alsoReporting additions removals).insertedEdgeFinding operations target =
      .ok louder) : finding.IsQuieter (c.isToldAnyway operations) louder := by
  obtain ⟨one, two, hone, htwo⟩ := Graph.exists_ends he
  rcases isOther_or_exists_object e one two with hother | ⟨id, object, interface, hlabel, hends⟩
  · have hlouder' : (c.alsoReporting additions removals).insertedEdgeFinding operations target =
        c.edgeFinding operations .insertEdge .new e :=
      insertedEdgeFinding_eq_of_other he hone htwo hother
    rw [insertedEdgeFinding_eq_of_other he hone htwo hother, ← hlouder', hlouder] at hfinding
    cases hfinding
    exact hsame
  · have hcomes : c.objectComes operations object.name = comesOrGoes operations .new id :=
      objectComes_eq h (vertex?_of_objectAndInterface? hone htwo hends)
        (kind_of_objectAndInterface? hends).1
    cases hlouder.symm.trans (insertedEdgeFinding_eq_of_object
      (c := c.alsoReporting additions removals) he hone htwo hlabel hends)
    cases hfinding.symm.trans (insertedEdgeFinding_eq_of_object he hone htwo hlabel hends)
    -- all that is told under the name of an object that comes is told besides
    have htold : c.isToldAnyway operations object.name =
        !(!c.additions && comesOrGoes operations .new id) := by
      rw [Comparison.isToldAnyway, hcomes, Bool.not_and, Bool.not_not]
    refine .ite (fun hquiet => ?_) (fun hcovered => .of_object fun name details heq => ?_)
      fun hcovered => ⟨Or.inl rfl, ?_, rfl, rfl⟩
    · rw [Bool.and_eq_true] at hquiet ⊢
      exact hquiet.imp_left fun hadditions => by
        simp [alsoReporting] at hadditions
        simp [hadditions]
    · cases heq
      rw [htold, hcovered]
      rfl
    · simp [Finding.object?, Option.filter, htold, hcovered]

/-- A step is told if it is told with less asked for, and nothing else is told of the objects that
were told of. -/
theorem IsBuilt.isQuieter (h : c.IsBuilt)
    (haccount : AccountFor operations c.oldGraph c.newGraph m kept) {operation : Edit}
    (hmem : operation ∈ operations) {finding louder : Finding}
    (hfinding : c.finding operations operation = .ok finding)
    (htells : c.Tells operations operation finding)
    (hlouder : (c.alsoReporting additions removals).finding operations operation = .ok louder) :
    finding.IsQuieter (c.isToldAnyway operations) louder := by
  have hsame : finding.IsQuieter (c.isToldAnyway operations) finding :=
    .of_object fun name details heq => (heq ▸ htells).isToldAnyway h haccount hmem
  cases operation with
  | insertVertex target =>
    obtain ⟨v, hv⟩ := Graph.exists_vertex?_of_lt ((haccount.insertVertex_mem_iff target).1 hmem).1
    exact h.vertexFinding_isQuieter .new hv hfinding hlouder
  | deleteVertex source =>
    obtain ⟨v, hv⟩ := Graph.exists_vertex?_of_lt ((haccount.deleteVertex_mem_iff source).1 hmem).1
    exact h.vertexFinding_isQuieter .old hv hfinding hlouder
  | changeVertex source target =>
    cases hfinding.symm.trans hlouder
    exact hsame
  | insertEdge target =>
    obtain ⟨e, he⟩ : ∃ e, c.newGraph.edge? target = some e :=
      ⟨_, List.getElem?_eq_getElem (haccount.insertEdge_lt target hmem)⟩
    exact h.insertedEdgeFinding_isQuieter he hsame hfinding hlouder
  | deleteEdge source =>
    cases hfinding.symm.trans hlouder
    exact hsame
  | changeEdge source target =>
    cases hfinding.symm.trans hlouder
    exact hsame

/-- The steps of a script are told if they are told with less asked for. -/
theorem IsBuilt.exists_louder (h : c.IsBuilt)
    (haccount : AccountFor operations c.oldGraph c.newGraph m kept) (additions removals : Bool) :
    ∃ analysis louder, c.analyze operations = .ok analysis ∧
      (c.alsoReporting additions removals).analyze operations = .ok louder ∧
      analysis.changes.Sublist louder.changes ∧ analysis.unclassified = louder.unclassified := by
  have hbuilt : (c.alsoReporting additions removals).IsBuilt := ⟨h.old, h.new⟩
  obtain ⟨findings, hanalyze, htells⟩ := h.exists_findings haccount
  obtain ⟨louder, hlouder, htells'⟩ := hbuilt.exists_findings haccount
  have hquieter : List.Forall₂ (Finding.IsQuieter (c.isToldAnyway operations)) findings louder :=
    forall₂_of_common htells htells' fun operation hmem _ _ ⟨hfinding, htold⟩ ⟨hlouder, _⟩ =>
      h.isQuieter haccount hmem hfinding htold hlouder
  exact ⟨_, _, hanalyze, hlouder, Analysis.ofFindings_of_isQuieter hquieter⟩

end Comparison

/-! ## Reports -/

/-- The same options, with what is inside added or removed definitions reported besides. -/
def Config.alsoReporting (config : Config) (additions removals : Bool) : Config :=
  { config with additions := config.additions || additions, removals := config.removals || removals }

theorem Config.comparison_alsoReporting (config : Config) (additions removals : Bool)
    (old new : TypeSystem) (oldGraph newGraph : Graph) :
    (config.alsoReporting additions removals).comparison old new oldGraph newGraph =
      (config.comparison old new oldGraph newGraph).alsoReporting additions removals :=
  rfl

/-- The script does not depend on what is asked for. -/
theorem Script.between_alsoReporting (old new : Graph) (config : Config) (additions removals : Bool)
    (clock : Clock) : Script.between old new (config.alsoReporting additions removals) clock =
      Script.between old new config clock :=
  rfl

/-- Where what is inside definitions is asked for besides, the script is the same, and so is all that
is reported, except that there may be events between the others. -/
theorem asking_for_more_only_adds_events {old new : TypeSystem} {oldGraph newGraph : Graph}
    (hold : Graph.ofTypeSystem old = .ok oldGraph) (hnew : Graph.ofTypeSystem new = .ok newGraph)
    (config : Config) (clock : Clock) (additions removals : Bool) : ∃ report louder,
      Report.between old new config clock = .ok report ∧
      Report.between old new (config.alsoReporting additions removals) clock = .ok louder ∧
      louder.script = report.script ∧
      louder.diff.unclassified = report.diff.unclassified ∧
      louder.diff.approximate = report.diff.approximate ∧
      report.diff.changes.Sublist louder.diff.changes := by
  obtain ⟨m, kept, findings, htelling, -⟩ := Delta.exists_between hold hnew config clock
  obtain ⟨analysis, louder, hanalyze, hlouder, hchanges, hunclassified⟩ :=
    htelling.built.exists_louder htelling.account additions removals
  have hreport := Report.between_eq hold hnew config clock
  have hreport' := Report.between_eq hold hnew (config.alsoReporting additions removals) clock
  rw [hanalyze] at hreport
  rw [Config.comparison_alsoReporting, Script.between_alsoReporting, hlouder] at hreport'
  exact ⟨_, _, hreport, hreport', rfl, hunclassified.symm, rfl, hchanges⟩

set_option maxRecDepth 20000 in
/-- So it is where an input object goes with its field and an object comes with its interface. -/
theorem asking_for_more_only_adds_events_of_an_input_object_and_an_object :
    let n : TypeDefinition := ⟨"N", none, [], .interface [] []⟩
    let i : TypeDefinition :=
      ⟨"I", none, [], .inputObject [⟨"a", .named "I", none, none, []⟩]⟩
    let p : TypeDefinition := ⟨"P", none, [], .object ["N"] []⟩
    let old : TypeSystem := ⟨⟨[n, i], by decide⟩, .empty⟩
    let new : TypeSystem := ⟨⟨[n, p], by decide⟩, .empty⟩
    (∃ oldGraph, Graph.ofTypeSystem old = .ok oldGraph) ∧
      (∃ newGraph, Graph.ofTypeSystem new = .ok newGraph) ∧
      ∃ report louder,
        Report.between old new .standard .stopped = .ok report ∧
        Report.between old new (Config.standard.alsoReporting true true) .stopped = .ok louder ∧
        louder.script = report.script ∧
        report.diff.changes = [.added (.object "P"), .removed (.definition .inputObject "I")] ∧
        louder.diff.changes = [.added (.object "P"),
          .removed (.definition .inputObject "I"), .removed (.part .inputField "a" "I"),
          .objectChanged "P" [.addedInterface "N"]] ∧
        report.diff.changes.Sublist louder.diff.changes := by
  intro n i p old new
  have hquiet : ((Report.between old new .standard .stopped).map fun report =>
        report.diff.changes).toOption =
      some [.added (.object "P"), .removed (.definition .inputObject "I")] := by
    decide
  have hloud : ((Report.between old new (Config.standard.alsoReporting true true) .stopped).map
        fun report => report.diff.changes).toOption =
      some [.added (.object "P"), .removed (.definition .inputObject "I"),
        .removed (.part .inputField "a" "I"), .objectChanged "P" [.addedInterface "N"]] := by
    decide
  obtain ⟨oldGraph, hold⟩ := exists_eq_ok
    (show (Graph.ofTypeSystem old).toOption.isSome = true by decide)
  obtain ⟨newGraph, hnew⟩ := exists_eq_ok
    (show (Graph.ofTypeSystem new).toOption.isSome = true by decide)
  obtain ⟨report, louder, hreport, hlouder, hscript, -, -, hchanges⟩ :=
    asking_for_more_only_adds_events hold hnew .standard .stopped true true
  rw [hreport] at hquiet
  rw [hlouder] at hloud
  exact ⟨⟨_, hold⟩, ⟨_, hnew⟩, report, louder, hreport, hlouder, hscript,
    Option.some.inj hquiet, Option.some.inj hloud, hchanges⟩

end SchemaDelta
