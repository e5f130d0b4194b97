import SchemaDelta.Proofs.Analysis.Telling

/-!
When there is no report. Every script that the workers can come to fits the schemas, so an error is
always one of a graph, and that of the old one comes first. Without an error there is a report,
unless there is something to search and the clock cannot tell when the search has to be over: the
search does not begin then, and the comparison ends with neither.
-/

namespace SchemaDelta

variable {old new : TypeSystem} {config : Config} {clock : Clock}

theorem Delta.between_of_old_error {fault : GraphError} (hold : Graph.ofTypeSystem old = .error fault) :
    Delta.between old new config clock = .error (.graph fault) := by
  unfold Delta.between Report.between
  rw [hold]
  rfl

theorem Delta.between_of_new_error {oldGraph : Graph} {fault : GraphError}
    (hold : Graph.ofTypeSystem old = .ok oldGraph) (hnew : Graph.ofTypeSystem new = .error fault) :
    Delta.between old new config clock = .error (.graph fault) := by
  unfold Delta.between Report.between
  rw [hold, hnew]
  rfl

/-- Two type systems that have a report have a graph each. -/
theorem Delta.exists_graphs_of_between {diff : Delta}
    (h : (Delta.between old new config clock).toOption = some diff) :
    ∃ oldGraph newGraph, Graph.ofTypeSystem old = .ok oldGraph ∧
      Graph.ofTypeSystem new = .ok newGraph := by
  cases hold : Graph.ofTypeSystem old with
  | error fault => simp [Delta.between_of_old_error hold, Except.toOption] at h
  | ok oldGraph =>
    cases hnew : Graph.ofTypeSystem new with
    | error fault => simp [Delta.between_of_new_error hold hnew, Except.toOption] at h
    | ok newGraph => exact ⟨oldGraph, newGraph, rfl, rfl⟩

/-- Whatever the schedule of the workers, their script is told as events. -/
theorem Script.CanBe.exists_analysis {oldGraph newGraph : Graph} {exhausted : Bool} {script : Script}
    (hold : Graph.ofTypeSystem old = .ok oldGraph) (hnew : Graph.ofTypeSystem new = .ok newGraph)
    (h : Script.CanBe oldGraph newGraph config clock exhausted script) : ∃ analysis,
      (config.comparison old new oldGraph newGraph).analyze script.operations = .ok analysis := by
  obtain ⟨m, hm, hoperations⟩ := h.exists_isCorrespondence
  have hbuilt : (config.comparison old new oldGraph newGraph).IsBuilt := ⟨hold, hnew⟩
  obtain ⟨-, findings, -, hanalyze⟩ := hbuilt.exists_isTelling hm hoperations
  exact ⟨.ofFindings findings, hanalyze⟩

/-! ## Comparisons as they are carried out -/

theorem Script.overflows_iff {oldGraph newGraph : Graph} :
    Script.overflows oldGraph newGraph config clock = true ↔
      (Unanchored.problem oldGraph newGraph).olds ≠ [] ∧
        ∃ limit, config.budget.timeLimit = some limit ∧
          Instant.bound ≤ clock.start.nanoseconds + limit.nanoseconds := by
  rw [Script.overflows, Bool.and_eq_true, SearchBudget.overflows_iff, Bool.not_eq_true',
    List.isEmpty_eq_false_iff]

theorem Delta.between?_of_old_error {fault : GraphError}
    (hold : Graph.ofTypeSystem old = .error fault) :
    Delta.between? old new config clock = some (.error (.graph fault)) := by
  unfold Delta.between? Report.between?
  rw [hold]
  rfl

theorem Delta.between?_of_new_error {oldGraph : Graph} {fault : GraphError}
    (hold : Graph.ofTypeSystem old = .ok oldGraph) (hnew : Graph.ofTypeSystem new = .error fault) :
    Delta.between? old new config clock = some (.error (.graph fault)) := by
  unfold Delta.between? Report.between?
  rw [hold, hnew]
  rfl

/-- Two type systems with a graph each have their report, if the search can begin. -/
theorem Delta.between?_of_graphs {oldGraph newGraph : Graph}
    (hold : Graph.ofTypeSystem old = .ok oldGraph) (hnew : Graph.ofTypeSystem new = .ok newGraph) :
    Delta.between? old new config clock =
      if Script.overflows oldGraph newGraph config clock then none
      else some (Delta.between old new config clock) := by
  have hdiff : Delta.between old new config clock =
      (Report.between old new config clock).map Report.diff := by
    unfold Delta.between
    cases Report.between old new config clock <;> rfl
  rw [hdiff, Report.between_eq_ofScript hold hnew]
  unfold Delta.between? Report.between? Script.between?
  rw [hold, hnew]
  dsimp only
  split <;> rfl

theorem Delta.between?_eq_none_iff : Delta.between? old new config clock = none ↔
    ∃ oldGraph newGraph, Graph.ofTypeSystem old = .ok oldGraph ∧
      Graph.ofTypeSystem new = .ok newGraph ∧
        Script.overflows oldGraph newGraph config clock = true := by
  cases hold : Graph.ofTypeSystem old with
  | error fault => simp [Delta.between?_of_old_error hold]
  | ok oldGraph =>
    cases hnew : Graph.ofTypeSystem new with
    | error fault => simp [Delta.between?_of_new_error hold hnew]
    | ok newGraph => simp [Delta.between?_of_graphs hold hnew]

/-- What a comparison comes to is the same however it is carried out, if it comes to anything. -/
theorem Delta.eq_between_of_between? {result : Except ReportError Delta}
    (h : Delta.between? old new config clock = some result) :
    result = Delta.between old new config clock := by
  cases hold : Graph.ofTypeSystem old with
  | error fault =>
    rw [Delta.between?_of_old_error hold] at h
    rw [Delta.between_of_old_error hold]
    exact (Option.some.inj h).symm
  | ok oldGraph =>
    cases hnew : Graph.ofTypeSystem new with
    | error fault =>
      rw [Delta.between?_of_new_error hold hnew] at h
      rw [Delta.between_of_new_error hold hnew]
      exact (Option.some.inj h).symm
    | ok newGraph =>
      rw [Delta.between?_of_graphs hold hnew] at h
      split at h
      · cases h
      · exact (Option.some.inj h).symm

theorem Delta.exists_eq_ok_iff : (∃ diff, Delta.between old new config clock = .ok diff) ↔
    (∃ oldGraph, Graph.ofTypeSystem old = .ok oldGraph) ∧
      ∃ newGraph, Graph.ofTypeSystem new = .ok newGraph := by
  constructor
  · rintro ⟨diff, hdiff⟩
    obtain ⟨oldGraph, newGraph, hold, hnew⟩ :=
      Delta.exists_graphs_of_between (congrArg Except.toOption hdiff)
    exact ⟨⟨oldGraph, hold⟩, ⟨newGraph, hnew⟩⟩
  · rintro ⟨⟨oldGraph, hold⟩, ⟨newGraph, hnew⟩⟩
    obtain ⟨-, -, findings, -, hbetween⟩ := Delta.exists_between hold hnew config clock
    exact ⟨_, hbetween⟩

theorem Delta.eq_error_iff {error : ReportError} :
    Delta.between old new config clock = .error error ↔
      ∃ fault, error = .graph fault ∧ (Graph.ofTypeSystem old = .error fault ∨
        (∃ oldGraph, Graph.ofTypeSystem old = .ok oldGraph) ∧
          Graph.ofTypeSystem new = .error fault) := by
  cases hold : Graph.ofTypeSystem old with
  | error fault => simp [Delta.between_of_old_error hold, eq_comm]
  | ok oldGraph =>
    cases hnew : Graph.ofTypeSystem new with
    | error fault => simp [Delta.between_of_new_error hold hnew, eq_comm]
    | ok newGraph =>
      obtain ⟨-, -, findings, -, hbetween⟩ := Delta.exists_between hold hnew config clock
      simp [hbetween]

/-- Without a deadline that the clock cannot tell, there is a report exactly if both type systems have
a graph. An error is that of the old graph or, if the old type system has a graph, that of the new
one; no script fails to be told, whatever the schedule of the workers that come to it. There is
neither report nor error exactly if both have a graph, something is left to search, and the time for
it ends past the last point that the clock can tell. -/
theorem a_report_fails_only_for_want_of_a_graph_or_a_deadline (old new : TypeSystem)
    (config : Config) (clock : Clock) :
    (Delta.between? old new config clock = none ↔ ∃ oldGraph newGraph,
      Graph.ofTypeSystem old = .ok oldGraph ∧ Graph.ofTypeSystem new = .ok newGraph ∧
        (Unanchored.problem oldGraph newGraph).olds ≠ [] ∧
          ∃ limit, config.budget.timeLimit = some limit ∧
            Instant.bound ≤ clock.start.nanoseconds + limit.nanoseconds) ∧
    ((∃ diff, Delta.between? old new config clock = some (.ok diff)) ↔
      (∃ oldGraph, Graph.ofTypeSystem old = .ok oldGraph) ∧
        (∃ newGraph, Graph.ofTypeSystem new = .ok newGraph) ∧
          Delta.between? old new config clock ≠ none) ∧
    (∀ error, Delta.between? old new config clock = some (.error error) ↔
      ∃ fault, error = .graph fault ∧ (Graph.ofTypeSystem old = .error fault ∨
        (∃ oldGraph, Graph.ofTypeSystem old = .ok oldGraph) ∧
          Graph.ofTypeSystem new = .error fault)) ∧
    (∀ result, Delta.between? old new config clock = some result →
      result = Delta.between old new config clock) ∧
    ∀ oldGraph newGraph, Graph.ofTypeSystem old = .ok oldGraph →
      Graph.ofTypeSystem new = .ok newGraph → ∀ exhausted script,
        Script.CanBe oldGraph newGraph config clock exhausted script → ∃ analysis,
          (config.comparison old new oldGraph newGraph).analyze script.operations =
            .ok analysis := by
  refine ⟨?_, ?_, fun error => ?_, fun _ => Delta.eq_between_of_between?,
    fun _ _ hold hnew _ _ hscript => hscript.exists_analysis hold hnew⟩
  · simp only [Delta.between?_eq_none_iff, Script.overflows_iff]
  · constructor
    · rintro ⟨diff, hdiff⟩
      have hgraphs := Delta.exists_eq_ok_iff.1 ⟨diff, (Delta.eq_between_of_between? hdiff).symm⟩
      exact ⟨hgraphs.1, hgraphs.2, Option.ne_none_iff_exists'.2 ⟨_, hdiff⟩⟩
    · rintro ⟨hold, hnew, hends⟩
      obtain ⟨diff, hdiff⟩ := Delta.exists_eq_ok_iff.2 ⟨hold, hnew⟩
      obtain ⟨result, hresult⟩ := Option.ne_none_iff_exists'.1 hends
      rw [Delta.eq_between_of_between? hresult, hdiff] at hresult
      exact ⟨diff, hresult⟩
  · constructor
    · intro herror
      exact Delta.eq_error_iff.1 (Delta.eq_between_of_between? herror).symm
    · rintro ⟨fault, rfl, hold | ⟨⟨oldGraph, hold⟩, hnew⟩⟩
      · exact Delta.between?_of_old_error hold
      · exact Delta.between?_of_new_error hold hnew

/-- The time for the search between types with different names ends past the last point of the
clock. -/
theorem no_report_by_a_deadline_past_the_last_point_in_time :
    let old : TypeSystem := .ofDocument "type A { x: Int }"
    let new : TypeSystem := .ofDocument "type B { x: Int }"
    let config : Config := { Config.standard with budget := ⟨200000, some .longest⟩ }
    (∃ oldGraph, Graph.ofTypeSystem old = .ok oldGraph) ∧
      (∃ newGraph, Graph.ofTypeSystem new = .ok newGraph) ∧
        Delta.between? old new config .stopped = none := by
  have hread : TypeSystem.ofDocument "type A { x: Int }" =
      ⟨⟨[⟨"A", none, [], .object [] [⟨"x", .named "Int", [], none, []⟩]⟩], by decide⟩, .empty⟩ := by
    decide +kernel
  have hread' : TypeSystem.ofDocument "type B { x: Int }" =
      ⟨⟨[⟨"B", none, [], .object [] [⟨"x", .named "Int", [], none, []⟩]⟩], by decide⟩, .empty⟩ := by
    decide +kernel
  rw [hread, hread']
  intro old new config
  have hnone : (Delta.between? old new config .stopped).isNone = true := by decide +kernel
  exact ⟨exists_eq_ok (show (Graph.ofTypeSystem old).toOption.isSome = true by decide),
    exists_eq_ok (show (Graph.ofTypeSystem new).toOption.isSome = true by decide),
    Option.isNone_iff_eq_none.1 hnone⟩

set_option maxRecDepth 20000 in
/-- There is a report where a built-in scalar goes that no type system defines, with a directive that
is applied twice, and an interface comes. -/
theorem a_report_fails_only_for_want_of_a_graph_or_a_deadline_of_built_in_scalars :
    let old : TypeSystem := .ofDocument "directive @d on OBJECT type Q @d @d { a(x: Int): Q }"
    let new : TypeSystem := .ofDocument "interface N { a: Q } type Q implements N { a: Q }"
    (∃ diff, Delta.between? old new .standard .stopped = some (.ok diff)) ∧
      ∃ oldGraph newGraph, Graph.ofTypeSystem old = .ok oldGraph ∧
        Graph.ofTypeSystem new = .ok newGraph ∧ ∃ exhausted script,
          Script.CanBe oldGraph newGraph .standard .stopped exhausted script ∧ ∃ analysis,
            (Config.standard.comparison old new oldGraph newGraph).analyze script.operations =
              .ok analysis := by
  have hread : TypeSystem.ofDocument "directive @d on OBJECT type Q @d @d { a(x: Int): Q }" =
      ⟨⟨[⟨"Q", none, [⟨"d", []⟩, ⟨"d", []⟩],
          .object [] [⟨"a", .named "Q", [⟨"x", .named "Int", none, none, []⟩], none, []⟩]⟩],
        by decide⟩, ⟨[⟨"d", [], ["OBJECT"], false, none⟩], by decide⟩⟩ := by
    decide +kernel
  have hread' : TypeSystem.ofDocument "interface N { a: Q } type Q implements N { a: Q }" =
      ⟨⟨[⟨"N", none, [], .interface [] [⟨"a", .named "Q", [], none, []⟩]⟩,
        ⟨"Q", none, [], .object ["N"] [⟨"a", .named "Q", [], none, []⟩]⟩], by decide⟩, .empty⟩ := by
    decide +kernel
  rw [hread, hread']
  intro old new
  obtain ⟨oldGraph, hold⟩ := exists_eq_ok
    (show (Graph.ofTypeSystem old).toOption.isSome = true by decide)
  obtain ⟨newGraph, hnew⟩ := exists_eq_ok
    (show (Graph.ofTypeSystem new).toOption.isSome = true by decide)
  obtain ⟨exhausted, hscript⟩ := Script.exists_canBe_between oldGraph newGraph .standard .stopped
  obtain ⟨hnone, hok, -, -, hscripts⟩ :=
    a_report_fails_only_for_want_of_a_graph_or_a_deadline old new .standard .stopped
  -- there is no limit of time
  have hends : Delta.between? old new .standard .stopped ≠ none := by
    intro h
    obtain ⟨-, -, -, -, -, limit, hlimit, -⟩ := hnone.1 h
    cases hlimit
  exact ⟨hok.2 ⟨⟨oldGraph, hold⟩, ⟨newGraph, hnew⟩, hends⟩, oldGraph, newGraph, hold, hnew, exhausted,
    _, hscript, hscripts oldGraph newGraph hold hnew exhausted _ hscript⟩

end SchemaDelta
