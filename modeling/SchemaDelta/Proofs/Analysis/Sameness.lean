import SchemaDelta.Proofs.Analysis.Telling
import SchemaDelta.Proofs.Edit.Sameness
import SchemaDelta.Proofs.Reordering.Graphs

/-!
Type systems between which nothing is to be done: those whose graphs are the same up to the numbers
of vertices and edges, such as a type system and itself with its declarations in another order.
-/

namespace SchemaDelta

instance (g h : Graph) : Decidable (g.IsSameAs h) :=
  decidable_of_iff (((∀ v ∈ g.vertices, v ∈ h.vertices) ∧ ∀ v ∈ h.vertices, v ∈ g.vertices) ∧
      g.placedEdges.Perm h.placedEdges)
    ⟨fun hsame => ⟨fun v => ⟨hsame.1.1 v, hsame.1.2 v⟩, hsame.2⟩,
      fun hsame => ⟨⟨fun v => (hsame.vertices v).1, fun v => (hsame.vertices v).2⟩, hsame.edges⟩⟩

theorem Graph.Renaming.isSameAs {g h : Graph} (ρ : g.Renaming h) : g.IsSameAs h where
  vertices v := ρ.vertices.perm.mem_iff
  edges := by
    have hedges := ρ.edges_perm.map h.placedEdge
    rw [List.map_map] at hedges
    refine (List.Perm.of_eq (List.map_congr_left fun e _ => ?_)).trans hedges
    simp [Function.comp, placedEdge, Edge.renumbered]

variable {old new : TypeSystem} {oldGraph newGraph : Graph}

theorem Graph.isSameAs_of_reordered (hold : Graph.ofTypeSystem old = .ok oldGraph)
    (hnew : Graph.ofTypeSystem new = .ok newGraph) (h : old.Reordered new) :
    oldGraph.IsSameAs newGraph := by
  obtain ⟨g, hg, ⟨ρ⟩⟩ := h.exists_graph hold
  obtain rfl : g = newGraph := Except.ok.inj (hg.symm.trans hnew)
  exact ρ.isSameAs

theorem Script.CanBe.operations_eq_nil_iff (hold : Graph.ofTypeSystem old = .ok oldGraph)
    (hnew : Graph.ofTypeSystem new = .ok newGraph) {config : Config} {clock : Clock}
    {exhausted : Bool} {script : Script}
    (h : Script.CanBe oldGraph newGraph config clock exhausted script) :
    script.operations = [] ↔ oldGraph.IsSameAs newGraph := by
  refine ⟨fun hempty => ?_, fun hsame => ?_⟩
  · obtain ⟨m, hm, hoperations⟩ := h.exists_isCorrespondence
    obtain ⟨edges, hedges, hperm⟩ := hm.exists_operations_perm
    have haccount := (accountFor_stepsOf hm hedges).of_perm hperm
    rw [← hoperations, hempty] at haccount
    exact haccount.isSameAs hm hold hnew
  · rw [hsame.eq_of_canBe h]

/-- Whatever the workers do, their script has no steps exactly if the graphs are the same up to the
numbers of vertices and edges, and then no search is given up and nothing is reported. So it is
with a type system and itself, and with one whose declarations stand in another order. -/
theorem a_script_is_empty_exactly_between_same_graphs
    (hold : Graph.ofTypeSystem old = .ok oldGraph) (hnew : Graph.ofTypeSystem new = .ok newGraph)
    (config : Config) (clock : Clock) :
    ((Script.between oldGraph newGraph config clock).isEmpty = true ↔
      oldGraph.IsSameAs newGraph) ∧
    (∀ exhausted script, Script.CanBe oldGraph newGraph config clock exhausted script →
      (script.operations = [] ↔ oldGraph.IsSameAs newGraph)) ∧
    (old = new ∨ old.Reordered new → oldGraph.IsSameAs newGraph) ∧
    (oldGraph.IsSameAs newGraph →
      Script.between oldGraph newGraph config clock = ⟨[], false⟩ ∧
      (∀ exhausted script, Script.CanBe oldGraph newGraph config clock exhausted script →
        script = ⟨[], false⟩) ∧
      Delta.between old new config clock = .ok ⟨[], [], false⟩) := by
  obtain ⟨exhausted, hbetween⟩ := Script.exists_canBe_between oldGraph newGraph config clock
  refine ⟨?_, fun _ _ h => h.operations_eq_nil_iff hold hnew, ?_, fun hsame => ⟨?_, ?_, ?_⟩⟩
  · rw [Script.isEmpty, List.isEmpty_iff, hbetween.operations_eq_nil_iff hold hnew]
  · rintro (rfl | hreordered)
    · rw [Except.ok.inj (hold.symm.trans hnew)]
      exact .refl newGraph
    · exact Graph.isSameAs_of_reordered hold hnew hreordered
  · exact hsame.eq_of_canBe hbetween
  · exact fun _ _ h => hsame.eq_of_canBe h
  · rw [Delta.between_eq hold hnew, hsame.eq_of_canBe hbetween]
    rfl

set_option maxRecDepth 20000 in
/-- Directives that are applied more than once, and declarations in another order: only the
applications of one directive have an order of their own. -/
theorem a_script_is_empty_exactly_between_same_graphs_with_repeated_directives :
    let old : TypeSystem := .ofDocument
      "directive @d on OBJECT type Q @d(a: 1) @e @d(a: 2) { a: Int b(x: [Q]): Q }"
    let new : TypeSystem := .ofDocument
      "type Q @e @d(a: 1) @d(a: 2) { b(x: [Q]): Q a: Int } directive @d on OBJECT"
    ∃ oldGraph newGraph, Graph.ofTypeSystem old = .ok oldGraph ∧
      Graph.ofTypeSystem new = .ok newGraph ∧ oldGraph.IsSameAs newGraph ∧
        Script.between oldGraph newGraph .standard .stopped = ⟨[], false⟩ ∧
        Delta.between old new .standard .stopped = .ok ⟨[], [], false⟩ := by
  have hread : TypeSystem.ofDocument
        "directive @d on OBJECT type Q @d(a: 1) @e @d(a: 2) { a: Int b(x: [Q]): Q }" =
      ⟨⟨[⟨"Q", none, [⟨"d", [("a", "1")]⟩, ⟨"e", []⟩, ⟨"d", [("a", "2")]⟩],
          .object [] [⟨"a", .named "Int", [], none, []⟩,
            ⟨"b", .named "Q", [⟨"x", ⟨"Q", "[Q]"⟩, none, none, []⟩], none, []⟩]⟩],
        by decide⟩, ⟨[⟨"d", [], ["OBJECT"], false, none⟩], by decide⟩⟩ := by
    decide +kernel
  have hread' : TypeSystem.ofDocument
        "type Q @e @d(a: 1) @d(a: 2) { b(x: [Q]): Q a: Int } directive @d on OBJECT" =
      ⟨⟨[⟨"Q", none, [⟨"e", []⟩, ⟨"d", [("a", "1")]⟩, ⟨"d", [("a", "2")]⟩],
          .object [] [⟨"b", .named "Q", [⟨"x", ⟨"Q", "[Q]"⟩, none, none, []⟩], none, []⟩,
            ⟨"a", .named "Int", [], none, []⟩]⟩],
        by decide⟩, ⟨[⟨"d", [], ["OBJECT"], false, none⟩], by decide⟩⟩ := by
    decide +kernel
  rw [hread, hread']
  intro old new
  obtain ⟨oldGraph, hold⟩ := exists_eq_ok
    (show (Graph.ofTypeSystem old).toOption.isSome = true by decide)
  obtain ⟨newGraph, hnew⟩ := exists_eq_ok
    (show (Graph.ofTypeSystem new).toOption.isSome = true by decide)
  have hsame : ∀ g ∈ (Graph.ofTypeSystem old).toOption, ∀ h ∈ (Graph.ofTypeSystem new).toOption,
      g.IsSameAs h := by decide
  rw [hold, hnew] at hsame
  have hboth := hsame oldGraph rfl newGraph rfl
  obtain ⟨hscript, -, hreport⟩ := (a_script_is_empty_exactly_between_same_graphs hold hnew
    .standard .stopped).2.2.2 hboth
  exact ⟨oldGraph, newGraph, hold, hnew, hboth, hscript, hreport⟩

end SchemaDelta
