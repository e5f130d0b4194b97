import SchemaDelta.Proofs.Edit.Common
import SchemaDelta.Proofs.Edit.Unsearched
import SchemaDelta.Proofs.Graph.Paths
import SchemaDelta.Proofs.Graph.Subjects

/-!
Scripts without steps. Between the graphs of two type systems there is nothing to do exactly if they
are the same up to the numbers of their vertices and edges.

That graphs with an empty script are the same goes from owners to what they own: matched vertices
have one name and matched owners, hence one path. Applications of one directive have one name at
several paths, but an application that is matched with one at another path would have a vertex at
its own path in the other graph, with which it is matched already.
-/

namespace SchemaDelta

/-! ## Graphs up to numbers -/

/-- Whether two graphs are the same up to the numbers of vertices and edges. -/
structure Graph.IsSameAs (g h : Graph) : Prop where
  vertices : ∀ v, v ∈ g.vertices ↔ v ∈ h.vertices
  /-- Parallel edges with one label count as often as they are there. -/
  edges : g.placedEdges.Perm h.placedEdges

theorem Graph.IsSameAs.refl (g : Graph) : g.IsSameAs g :=
  ⟨fun _ => Iff.rfl, .refl _⟩

variable {old new : Graph} {m kept : Matching} {source target : Nat} {v w : Vertex}

/-! ## Scripts without steps lead to the same graph -/

/-- A list is told by the elements at its positions, in whatever order they are taken. -/
theorem perm_map_getD {α : Type} [Inhabited α] {as : List α} {ids : List Nat} (hnodup : ids.Nodup)
    (hmem : ∀ id, id ∈ ids ↔ id < as.length) :
    as.Perm (ids.map fun id => as[id]?.getD default) := by
  have hids : (List.range as.length).Perm ids :=
    (List.perm_ext_iff_of_nodup List.nodup_range hnodup).2 fun id => by simp [hmem]
  exact (List.Perm.of_eq (EditedGraph.eq_map_range as)).trans (hids.map _)

namespace AccountFor

section Silent

variable (hm : m.IsCorrespondence old new) (h : AccountFor [] old new m kept)

include h

theorem exists_target (hsource : source < old.vertices.length) :
    ∃ target, (source, target) ∈ m.pairs := by
  by_contra hnone
  exact absurd ((h.deleteVertex_mem_iff source).2 ⟨hsource, not_exists.1 hnone⟩) List.not_mem_nil

theorem exists_source (htarget : target < new.vertices.length) :
    ∃ source, (source, target) ∈ m.pairs := by
  by_contra hnone
  exact absurd ((h.insertVertex_mem_iff target).2 ⟨htarget, not_exists.1 hnone⟩) List.not_mem_nil

theorem agrees (hpair : (source, target) ∈ m.pairs) (hv : old.vertex? source = some v)
    (hw : new.vertex? target = some w) : v.name = w.name ∧ v.properties = w.properties := by
  by_contra hne
  exact absurd ((h.changeVertex_mem_iff source target).2 ⟨hpair, v, w, hv, hw, hne⟩)
    List.not_mem_nil

theorem exists_kept_of_old {edge : Nat} (hedge : edge < old.edges.length) :
    ∃ other, (edge, other) ∈ kept.pairs := by
  simpa [ExactlyOne] using h.oldEdges edge hedge

theorem exists_kept_of_new {edge : Nat} (hedge : edge < new.edges.length) :
    ∃ other, (other, edge) ∈ kept.pairs := by
  simpa [ExactlyOne] using h.newEdges edge hedge

include hm

/-- What owns matched vertices is matched. -/
theorem exists_owner (hpair : (source, target) ∈ m.pairs) {owner : Nat}
    (howner : old.owner? source = some owner) :
    ∃ owner', new.owner? target = some owner' ∧ (owner, owner') ∈ m.pairs := by
  obtain ⟨e, he, hownership, htwo, hone⟩ := Graph.owner?_eq_some_iff.1 howner
  obtain ⟨edge, hedge⟩ := List.mem_iff_getElem?.1 he
  obtain ⟨other, hkept⟩ := h.exists_kept_of_old (List.getElem?_eq_some_iff.1 hedge).1
  obtain ⟨x, y, hx, hy, hone', htwo', hlabel⟩ := h.kept_related edge other hkept
  obtain rfl : e = x := Option.some.inj (hedge.symm.trans hx)
  have htarget : y.two = target := hm.isOneToOne.eq_target htwo' (htwo ▸ hpair)
  refine ⟨y.one, Graph.owner?_eq_some_iff.2 ⟨y, List.mem_of_getElem? hy, ?_, htarget, rfl⟩,
    hone ▸ hone'⟩
  rwa [Edge.isOwnership, ← hlabel]

section Built

variable {oldSystem newSystem : TypeSystem} (hold : Graph.ofTypeSystem oldSystem = .ok old)
  (hnew : Graph.ofTypeSystem newSystem = .ok new)

include hold hnew

/-- Matched vertices are at one place if their owners are. -/
theorem place_eq_of_owners {owner : Place} {label label' : String}
    (hpair : (source, target) ∈ m.pairs) (hv : old.vertex? source = some v)
    (hw : new.vertex? target = some w) (hmem : .element owner label v ∈ oldSystem.entries)
    (hmem' : .element owner label' w ∈ newSystem.entries) : v.place = w.place := by
  have hkind := hm.kind_eq hpair hv hw
  have hname := (h.agrees hpair hv hw).1
  have hpaths := HasPaths.typeSystem oldSystem
  have hpaths' := HasPaths.typeSystem newSystem
  by_cases happlied : v.kind = .appliedDirective
  · obtain ⟨number, hpath, hearlier⟩ := hpaths.applied _ _ _ hmem happlied
    obtain ⟨number', hpath', hearlier'⟩ := hpaths'.applied _ _ _ hmem' (hkind ▸ happlied)
    rcases Nat.lt_trichotomy number number' with hlt | rfl | hlt
    -- the application with the smaller number has a counterpart at its own place
    · obtain ⟨_, u, hu, hplace⟩ := hearlier' number hlt
      obtain ⟨id, hid⟩ := TypeSystem.exists_vertex? hnew (.element hu)
      have hat : v.place = u.place := by rw [hplace, Vertex.place, happlied, hpath, hname]
      obtain rfl : id = target := hm.isOneToOne.eq_target (hm.places hv hid hat) hpair
      rw [hat, Option.some.inj (hw.symm.trans hid)]
    · rw [Vertex.place, Vertex.place, hkind, hpath, hpath', hname]
    · obtain ⟨_, u, hu, hplace⟩ := hearlier number' hlt
      obtain ⟨id, hid⟩ := TypeSystem.exists_vertex? hold (.element hu)
      have hat : u.place = w.place := by
        rw [hplace, Vertex.place, ← hkind, happlied, hpath', hname]
      obtain rfl : id = source := hm.isOneToOne.eq_source (hm.places hid hw hat) hpair
      rw [← hat, Option.some.inj (hv.symm.trans hid)]
  · rw [Vertex.place, Vertex.place, hkind, hpaths.inner _ _ _ hmem happlied,
      hpaths'.inner _ _ _ hmem' (hkind ▸ happlied), hname]

/-- Matched vertices are at one place. -/
theorem place_eq (hpair : (source, target) ∈ m.pairs) (hv : old.vertex? source = some v)
    (hw : new.vertex? target = some w) : v.place = w.place := by
  -- by induction on the kind, for an owner has a smaller one than what it owns
  induction hrank : v.kind.rank using Nat.strong_induction_on generalizing source target v w with
  | _ rank ih =>
    by_cases hdefinition : v.kind.isDefinition = true
    · exact (TypeSystem.has_of_vertex? hold hv).place_eq (TypeSystem.has_of_vertex? hnew hw)
        hdefinition (hm.kind_eq hpair hv hw) (h.agrees hpair hv hw).1
    obtain ⟨owner, one, _, howner, hone, howns⟩ :=
      TypeSystem.exists_owner_of_part hold hv (Bool.not_eq_true _ ▸ hdefinition)
    obtain ⟨owner', howner', howners⟩ := h.exists_owner hm hpair howner
    obtain ⟨v', one', label, hv', hone', hmem⟩ := TypeSystem.exists_element_of_owner? hold howner
    obtain rfl : v = v' := Option.some.inj (hv.symm.trans hv')
    obtain rfl : one = one' := Option.some.inj (hone.symm.trans hone')
    obtain ⟨w', two, label', hw', htwo, hmem'⟩ := TypeSystem.exists_element_of_owner? hnew howner'
    obtain rfl : w = w' := Option.some.inj (hw.symm.trans hw')
    have hplace : one.place = two.place := ih _ (hrank ▸ howns.rank_lt) howners hone htwo rfl
    exact h.place_eq_of_owners hm hold hnew hpair hv hw hmem (hplace ▸ hmem')

theorem eq_of_mem (hpair : (source, target) ∈ m.pairs) (hv : old.vertex? source = some v)
    (hw : new.vertex? target = some w) : v = w := by
  have hplace := h.place_eq hm hold hnew hpair hv hw
  have hagrees := h.agrees hpair hv hw
  cases v
  cases w
  simp_all [Vertex.place]

/-- Graphs between which there is nothing to do are the same. -/
theorem isSameAs : old.IsSameAs new where
  vertices u := by
    constructor
    · intro hu
      obtain ⟨source, hsource⟩ := List.mem_iff_getElem?.1 hu
      obtain ⟨target, hpair⟩ := h.exists_target (List.getElem?_eq_some_iff.1 hsource).1
      obtain ⟨_, w, -, hw, -⟩ := hm.kinds hpair
      rw [h.eq_of_mem hm hold hnew hpair hsource hw]
      exact List.mem_of_getElem? hw
    · intro hu
      obtain ⟨target, htarget⟩ := List.mem_iff_getElem?.1 hu
      obtain ⟨source, hpair⟩ := h.exists_source (List.getElem?_eq_some_iff.1 htarget).1
      obtain ⟨v, _, hv, -⟩ := hm.kinds hpair
      rw [← h.eq_of_mem hm hold hnew hpair hv htarget]
      exact List.mem_of_getElem? hv
  edges := by
    have holds : old.edges.Perm ((kept.pairs.map (·.1)).map fun edge =>
        old.edges[edge]?.getD default) :=
      perm_map_getD h.kept_isOneToOne.sources fun edge => by
        refine ⟨fun hmem => ?_, fun hlt => ?_⟩
        · obtain ⟨pair, hpair, rfl⟩ := List.mem_map.1 hmem
          obtain ⟨x, _, hx, -⟩ := h.kept_related pair.1 pair.2 hpair
          exact (List.getElem?_eq_some_iff.1 hx).1
        · obtain ⟨other, hkept⟩ := h.exists_kept_of_old hlt
          exact List.mem_map_of_mem hkept
    have hnews : new.edges.Perm ((kept.pairs.map (·.2)).map fun edge =>
        new.edges[edge]?.getD default) :=
      perm_map_getD h.kept_isOneToOne.targets fun edge => by
        refine ⟨fun hmem => ?_, fun hlt => ?_⟩
        · obtain ⟨pair, hpair, rfl⟩ := List.mem_map.1 hmem
          obtain ⟨_, y, -, hy, -⟩ := h.kept_related pair.1 pair.2 hpair
          exact (List.getElem?_eq_some_iff.1 hy).1
        · obtain ⟨other, hkept⟩ := h.exists_kept_of_new hlt
          exact List.mem_map_of_mem hkept
    refine (holds.map old.placedEdge).trans (.trans (.of_eq ?_) (hnews.map new.placedEdge).symm)
    simp only [List.map_map]
    refine List.map_congr_left fun pair hpair => ?_
    obtain ⟨x, y, hx, hy, hone, htwo, hlabel⟩ := h.kept_related pair.1 pair.2 hpair
    obtain ⟨v, w, hv, hw, -⟩ := hm.kinds hone
    obtain ⟨v', w', hv', hw', -⟩ := hm.kinds htwo
    simp only [Function.comp, show old.edges[pair.1]? = some x from hx,
      show new.edges[pair.2]? = some y from hy, Option.getD_some, Graph.placedEdge, hv, hw, hv',
      hw', hlabel, h.eq_of_mem hm hold hnew hone hv hw, h.eq_of_mem hm hold hnew htwo hv' hw']

end Built

end Silent

end AccountFor

/-! ## The same graphs have scripts without steps -/

namespace Graph.IsSameAs

variable (hsame : old.IsSameAs new)

include hsame

theorem exists_anchor (hv : old.vertex? source = some v) : ∃ target,
    (source, target) ∈ (Matching.anchors old new).pairs ∧ new.vertex? target = some v := by
  obtain ⟨target, htarget⟩ :=
    List.mem_iff_getElem?.1 ((hsame.vertices v).1 (List.mem_of_getElem? hv))
  exact ⟨target, Matching.mem_anchors.2 ⟨v, v, hv, htarget, rfl⟩, htarget⟩

theorem agreesWith : old.AgreesWith new where
  vertices {source target v w} hv hw hplace := by
    obtain ⟨target', hpair, hw'⟩ := hsame.exists_anchor hv
    obtain rfl := Graph.eq_of_place hw' hw hplace
    exact Option.some.inj (hw'.symm.trans hw)
  labels {one two one' two' v w} hone hone' htwo htwo' := by
    rw [Graph.labelsBetween_eq hone htwo, Graph.labelsBetween_eq hone' htwo']
    exact (hsame.edges.filter _).map _

theorem operations_anchors_eq_nil : (Matching.anchors old new).operations old new = [] := by
  refine List.eq_nil_iff_forall_not_mem.2 fun operation hmem => ?_
  -- nothing is at a place of one graph only
  have hold {id : Nat} {u : Vertex} (hu : old.vertex? id = some u) : u.place ∈ new.places :=
    List.mem_map_of_mem ((hsame.vertices u).1 (List.mem_of_getElem? hu))
  have hnew {id : Nat} {u : Vertex} (hu : new.vertex? id = some u) : u.place ∈ old.places :=
    List.mem_map_of_mem ((hsame.vertices u).2 (List.mem_of_getElem? hu))
  rcases Realization.exists_of_mem_operations_anchors hsame.agreesWith hmem with
    ⟨_, _, -, hv, hout⟩ | ⟨_, _, -, hw, hout⟩ | ⟨_, _, _, _, -, -, hone, htwo, hout⟩ |
      ⟨_, _, _, _, -, -, hone, htwo, hout⟩
  · exact hout (hold hv)
  · exact hout (hnew hw)
  · exact hout.elim (· (hold hone)) (· (hold htwo))
  · exact hout.elim (· (hnew hone)) (· (hnew htwo))

/-- Every vertex is anchored, so that nothing is searched and no search is given up. -/
theorem eq_of_canBe {config : Config} {clock : Clock} {exhausted : Bool} {script : Script}
    (h : Script.CanBe old new config clock exhausted script) : script = ⟨[], false⟩ := by
  rw [h.eq_of_oldSearched_eq_nil (Unanchored.oldSearched_eq_nil (.inl fun v hv =>
    List.mem_map_of_mem ((hsame.vertices v).1 hv))), hsame.operations_anchors_eq_nil]

end Graph.IsSameAs

end SchemaDelta
