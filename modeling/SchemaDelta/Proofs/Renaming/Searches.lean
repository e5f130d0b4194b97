import SchemaDelta.Proofs.Assignment.InPlace
import SchemaDelta.Proofs.Edit.Ordered
import SchemaDelta.Proofs.Renaming.Labels

/-!
The search when an element is renamed. The element and what is inside it are searched, in the same
order on both sides, because their paths begin alike; and each can be assigned to itself, because
its owner can.
-/

namespace SchemaDelta

open Assignment Unanchored

variable {r : Rename} {old new : Graph} {id other source target : Nat} {v w : Vertex}

/-! ## Elements that have moved -/

theorem Rename.MovesVertex.eq_or_path (h : r.MovesVertex v w) : v = w ∨ ∃ rest, EndsName rest ∧
    v.path = r.start ++ (r.name ++ rest) ∧ w.path = r.start ++ (r.newName ++ rest) := by
  cases h with
  | same _ => exact .inl rfl
  | renamed h => exact .inr ⟨"", fun _ hc => absurd hc (by simp), by simp [h.path], by simp⟩
  | inside hkind hrest hpath =>
    exact .inr ⟨_, hrest, hpath.trans (String.append_assoc ..), String.append_assoc ..⟩

namespace Graph.BecomesBy

variable (h : old.BecomesBy r new)

include h

theorem exists_new (hv : old.vertex? id = some v) :
    ∃ w, new.vertex? id = some w ∧ r.MovesVertex v w := by
  rcases getElem?_of_forall₂ h.vertices id with ⟨hnone, -⟩ | ⟨v', w, hv', hw, hmoves⟩
  · cases hv.symm.trans hnone
  · cases hv.symm.trans hv'
    exact ⟨w, hw, hmoves⟩

theorem exists_old (hw : new.vertex? id = some w) :
    ∃ v, old.vertex? id = some v ∧ r.MovesVertex v w := by
  rcases getElem?_of_forall₂ h.vertices id with ⟨-, hnone⟩ | ⟨v, w', hv, hw', hmoves⟩
  · cases hw.symm.trans hnone
  · cases hw.symm.trans hw'
    exact ⟨v, hv, hmoves⟩

theorem path_ne {rest rest' : String} (hrest : EndsName rest) (hrest' : EndsName rest') :
    r.start ++ (r.name ++ rest) ≠ r.start ++ (r.newName ++ rest') := by
  intro heq
  have hnames := (String.append_right_inj r.start).1 heq
  exact h.ne (eq_of_append_eq h.name h.newName hrest hrest' hnames).1.symm

/-- Nothing comes to a place where something else was. -/
theorem eq_of_place (hv : old.vertex? source = some v) (hw : new.vertex? target = some w)
    (hplace : v.place = w.place) : source = target ∧ v = w := by
  obtain ⟨w', hw', hmoves⟩ := h.exists_new hv
  obtain ⟨v', hv', hmoves'⟩ := h.exists_old hw
  have hpath : v.path = w.path := congrArg Place.path hplace
  rcases hmoves'.eq_or_path with rfl | ⟨rest', hrest', -, hwpath⟩
  · obtain rfl : source = target := Graph.eq_of_place hv hv' hplace
    exact ⟨rfl, Option.some.inj (hv.symm.trans hv')⟩
  · rcases hmoves.eq_or_path with rfl | ⟨rest, hrest, hvpath, -⟩
    · obtain rfl : source = target := Graph.eq_of_place hw' hw hplace
      exact ⟨rfl, Option.some.inj (hw'.symm.trans hw)⟩
    -- a path with the name is none with the other name
    · rw [hvpath, hwpath] at hpath
      exact absurd hpath (h.path_ne hrest hrest')

/-! ## Anchors -/

theorem mem_anchors_iff : (source, target) ∈ (Matching.anchors old new).pairs ↔
    source = target ∧ ∃ v, old.vertex? source = some v ∧ new.vertex? source = some v := by
  rw [Matching.mem_anchors]
  constructor
  · rintro ⟨v, w, hv, hw, hplace⟩
    obtain ⟨rfl, rfl⟩ := h.eq_of_place hv hw hplace
    exact ⟨rfl, v, hv, hw⟩
  · rintro ⟨rfl, v, hv, hw⟩
    exact ⟨v, v, hv, hw, rfl⟩

theorem image?_eq_some_iff : (Matching.anchors old new).image? id = some other ↔
    id = other ∧ ∃ v, old.vertex? id = some v ∧ new.vertex? id = some v :=
  (Matching.anchors_isOneToOne old new).image?_eq_some_iff.trans h.mem_anchors_iff

theorem preimage?_eq : (Matching.anchors old new).preimage? =
    (Matching.anchors old new).image? := by
  funext id
  refine Option.ext fun other => ?_
  rw [h.image?_eq_some_iff, (Matching.anchors_isOneToOne old new).preimage?_eq_some_iff,
    h.mem_anchors_iff]
  constructor
  · rintro ⟨rfl, hstays⟩
    exact ⟨rfl, hstays⟩
  · rintro ⟨rfl, hstays⟩
    exact ⟨rfl, hstays⟩

/-- What is not anchored has moved. -/
theorem exists_moved (hlt : id < old.vertices.length)
    (hid : (Matching.anchors old new).image? id = none) :
    ∃ v w, old.vertex? id = some v ∧ new.vertex? id = some w ∧ v.kind = w.kind ∧
      (r.IsAt v ∨ r.kind.rank < v.kind.rank ∧ v.name = w.name ∧ ∃ rest,
        v.path = r.start ++ (r.name ++ rest) ∧ w.path = r.start ++ (r.newName ++ rest)) := by
  obtain ⟨v, hv⟩ := Graph.exists_vertex?_of_lt hlt
  obtain ⟨w, hw, hmoves⟩ := h.exists_new hv
  refine ⟨v, w, hv, hw, hmoves.kind_eq, ?_⟩
  cases hmoves with
  | same _ => cases hid.symm.trans (h.image?_eq_some_iff.2 ⟨rfl, v, hv, hw⟩)
  | renamed hat => exact .inl hat
  | inside hkind hrest hpath =>
    exact .inr ⟨hkind, rfl, _, hpath.trans (String.append_assoc ..), String.append_assoc ..⟩

/-! ## The order of the search -/

omit h in
theorem compareVertices_of_kind_ne {g : Graph} {a b : Nat} {v w : Vertex}
    (hv : g.vertex? a = some v) (hw : g.vertex? b = some w) (hkind : v.kind ≠ w.kind) :
    compareVertices g a b = compare v.kind w.kind := by
  have hne : compare v.kind w.kind ≠ .eq := mt Std.LawfulEqOrd.eq_of_compare hkind
  unfold compareVertices
  simp only [compareLex, compareOn, hv, hw, Option.getD_some]
  cases hcompare : compare v.kind w.kind with
  | eq => exact absurd hcompare hne
  | _ => rfl

theorem compareVertices_eq {a b : Nat} (ha : a < old.vertices.length)
    (hfreea : (Matching.anchors old new).image? a = none) (hb : b < old.vertices.length)
    (hfreeb : (Matching.anchors old new).image? b = none) :
    compareVertices new a b = compareVertices old a b := by
  obtain ⟨v, v', hv, hv', hkind, hmoved⟩ := h.exists_moved ha hfreea
  obtain ⟨w, w', hw, hw', hkind', hmoved'⟩ := h.exists_moved hb hfreeb
  by_cases hsame : v.kind = w.kind
  · rcases hmoved with hat | ⟨hrank, hname, rest, hpath, hpath'⟩
    · rcases hmoved' with hat' | ⟨hrank', -⟩
      -- only one element is renamed
      · obtain rfl : a = b := Graph.eq_of_place hv hw (hat.place_eq hat')
        have hnew : compareVertices new a a = .eq := Std.ReflCmp.compare_self
        have hold : compareVertices old a a = .eq := Std.ReflCmp.compare_self
        rw [hnew, hold]
      · rw [← hsame] at hrank'
        exact absurd hrank' hat.not_inside
    · rcases hmoved' with hat' | ⟨-, hname', rest', hpath₂, hpath₂'⟩
      · rw [hsame] at hrank
        exact absurd hrank hat'.not_inside
      · unfold compareVertices
        simp only [compareLex, compareOn, hv, hv', hw, hw', Option.getD_some, ← hkind, ← hkind',
          ← hname, ← hname', hpath, hpath', hpath₂, hpath₂', compare_append]
  · rw [compareVertices_of_kind_ne hv hw hsame, compareVertices_of_kind_ne hv' hw'
      (by rwa [← hkind, ← hkind']), hkind, hkind']

theorem vertexIds_eq : new.vertexIds = old.vertexIds := by
  rw [Graph.vertexIds, Graph.vertexIds, h.vertices.length_eq]

theorem kind?_eq (id : Nat) :
    (new.vertex? id).map Vertex.kind = (old.vertex? id).map Vertex.kind := by
  unfold Draft.vertex?
  rcases getElem?_of_forall₂ h.vertices id with ⟨hv, hw⟩ | ⟨v, w, hv, hw, hmoves⟩
  · rw [hv, hw]
  · rw [hv, hw, Option.map_some, Option.map_some, hmoves.kind_eq]

omit h in
/-- Where both graphs have the same kinds free under the same numbers, all that is free is
searched. -/
theorem searched_eq {g g' : Graph} {isAnchored : Nat → Bool} (hids : g'.vertexIds = g.vertexIds)
    (hkind : ∀ id, (g'.vertex? id).map Vertex.kind = (g.vertex? id).map Vertex.kind) :
    searched g g' isAnchored isAnchored =
      sortBy (compareVertices g) (g.vertexIds.filter fun id => !isAnchored id) := by
  unfold searched
  simp only [hids, hkind]
  congr 1
  refine List.filter_congr fun id hid => ?_
  rw [Bool.and_eq_left_iff_imp, List.contains_iff_mem]
  intro hfree
  exact List.mem_map.2 ⟨id, List.mem_filter.2 ⟨hid, hfree⟩, rfl⟩

theorem oldSearched_eq : oldSearched old new = sortBy (compareVertices old)
    (old.vertexIds.filter fun id => !((Matching.anchors old new).image? id).isSome) := by
  rw [oldSearched, h.preimage?_eq]
  exact searched_eq h.vertexIds_eq h.kind?_eq

/-- The same is searched in the same order on both sides. -/
theorem newSearched_eq : newSearched old new = oldSearched old new := by
  let free := old.vertexIds.filter fun id => !((Matching.anchors old new).image? id).isSome
  have hfree {id : Nat} (hid : id ∈ free) :
      id < old.vertices.length ∧ (Matching.anchors old new).image? id = none := by
    simpa only [free, List.mem_filter, Graph.vertexIds, List.mem_range, Option.not_isSome,
      Option.isNone_iff_eq_none] using hid
  have hsorted : sortBy (compareVertices new) (free.map id) =
      (sortBy (compareVertices old) free).map id :=
    sortBy_map fun a ha b hb =>
      h.compareVertices_eq (hfree ha).1 (hfree ha).2 (hfree hb).1 (hfree hb).2
  rw [List.map_id, List.map_id] at hsorted
  rw [h.oldSearched_eq, ← hsorted, newSearched, h.preimage?_eq,
    searched_eq h.vertexIds_eq.symm fun id => (h.kind?_eq id).symm, h.vertexIds_eq]

theorem mem_oldSearched_iff : id ∈ oldSearched old new ↔
    id < old.vertices.length ∧ (Matching.anchors old new).image? id = none := by
  rw [h.oldSearched_eq, (sortBy_perm _ _).mem_iff, List.mem_filter, Graph.vertexIds,
    List.mem_range, Option.not_isSome, Option.isNone_iff_eq_none]

/-! ## Owners -/

theorem isOwnership_eq {pair : Edge × Edge} (hpair : pair ∈ old.edges.zip new.edges) :
    pair.1.isOwnership = pair.2.isOwnership := by
  by_cases hlabel : pair.1.label = pair.2.label
  · rw [Edge.isOwnership, Edge.isOwnership, hlabel]
  · obtain ⟨hold, hnew⟩ := h.owns pair hpair hlabel
    rw [hold, hnew]

theorem edges_alike : List.Forall₂ (fun e e' => e.one = e'.one ∧ e.two = e'.two ∧
    e.isOwnership = e'.isOwnership) old.edges new.edges := by
  rw [List.forall₂_iff_zip]
  refine ⟨h.ends.length_eq, fun {e e'} hpair => ?_⟩
  obtain ⟨hone, htwo⟩ := (List.forall₂_iff_zip.1 h.ends).2 hpair
  exact ⟨hone, htwo, h.isOwnership_eq hpair⟩

theorem owner?_eq (id : Nat) : new.owner? id = old.owner? id := by
  refine Option.ext fun owner => ?_
  rw [Graph.owner?_eq_some_iff, Graph.owner?_eq_some_iff]
  constructor
  · rintro ⟨e', he', howns, rfl, rfl⟩
    obtain ⟨e, he, hone, htwo, heq⟩ := exists_mem_left_of_forall₂ h.edges_alike he'
    exact ⟨e, he, heq.trans howns, htwo, hone⟩
  · rintro ⟨e, he, howns, rfl, rfl⟩
    obtain ⟨e', he', hone, htwo, heq⟩ := exists_mem_right_of_forall₂ h.edges_alike he
    exact ⟨e', he', heq.symm.trans howns, htwo.symm, hone.symm⟩

/-! ## The assignment in place -/

/-- An element has the same role before and after. -/
theorem roles_eq : role (Matching.anchors old new).preimage? (oldSearched old new) =
    role (fun id => ((Matching.anchors old new).image? id).map fun _ => id)
      (oldSearched old new) := by
  have himage : (fun id => ((Matching.anchors old new).image? id).map fun _ => id) =
      (Matching.anchors old new).image? := by
    funext id
    cases hid : (Matching.anchors old new).image? id with
    | none => rfl
    | some other => rw [Option.map_some, (h.image?_eq_some_iff.1 hid).1]
  rw [h.preimage?_eq, himage]

/-- Everything is anchored or searched. -/
theorem role_ne_fixed (hlt : id < old.vertices.length) :
    role (fun id => ((Matching.anchors old new).image? id).map fun _ => id) (oldSearched old new)
      id ≠ .fixed := by
  unfold role
  cases hid : (Matching.anchors old new).image? id with
  | some other => simp [hid]
  | none =>
    have hmem := h.mem_oldSearched_iff.2 ⟨hlt, hid⟩
    cases hposition : (oldSearched old new).idxOf? id with
    | none => exact absurd hmem (List.idxOf?_eq_none_iff.1 hposition)
    | some position => simp [hid]

theorem isFeasible_inPlace : (problem old new).IsFeasible (problem old new).inPlace := by
  refine Problem.isFeasible_inPlace ?_
  simp only [problem, h.newSearched_eq, h.roles_eq]
  rw [List.forall₂_map_left_iff, List.forall₂_map_right_iff, List.forall₂_same]
  intro id hid
  obtain ⟨hlt, hfree⟩ := h.mem_oldSearched_iff.1 hid
  obtain ⟨v, w, hv, hw, hkind, -⟩ := h.exists_moved hlt hfree
  refine ⟨?_, ?_, ?_⟩
  · simp [member, hv, hw, hkind]
  · simp [member, h.owner?_eq]
  · simp only [member]
    intro hfixed
    obtain ⟨owner, howner, hrole⟩ := Option.map_eq_some_iff.1 hfixed
    obtain ⟨e, he, -, -, rfl⟩ := Graph.owner?_eq_some_iff.1 howner
    exact h.role_ne_fixed (old.ends_known e he).1 hrole

/-- The assignment in place matches everything with itself. -/
theorem mem_ofAssignment_inPlace_iff :
    (source, target) ∈ (Matching.ofAssignment old new (problem old new).inPlace).pairs ↔
      source = target ∧ source < old.vertices.length := by
  rw [Matching.mem_ofAssignment, mem_pairs, h.newSearched_eq, h.mem_anchors_iff]
  have hlength : (problem old new).olds.length = (oldSearched old new).length := by simp [problem]
  constructor
  · rintro (⟨rfl, v, hv, -⟩ | ⟨position, candidate, hsource, hchoice, htarget⟩)
    · exact ⟨rfl, Graph.lt_of_vertex? hv⟩
    · have hlt := (List.getElem?_eq_some_iff.1 hsource).1
      rw [Problem.getElem?_inPlace (hlength ▸ hlt)] at hchoice
      cases hchoice
      obtain rfl := Option.some.inj (hsource.symm.trans htarget)
      exact ⟨rfl, (h.mem_oldSearched_iff.1 (List.mem_of_getElem? hsource)).1⟩
  · rintro ⟨rfl, hlt⟩
    cases hid : (Matching.anchors old new).image? source with
    | some other => exact .inl ⟨rfl, (h.image?_eq_some_iff.1 hid).2⟩
    | none =>
      obtain ⟨position, hposition⟩ :=
        List.mem_iff_getElem?.1 (h.mem_oldSearched_iff.2 ⟨hlt, hid⟩)
      have hlt' := (List.getElem?_eq_some_iff.1 hposition).1
      exact .inr ⟨position, position, hposition, Problem.getElem?_inPlace (hlength ▸ hlt'),
        hposition⟩

end Graph.BecomesBy

end SchemaDelta
