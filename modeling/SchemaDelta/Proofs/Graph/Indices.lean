import Mathlib.Data.List.Sort
import SchemaDelta.Graph.Index
import SchemaDelta.Proofs.Graph.Built
import SchemaDelta.Proofs.Graph.References

/-!
A draft is finished unless a place or a vertex is taken twice, and then its indices are exact. Each
of the two passes goes through a list and stops at the first element that asks for what an earlier
one has; what the indices hold in between is told by the elements that were passed.
-/

namespace SchemaDelta

/-! ## Passes -/

section Passes

variable {σ α κ ε : Type} {step : σ → α → Except ε σ} {Holds : List α → σ → Prop}
  {key? : α → Option κ} {fault : α → ε}

/-- What comes of a pass after the elements `passed`: the fault of the first element whose key is
taken, or a state that holds all elements, of which no two have one key. -/
inductive PassedThrough (Holds : List α → σ → Prop) (key? : α → Option κ) (fault : α → ε)
    (passed rest : List α) : Except ε σ → Prop where
  | stopped {before after : List α} {a : α} {key : κ} (hrest : rest = before ++ a :: after)
    (hdistinct : ((passed ++ before).filterMap key?).Nodup) (hkey : key? a = some key)
    (htaken : key ∈ (passed ++ before).filterMap key?) :
    PassedThrough Holds key? fault passed rest (.error (fault a))
  | done {s : σ} (hdistinct : ((passed ++ rest).filterMap key?).Nodup)
    (hholds : Holds (passed ++ rest) s) : PassedThrough Holds key? fault passed rest (.ok s)

/-- A step that takes the key of an element, or fails if it is taken, makes a pass that stops at the
first key that is taken. -/
theorem passedThrough_foldlM
    (htaken : ∀ passed s a key, Holds passed s → key? a = some key →
      key ∈ passed.filterMap key? → step s a = .error (fault a))
    (hfree : ∀ passed s a, Holds passed s → (∀ key, key? a = some key →
      key ∉ passed.filterMap key?) → ∃ s', step s a = .ok s' ∧ Holds (passed ++ [a]) s')
    {passed : List α} {s : σ} (hholds : Holds passed s)
    (hdistinct : (passed.filterMap key?).Nodup) (rest : List α) :
    PassedThrough Holds key? fault passed rest (rest.foldlM step s) := by
  induction rest generalizing passed s with
  | nil =>
    refine .done ?_ ?_
    · rwa [List.append_nil]
    · rwa [List.append_nil]
  | cons a rest ih =>
    rw [List.foldlM_cons]
    by_cases hnew : ∀ key, key? a = some key → key ∉ passed.filterMap key?
    · obtain ⟨s', hstep, hholds'⟩ := hfree passed s a hholds hnew
      have hdistinct' : ((passed ++ [a]).filterMap key?).Nodup := by
        rw [List.filterMap_append, List.nodup_append']
        cases hkey : key? a with
        | none => simp [hkey, hdistinct]
        | some key => simp [hkey, hdistinct, hnew key hkey]
      have hrest := ih hholds' hdistinct'
      rw [hstep]
      change PassedThrough Holds key? fault passed (a :: rest) (rest.foldlM step s')
      generalize rest.foldlM step s' = result at hrest ⊢
      cases hrest with
      | stopped heq hbefore hkey hin =>
        subst heq
        rw [List.append_assoc] at hbefore hin
        exact .stopped rfl hbefore hkey hin
      | done hall hholds'' =>
        rw [List.append_assoc] at hall hholds''
        exact .done hall hholds''
    · simp only [not_forall, not_not] at hnew
      obtain ⟨key, hkey, hin⟩ := hnew
      rw [htaken passed s a key hholds hkey hin]
      have hempty : passed ++ [] = passed := List.append_nil passed
      exact .stopped (List.nil_append _).symm (hempty.symm ▸ hdistinct) hkey (hempty.symm ▸ hin)

end Passes

/-! ## Filing -/

namespace Indices

variable {ix : Indices}

theorem lookup_fileUnder (kind : ElementKind) (id : Nat) (entries : List (ElementKind × List Nat))
    (other : ElementKind) : ((fileUnder kind id entries).lookup other).getD [] =
      (entries.lookup other).getD [] ++ if kind = other then [id] else [] := by
  induction entries with
  | nil =>
    by_cases h : other = kind
    · simp [fileUnder, h]
    · simp [fileUnder, List.lookup_cons, beq_false_of_ne h, Ne.symm h]
  | cons entry rest ih =>
    obtain ⟨first, ids⟩ := entry
    rw [fileUnder]
    by_cases hother : other = first
    · subst hother
      by_cases hkind : other = kind
      · subst hkind
        simp
      · simp [hkind, Ne.symm hkind]
    · have hrest (ids : List Nat) :
          List.lookup other ((first, ids) :: rest) = List.lookup other rest := by
        rw [List.lookup_cons, beq_false_of_ne hother]
      by_cases hkind : first = kind
      · subst hkind
        simp [hrest, Ne.symm hother]
      · rw [if_neg hkind, List.lookup_cons, beq_false_of_ne hother, hrest]
        exact ih

/-- Whether indices have filed some numbered vertices, and noted no owners yet. -/
structure HasFiled (passed : List (Vertex × Nat)) (ix : Indices) : Prop where
  byPlace : ix.byPlace = (passed.map fun n => (n.1.place, n.2)).reverse
  byKind : ∀ kind, (ix.byKind.lookup kind).getD [] =
    (passed.filter fun n => n.1.kind == kind).map Prod.snd
  owners : ix.owners = []

/-- The place that a numbered vertex takes. -/
def placeOf? (numbered : Vertex × Nat) : Option Place :=
  some numbered.1.place

theorem filterMap_placeOf? (passed : List (Vertex × Nat)) :
    passed.filterMap placeOf? = passed.map fun n => n.1.place := by
  rw [← List.filterMap_eq_map]
  rfl

theorem HasFiled.place_mem_iff {passed : List (Vertex × Nat)} (h : ix.HasFiled passed)
    (place : Place) : (ix.byPlace.lookup place).isSome = true ↔
      place ∈ passed.filterMap placeOf? := by
  rw [lookup_isSome_iff, h.byPlace, filterMap_placeOf?]
  simp

/-- All vertices are filed, unless a place is taken. -/
theorem passedThrough_fileVertex (numbered : List (Vertex × Nat)) :
    PassedThrough HasFiled placeOf?
      (fun n => .duplicateElement n.1.place) [] numbered (numbered.foldlM fileVertex empty) := by
  refine passedThrough_foldlM ?_ ?_ ⟨rfl, fun _ => rfl, rfl⟩ ?_ numbered
  · rintro passed ix ⟨v, id⟩ place hfiled ⟨⟩ hmem
    exact if_pos ((hfiled.place_mem_iff _).2 hmem)
  · rintro passed ix ⟨v, id⟩ hfiled hnew
    refine ⟨_, if_neg (mt (hfiled.place_mem_iff _).1 (hnew _ rfl)), ?_, fun kind => ?_, ?_⟩
    · simp [hfiled.byPlace]
    · by_cases hkind : v.kind = kind <;>
        simp [lookup_fileUnder, hfiled.byKind, hkind]
    · exact hfiled.owners
  · exact List.nodup_nil

/-! ## Noting owners -/

/-- Whether indices have noted the owners from which some edges lead, and filed what others have. -/
structure HasNoted (filed : Indices) (passed : List Edge) (ix : Indices) : Prop where
  byPlace : ix.byPlace = filed.byPlace
  byKind : ix.byKind = filed.byKind
  owners : ix.owners = ((passed.filter Edge.isOwnership).map fun e => (e.two, e.one)).reverse

/-- The vertex that an edge takes for an owner. -/
def ownedOf? (e : Edge) : Option Nat :=
  if e.isOwnership then some e.two else none

theorem filterMap_ownedOf? (passed : List Edge) :
    passed.filterMap ownedOf? = (passed.filter Edge.isOwnership).map Edge.two := by
  induction passed with
  | nil => rfl
  | cons e passed ih => cases howns : e.isOwnership <;> simp [ownedOf?, howns, ih]

theorem HasNoted.owned_mem_iff {filed : Indices} {passed : List Edge}
    (h : HasNoted filed passed ix) (id : Nat) :
    (ix.owners.lookup id).isSome = true ↔ id ∈ passed.filterMap ownedOf? := by
  rw [lookup_isSome_iff, h.owners, filterMap_ownedOf?]
  simp

/-- The error that names a vertex for its second owner. -/
def secondOwner (d : Draft) (e : Edge) : GraphError :=
  .multipleParents ((d.vertex? e.two).elim "" Vertex.path)

/-- All owners are noted, unless a vertex has one. -/
theorem passedThrough_noteOwner (d : Draft) {filed : Indices} (hfiled : filed.owners = [])
    (edges : List Edge) : PassedThrough (HasNoted filed) ownedOf?
      (secondOwner d) [] edges (edges.foldlM (noteOwner d) filed) := by
  refine passedThrough_foldlM ?_ ?_ ⟨rfl, rfl, hfiled⟩ ?_ edges
  · intro passed ix e id hnoted hkey hmem
    obtain ⟨howns, hid⟩ : e.isOwnership = true ∧ e.two = id := by simpa [ownedOf?] using hkey
    have htaken : (ix.owners.lookup e.two).isSome = true := (hnoted.owned_mem_iff _).2 (hid ▸ hmem)
    simp [noteOwner, howns, htaken, secondOwner]
  · intro passed ix e hnoted hnew
    cases howns : e.isOwnership with
    | false =>
      refine ⟨ix, by simp [noteOwner, howns], hnoted.byPlace, hnoted.byKind, ?_⟩
      simp [hnoted.owners, howns]
    | true =>
      have hfree : ¬ (ix.owners.lookup e.two).isSome = true :=
        mt (hnoted.owned_mem_iff _).1 (hnew _ (by simp [ownedOf?, howns]))
      refine ⟨{ ix with owners := (e.two, e.one) :: ix.owners }, ?_, hnoted.byPlace, hnoted.byKind,
        ?_⟩
      · simp [noteOwner, howns, hfree]
      · simp [hnoted.owners, howns]
  · exact List.nodup_nil

end Indices

/-! ## Finishing -/

namespace Draft

variable {d : Draft} {error : GraphError}

/-- Whether an error is that of the first edge from an owner to a vertex that has one. -/
def IsFirstSecondOwner (d : Draft) (error : GraphError) : Prop :=
  ∃ before e after v, d.edges = before ++ e :: after ∧
    ((before.filter Edge.isOwnership).map Edge.two).Nodup ∧ e.isOwnership = true ∧
    e.two ∈ (before.filter Edge.isOwnership).map Edge.two ∧ d.vertex? e.two = some v ∧
    error = .multipleParents v.path

theorem exists_vertex?_two {e : Edge} (he : e ∈ d.edges) : ∃ v, d.vertex? e.two = some v :=
  ⟨_, List.getElem?_eq_getElem (d.ends_known e he).2⟩

/-- What comes of the finishing of a draft. -/
inductive Finishes (d : Draft) : Except GraphError IndexedGraph → Prop where
  | duplicate {error : GraphError} (h : IsFirstDuplicate d.vertices error) :
    Finishes d (.error error)
  | secondOwner {error : GraphError} (hplaces : d.places.Nodup) (h : d.IsFirstSecondOwner error) :
    Finishes d (.error error)
  | done {filed ix : Indices} (hplaces : d.places.Nodup) (howned : d.owned.Nodup)
    (hfiled : filed.HasFiled d.vertices.zipIdx) (hnoted : Indices.HasNoted filed d.edges ix) :
    Finishes d (.ok ⟨d, ix⟩)

theorem finishes (d : Draft) : d.Finishes d.finish := by
  have hfiling := Indices.passedThrough_fileVertex d.vertices.zipIdx
  unfold finish
  generalize d.vertices.zipIdx.foldlM Indices.fileVertex .empty = result at hfiling ⊢
  cases hfiling with
  | @stopped before after n place hrest hdistinct hkey htaken =>
    cases hkey
    rw [List.nil_append, Indices.filterMap_placeOf?] at hdistinct htaken
    refine .duplicate ⟨before.map Prod.fst, n.1, after.map Prod.fst, ?_, ?_, ?_, rfl⟩
    · rw [← List.zipIdx_map_fst 0 d.vertices, hrest, List.map_append, List.map_cons]
    · rwa [List.map_map]
    · rwa [List.map_map]
  | @done filed hdistinct hfiled =>
    have hplaces : d.places.Nodup := by
      rw [List.nil_append, Indices.filterMap_placeOf?] at hdistinct
      rwa [places, ← List.zipIdx_map_fst 0 d.vertices, List.map_map]
    have hnoting := Indices.passedThrough_noteOwner d hfiled.owners d.edges
    change d.Finishes (d.edges.foldlM (Indices.noteOwner d) filed >>= fun ix => .ok ⟨d, ix⟩)
    generalize d.edges.foldlM (Indices.noteOwner d) filed = result at hnoting ⊢
    cases hnoting with
    | @stopped before after e id hrest hdistinct hkey htaken =>
      obtain ⟨howns, rfl⟩ : e.isOwnership = true ∧ e.two = id := by
        simpa [Indices.ownedOf?] using hkey
      rw [List.nil_append, Indices.filterMap_ownedOf?] at hdistinct htaken
      obtain ⟨v, hv⟩ := exists_vertex?_two (hrest ▸ List.mem_append_right before List.mem_cons_self)
      refine .secondOwner hplaces ⟨before, e, after, v, hrest, hdistinct, howns, htaken, hv, ?_⟩
      rw [Indices.secondOwner, hv]
      rfl
    | @done ix hdistinct hnoted =>
      rw [List.nil_append, Indices.filterMap_ownedOf?] at hdistinct
      exact .done hplaces hdistinct hfiled hnoted

/-! ## Errors -/

theorem isFirstSecondOwner_iff : d.IsFirstSecondOwner error ↔ ∃ child,
    firstRepeat? d.owned = some child ∧
      error = .multipleParents ((d.vertex? child).elim "" Vertex.path) := by
  constructor
  · rintro ⟨before, e, after, v, hedges, hdistinct, howns, htaken, hv, rfl⟩
    refine ⟨e.two, firstRepeat?_eq_some_iff.2
      ⟨_, (after.filter Edge.isOwnership).map Edge.two, ?_, hdistinct, htaken⟩, by rw [hv]; rfl⟩
    rw [owned, hedges, List.filter_append, List.filter_cons_of_pos howns, List.map_append,
      List.map_cons]
  · rintro ⟨child, hrepeat, rfl⟩
    obtain ⟨before, after, heq, hdistinct, htaken⟩ := firstRepeat?_eq_some_iff.1 hrepeat
    obtain ⟨earlier, later, howned, rfl, hlater⟩ := List.map_eq_append_iff.1 heq
    obtain ⟨e, last, rfl, rfl, -⟩ := List.map_eq_cons_iff.1 hlater
    obtain ⟨front, back, hedges, rfl, hback⟩ := List.filter_eq_append_iff.1 howned
    obtain ⟨others, rest, rfl, hothers, howns, -⟩ := List.filter_eq_cons_iff.1 hback
    -- between the earlier owners and this one there are only edges that say nothing of owners
    have hfront : (front ++ others).filter Edge.isOwnership = front.filter Edge.isOwnership := by
      rw [List.filter_append, List.filter_eq_nil_iff.2 hothers, List.append_nil]
    have hsplit : d.edges = (front ++ others) ++ e :: rest := by rw [hedges, List.append_assoc]
    obtain ⟨v, hv⟩ := exists_vertex?_two (hsplit ▸ List.mem_append_right _ List.mem_cons_self)
    refine ⟨front ++ others, e, rest, v, hsplit, ?_, howns, ?_, hv, by rw [hv]; rfl⟩
    · rwa [hfront]
    · rwa [hfront]

theorem toGraph_eq_error_iff : d.toGraph = .error error ↔
    IsFirstDuplicate d.vertices error ∨ d.places.Nodup ∧ d.IsFirstSecondOwner error := by
  have hduplicate : (∃ place, firstRepeat? d.places = some place ∧
      error = .duplicateElement place) ↔ IsFirstDuplicate d.vertices error :=
    firstRepeat?_places_eq_some_iff
  rw [← hduplicate, isFirstSecondOwner_iff, ← firstRepeat?_eq_none_iff]
  unfold toGraph
  split
  · next place hplace => simp [hplace, eq_comm]
  · next hplaces =>
    split
    · next child howned => simp [hplaces, howned, eq_comm]
    · next howned => simp [hplaces, howned]

theorem exists_toGraph_iff : (∃ g, d.toGraph = .ok g) ↔ d.places.Nodup ∧ d.owned.Nodup := by
  constructor
  · rintro ⟨g, hg⟩
    rw [← toGraph_eq_ok_iff.1 hg]
    exact ⟨g.places_distinct, g.owned_once⟩
  · rintro ⟨hplaces, howned⟩
    exact ⟨⟨d, hplaces, howned⟩, toGraph_eq_ok_iff.2 rfl⟩

/-- A draft is not finished for the same error for which it has no graph. -/
theorem finish_eq_error_iff : d.finish = .error error ↔ d.toGraph = .error error := by
  have hfinishes := d.finishes
  generalize d.finish = result at hfinishes ⊢
  cases hfinishes with
  | duplicate h =>
    rw [toGraph_eq_error_iff.2 (Or.inl h)]
    simp
  | secondOwner hplaces h =>
    rw [toGraph_eq_error_iff.2 (Or.inr ⟨hplaces, h⟩)]
    simp
  | done hplaces howned =>
    obtain ⟨g, hg⟩ := exists_toGraph_iff.2 ⟨hplaces, howned⟩
    simp [hg]

theorem exists_finish_iff : (∃ g, d.finish = .ok g) ↔ d.places.Nodup ∧ d.owned.Nodup := by
  rw [← exists_toGraph_iff]
  constructor
  · rintro ⟨g, hg⟩
    cases hgraph : d.toGraph with
    | error error => cases hg.symm.trans (finish_eq_error_iff.2 hgraph)
    | ok g' => exact ⟨g', rfl⟩
  · rintro ⟨g', hgraph⟩
    cases hg : d.finish with
    | error error => cases hgraph.symm.trans (finish_eq_error_iff.1 hg)
    | ok g => exact ⟨g, rfl⟩

end Draft

/-! ## Answers -/

theorem Graph.mem_ofKind_iff {g : Graph} {kind : ElementKind} {id : Nat} :
    id ∈ g.ofKind kind ↔ ∃ v, g.vertex? id = some v ∧ v.kind = kind := by
  rw [ofKind, List.mem_filter, vertexIds, List.mem_range, ← vertex?_isSome]
  cases g.vertex? id <;> simp

namespace IndexedGraph

/-- Whether all that a graph is asked is answered as it is in its vertices and edges. -/
structure IsExact (g : IndexedGraph) : Prop where
  find? : ∀ kind path id, g.find? ⟨kind, path⟩ = some id ↔
    ∃ v, g.vertex? id = some v ∧ v.kind = kind ∧ v.path = path
  /-- The vertices of a kind are listed in the order in which they were added. -/
  ascending : ∀ kind, (g.ofKind kind).Pairwise (· < ·)
  ofKind : ∀ kind id, id ∈ g.ofKind kind ↔ ∃ v, g.vertex? id = some v ∧ v.kind = kind
  /-- The kinds part the vertices. -/
  kinds : (ElementKind.all.flatMap g.ofKind).Perm (List.range g.vertices.length)
  owner? : ∀ id owner, g.owner? id = some owner ↔
    ∃ e ∈ g.edges, e.isOwnership = true ∧ e.one = owner ∧ e.two = id
  /-- An edge is listed once where it begins, and nowhere else. -/
  outgoing : ∀ id e number, (g.outgoing id).count (e, number) =
    if g.edge? number = some e ∧ e.one = id then 1 else 0
  /-- An edge is listed once where it ends, and nowhere else. -/
  incoming : ∀ id e number, (g.incoming id).count (e, number) =
    if g.edge? number = some e ∧ e.two = id then 1 else 0

/-- Whether a graph with indices answers as a graph does that has none. -/
structure AnswersAs (g : IndexedGraph) (g' : Graph) : Prop where
  draft : g.toDraft = g'.toDraft
  find? : ∀ place, g.find? place = g'.find? place
  ofKind : ∀ kind, g.ofKind kind = g'.ofKind kind
  owner? : ∀ id, g.owner? id = g'.owner? id
  outgoing : ∀ id, g.outgoing id = g'.outgoing id
  incoming : ∀ id, g.incoming id = g'.incoming id

section Finished

variable {d : Draft} {filed ix : Indices}

theorem find?_eq_some_iff (hplaces : d.places.Nodup) (hfiled : filed.HasFiled d.vertices.zipIdx)
    (hnoted : Indices.HasNoted filed d.edges ix) {place : Place} {id : Nat} :
    find? ⟨d, ix⟩ place = some id ↔ ∃ v, d.vertex? id = some v ∧ v.place = place := by
  have hkeys : (ix.byPlace.map Prod.fst).Nodup := by
    rw [Draft.places, ← List.zipIdx_map_fst 0 d.vertices, List.map_map] at hplaces
    rw [hnoted.byPlace, hfiled.byPlace, List.map_reverse, List.map_map, List.nodup_reverse]
    exact hplaces
  rw [find?, lookup_eq_some_iff_mem hkeys, hnoted.byPlace, hfiled.byPlace, List.mem_reverse]
  simp only [List.mem_map, Prod.exists, List.mk_mem_zipIdx_iff_getElem?, Prod.mk.injEq,
    Draft.vertex?]
  constructor
  · rintro ⟨v, id, hv, rfl, rfl⟩
    exact ⟨v, hv, rfl⟩
  · rintro ⟨v, hv, rfl⟩
    exact ⟨v, id, hv, rfl, rfl⟩

theorem ofKind_eq (hfiled : filed.HasFiled d.vertices.zipIdx)
    (hnoted : Indices.HasNoted filed d.edges ix) (kind : ElementKind) :
    ofKind ⟨d, ix⟩ kind = (d.vertices.zipIdx.filter fun n => n.1.kind == kind).map Prod.snd := by
  rw [ofKind, hnoted.byKind, hfiled.byKind]

theorem ofKind_ascending (hfiled : filed.HasFiled d.vertices.zipIdx)
    (hnoted : Indices.HasNoted filed d.edges ix) (kind : ElementKind) :
    (ofKind ⟨d, ix⟩ kind).Pairwise (· < ·) := by
  have hnumbers : (d.vertices.zipIdx.map Prod.snd).Pairwise (· < ·) := by
    rw [List.zipIdx_map_snd]
    exact List.pairwise_lt_range' 1
  rw [ofKind_eq hfiled hnoted]
  exact hnumbers.sublist (List.filter_sublist.map _)

theorem mem_ofKind_iff (hfiled : filed.HasFiled d.vertices.zipIdx)
    (hnoted : Indices.HasNoted filed d.edges ix) {kind : ElementKind} {id : Nat} :
    id ∈ ofKind ⟨d, ix⟩ kind ↔ ∃ v, d.vertex? id = some v ∧ v.kind = kind := by
  rw [ofKind_eq hfiled hnoted]
  simp [List.mk_mem_zipIdx_iff_getElem?, Draft.vertex?]

theorem owner?_eq_some_iff (howned : d.owned.Nodup) (hnoted : Indices.HasNoted filed d.edges ix)
    {id owner : Nat} : owner? ⟨d, ix⟩ id = some owner ↔
      ∃ e ∈ d.edges, e.isOwnership = true ∧ e.one = owner ∧ e.two = id := by
  have hkeys : (ix.owners.map Prod.fst).Nodup := by
    rw [hnoted.owners, List.map_reverse, List.map_map, List.nodup_reverse]
    exact howned
  rw [owner?, lookup_eq_some_iff_mem hkeys, hnoted.owners, List.mem_reverse]
  simp only [List.mem_map, List.mem_filter, Prod.mk.injEq]
  constructor
  · rintro ⟨e, ⟨he, howns⟩, htwo, hone⟩
    exact ⟨e, he, howns, hone, htwo⟩
  · rintro ⟨e, he, howns, hone, htwo⟩
    exact ⟨e, ⟨he, howns⟩, htwo, hone⟩

end Finished

/-- Of all edges with their numbers, those at one end of which a vertex is are listed once. -/
theorem count_filter_zipIdx (edges : List Edge) (side : Edge → Nat) (id : Nat) (e : Edge)
    (number : Nat) : (edges.zipIdx.filter fun n => side n.1 == id).count (e, number) =
      if edges[number]? = some e ∧ side e = id then 1 else 0 := by
  have hdistinct : edges.zipIdx.Nodup := by
    refine List.Nodup.of_map Prod.snd ?_
    rw [List.zipIdx_map_snd]
    exact List.nodup_range' 1
  have hmem : (e, number) ∈ edges.zipIdx.filter (fun n => side n.1 == id) ↔
      edges[number]? = some e ∧ side e = id := by
    rw [List.mem_filter, List.mk_mem_zipIdx_iff_getElem?, beq_iff_eq]
  split
  · next h => exact List.count_eq_one_of_mem (hdistinct.filter _) (hmem.2 h)
  · next h => exact List.count_eq_zero.2 (mt hmem.1 h)

/-- If each vertex is listed once under its kind, the kinds part the vertices. -/
theorem flatMap_ofKind_perm {g : IndexedGraph}
    (hascending : ∀ kind, (g.ofKind kind).Pairwise (· < ·))
    (hmem : ∀ kind id, id ∈ g.ofKind kind ↔ ∃ v, g.vertex? id = some v ∧ v.kind = kind) :
    (ElementKind.all.flatMap g.ofKind).Perm (List.range g.vertices.length) := by
  have hdistinct : (ElementKind.all.flatMap g.ofKind).Nodup := by
    refine List.nodup_flatMap.2 ⟨fun kind _ => (hascending kind).imp Nat.ne_of_lt, ?_⟩
    refine (show ElementKind.all.Nodup by decide).imp fun {kind kind'} hne id hid hid' => ?_
    obtain ⟨v, hv, hkind⟩ := (hmem kind id).1 hid
    obtain ⟨w, hw, hkind'⟩ := (hmem kind' id).1 hid'
    cases hv.symm.trans hw
    exact hne (hkind.symm.trans hkind')
  refine (List.perm_ext_iff_of_nodup hdistinct List.nodup_range).2 fun id => ?_
  rw [List.mem_flatMap, List.mem_range]
  constructor
  · rintro ⟨kind, -, hid⟩
    obtain ⟨v, hv, -⟩ := (hmem kind id).1 hid
    exact (List.getElem?_eq_some_iff.1 hv).1
  · intro hlt
    exact ⟨_, ElementKind.mem_all _, (hmem _ id).2 ⟨_, List.getElem?_eq_getElem hlt, rfl⟩⟩

theorem IsExact.answersAs {g : IndexedGraph} (h : g.IsExact) {g' : Graph}
    (hdraft : g.toDraft = g'.toDraft) : g.AnswersAs g' where
  draft := hdraft
  find? place := by
    obtain ⟨kind, path⟩ := place
    refine Option.ext fun id => ?_
    rw [h.find? kind path id, Graph.find?_eq_some_iff, hdraft]
    simp [Vertex.place]
  ofKind kind := by
    refine List.Pairwise.eq_of_mem_iff (h.ascending kind)
      (List.pairwise_lt_range.filter _) fun id => ?_
    rw [h.ofKind kind id, Graph.mem_ofKind_iff, hdraft]
  owner? id := by
    refine Option.ext fun owner => ?_
    rw [h.owner? id owner, Graph.owner?_eq_some_iff, hdraft]
    simp only [and_comm, and_left_comm]
  outgoing id := by
    rw [IndexedGraph.outgoing, hdraft]
    rfl
  incoming id := by
    rw [IndexedGraph.incoming, hdraft]
    rfl

end IndexedGraph

/-- The indices of a draft that is finished are exact. -/
theorem Draft.isExact_of_finish {d : Draft} {g : IndexedGraph} (h : d.finish = .ok g) :
    g.toDraft = d ∧ g.IsExact := by
  have hfinishes := d.finishes
  rw [h] at hfinishes
  cases hfinishes with
  | done hplaces howned hfiled hnoted =>
    have hascending := IndexedGraph.ofKind_ascending hfiled hnoted
    have hmem (kind : ElementKind) (id : Nat) :
        id ∈ IndexedGraph.ofKind ⟨d, _⟩ kind ↔ ∃ v, d.vertex? id = some v ∧ v.kind = kind :=
      IndexedGraph.mem_ofKind_iff hfiled hnoted
    exact ⟨rfl, {
      find? := fun kind path id => by
        rw [IndexedGraph.find?_eq_some_iff hplaces hfiled hnoted]
        simp [Vertex.place]
      ascending := hascending
      ofKind := hmem
      kinds := IndexedGraph.flatMap_ofKind_perm hascending hmem
      owner? := fun id owner => IndexedGraph.owner?_eq_some_iff howned hnoted
      outgoing := IndexedGraph.count_filter_zipIdx d.edges Edge.one
      incoming := IndexedGraph.count_filter_zipIdx d.edges Edge.two }⟩

/-- Whatever is asked of a draft, it is finished exactly if no two of its vertices have one place
and no vertex has an owner twice, be it the same one or the vertex itself. Otherwise the error names
the first vertex whose place is taken, or if there is none what is led to by the first edge from an
owner to a vertex that has one. What is finished has the vertices and edges of the draft, and its
indices answer what these say, as the graph of the draft does. -/
theorem a_draft_is_finished_unless_a_place_or_a_vertex_is_taken (calls : List Draft.Call) :
    ((∃ g, (Draft.assembled calls).finish = .ok g) ↔
      (Draft.assembled calls).places.Nodup ∧ (Draft.assembled calls).owned.Nodup) ∧
    (∀ error, (Draft.assembled calls).finish = .error error ↔
      IsFirstDuplicate (Draft.assembled calls).vertices error ∨
        (Draft.assembled calls).places.Nodup ∧
          (Draft.assembled calls).IsFirstSecondOwner error) ∧
    (∀ error, (Draft.assembled calls).finish = .error error ↔
      (Draft.assembled calls).toGraph = .error error) ∧
    ∀ g, (Draft.assembled calls).finish = .ok g → g.toDraft = Draft.assembled calls ∧ g.IsExact ∧
      ∃ g', (Draft.assembled calls).toGraph = .ok g' ∧ g.AnswersAs g' := by
  generalize Draft.assembled calls = d
  refine ⟨Draft.exists_finish_iff, fun error => ?_, fun error => Draft.finish_eq_error_iff,
    fun g hg => ?_⟩
  · rw [Draft.finish_eq_error_iff, Draft.toGraph_eq_error_iff]
  · obtain ⟨hdraft, hexact⟩ := Draft.isExact_of_finish hg
    obtain ⟨g', hg'⟩ := Draft.exists_toGraph_iff.2 (Draft.exists_finish_iff.1 ⟨g, hg⟩)
    refine ⟨hdraft, hexact, g', hg', hexact.answersAs ?_⟩
    rw [hdraft, Draft.toGraph_eq_ok_iff.1 hg']

theorem a_draft_is_finished_unless_a_place_or_a_vertex_is_taken_of_parallel_edges :
    let calls : List Draft.Call := [.vertex ⟨.object, "Q", "Q", .empty⟩,
      .vertex ⟨.field, "a", "Q.a", .empty⟩, .vertex ⟨.inputField, "a", "Q.a", .empty⟩,
      .edge ⟨0, 1, Label.field⟩, .edge ⟨1, 0, Label.typeOf "Q"⟩, .edge ⟨1, 3, Label.argument⟩,
      .edge ⟨1, 0, Label.typeOf "Q"⟩]
    (∃ g, (Draft.assembled calls).finish = .ok g ∧ g.edges.length = 3 ∧
      g.find? ⟨.inputField, "Q.a"⟩ = some 2 ∧ 1 ∈ g.ofKind .field ∧ g.owner? 1 = some 0 ∧
      (g.incoming 0).count (⟨1, 0, Label.typeOf "Q"⟩, 2) = 1) ∧
    ∃ error, (Draft.assembled (calls ++ [.edge ⟨1, 1, Label.argument⟩])).finish = .error error ∧
      error = .multipleParents "Q.a" := by
  intro calls
  obtain ⟨hfinished, -, -, hok⟩ := a_draft_is_finished_unless_a_place_or_a_vertex_is_taken calls
  obtain ⟨-, herror, -, -⟩ := a_draft_is_finished_unless_a_place_or_a_vertex_is_taken
    (calls ++ [.edge ⟨1, 1, Label.argument⟩])
  obtain ⟨g, hg⟩ := hfinished.2 (by decide)
  obtain ⟨hdraft, hexact, -⟩ := hok g hg
  refine ⟨⟨g, hg, ?_, (hexact.find? _ _ _).2 ?_, (hexact.ofKind _ _).2 ?_,
    (hexact.owner? _ _).2 ?_, ?_⟩, _, (herror _).2 (Or.inr ⟨by decide, ?_⟩), rfl⟩
  · rw [hdraft]
    rfl
  · rw [hdraft]
    exact ⟨_, rfl, rfl, rfl⟩
  · rw [hdraft]
    exact ⟨_, rfl, rfl⟩
  · rw [hdraft]
    exact ⟨⟨0, 1, Label.field⟩, by decide, by decide, rfl, rfl⟩
  · rw [hexact.incoming, hdraft]
    rfl
  · exact ⟨[⟨0, 1, Label.field⟩, ⟨1, 0, Label.typeOf "Q"⟩, ⟨1, 0, Label.typeOf "Q"⟩],
      ⟨1, 1, Label.argument⟩, [], ⟨.field, "a", "Q.a", .empty⟩, rfl, by decide, by decide,
      by decide, rfl, rfl⟩

end SchemaDelta
