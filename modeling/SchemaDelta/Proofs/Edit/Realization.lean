import SchemaDelta.Proofs.Edit.Ordered
import SchemaDelta.Proofs.Edit.Settlement
import SchemaDelta.Proofs.Sums

/-!
The steps that realize a matching settle the vertices and the edges of both graphs: each of them is
kept, changed, deleted or inserted once.
-/

namespace SchemaDelta

variable {old new : Graph} {m : Matching}

/-! ## Lists -/

theorem zipIdx_eq_map_range {α : Type} [Inhabited α] (as : List α) :
    as.zipIdx = (List.range as.length).map fun i => (as[i]?.getD default, i) := by
  apply List.ext_getElem
  · simp
  · intro i h h'
    have hlt : i < as.length := by simpa using h
    simp [hlt]

theorem filterMap_eq_map_of_eq_some {α β : Type} {f : α → Option β} {g : α → β} {as : List α}
    (h : ∀ a ∈ as, f a = some (g a)) : as.filterMap f = as.map g := by
  induction as with
  | nil => rfl
  | cons a as ih =>
    rw [List.filterMap_cons, h a List.mem_cons_self, List.map_cons,
      ih fun b hb => h b (List.mem_cons_of_mem a hb)]

/-- Numbered things of which some are made into others with their numbers. -/
theorem filterMap_append_filter_perm {α β : Type} {f : α → Option β} {number : α → Nat}
    {id : β → Nat} (h : ∀ a b, f a = some b → id b = number a) (as : List α) :
    ((as.filterMap f).map id ++ (as.filter fun a => (f a).isNone).map number).Perm
      (as.map number) := by
  induction as with
  | nil => exact .refl _
  | cons a as ih =>
    cases hf : f a with
    | none =>
      simp only [List.filterMap_cons, List.filter_cons, hf, Option.isNone_none, if_true,
        List.map_cons]
      exact List.perm_middle.trans (ih.cons _)
    | some b =>
      simp only [List.filterMap_cons, List.filter_cons, hf, Option.isNone_some,
        Bool.false_eq_true, if_false, List.map_cons, h a b hf]
      exact ih.cons _

/-- The numbers up to a bound, with some different ones of them first. -/
theorem append_filter_range_perm {firsts : List Nat} {n : Nat} {isLeft : Nat → Bool}
    (hnodup : firsts.Nodup) (hlt : ∀ id ∈ firsts, id < n)
    (hleft : ∀ id, isLeft id = true ↔ id ∉ firsts) :
    (firsts ++ (List.range n).filter isLeft).Perm (List.range n) := by
  have hdisjoint : (firsts ++ (List.range n).filter isLeft).Nodup := by
    refine List.nodup_append.2 ⟨hnodup, List.nodup_range.filter _, ?_⟩
    rintro id hfirst _ hid rfl
    exact (hleft id).1 (List.mem_filter.1 hid).2 hfirst
  apply (List.perm_ext_iff_of_nodup hdisjoint List.nodup_range).2
  intro id
  rw [List.mem_append, List.mem_filter, hleft, List.mem_range]
  by_cases hfirst : id ∈ firsts
  · simp [hfirst, hlt id hfirst]
  · simp [hfirst]

/-! ## Vertices -/

/-- Whether two vertices are matched and relate. -/
def Matching.RelatesVertices (m : Matching) (old new : Graph) (related : Vertex → Vertex → Prop)
    (source target : Nat) : Prop :=
  (source, target) ∈ m.pairs ∧
    ∃ v w, old.vertex? source = some v ∧ new.vertex? target = some w ∧ related v w

/-- Vertices that are related are of one kind. -/
theorem Matching.RelatesVertices.exists_kind {related : Vertex → Vertex → Prop} {source target : Nat}
    (hrelated : m.RelatesVertices old new related source target) (h : m.IsCorrespondence old new) :
    ∃ v w, old.vertex? source = some v ∧ new.vertex? target = some w ∧
      m.image? source = some target ∧ v.kind = w.kind ∧ related v w := by
  obtain ⟨hmem, v, w, hv, hw, hvw⟩ := hrelated
  obtain ⟨v', w', hv', hw', hkind⟩ := h.kinds hmem
  cases hv.symm.trans hv'
  cases hw.symm.trans hw'
  exact ⟨v, w, hv, hw, h.isOneToOne.image?_eq_some_iff.2 hmem, hkind, hvw⟩

/-- Whether two vertices have one name and the same properties. -/
def Vertex.Agrees (v w : Vertex) : Prop :=
  v.name = w.name ∧ v.properties = w.properties

instance (v w : Vertex) : Decidable (v.Agrees w) :=
  inferInstanceAs (Decidable (_ ∧ _))

namespace Realization

/-- What becomes of the vertices when a matching is realized. -/
def vertexSettlement (old new : Graph) (m : Matching) : Settlement Nat :=
  let agree (pair : Nat × Nat) : Bool :=
    decide (((old.vertex? pair.1).getD default).Agrees ((new.vertex? pair.2).getD default))
  { kept := m.pairs.filter agree
    changed := m.pairs.filter fun pair => !agree pair
    deleted := old.vertexIds.filter fun source => (m.image? source).isNone
    inserted := new.vertexIds.filter fun target => (m.preimage? target).isNone }

theorem vertexSettlement_settles (h : m.IsCorrespondence old new) :
    Settles (m.RelatesVertices old new Vertex.Agrees)
      (m.RelatesVertices old new fun v w => ¬ v.Agrees w) old.vertexIds new.vertexIds
      (vertexSettlement old new m) where
  olds := by
    unfold Settlement.olds vertexSettlement
    rw [← List.map_append]
    refine (((List.filter_append_perm _ m.pairs).map _).append_right _).trans ?_
    refine append_filter_range_perm h.isOneToOne.sources ?_ fun _ => Matching.image?_isNone_iff
    intro source hsource
    obtain ⟨pair, hpair, rfl⟩ := List.mem_map.1 hsource
    obtain ⟨v, w, hv, -⟩ := h.kinds hpair
    exact Graph.lt_of_vertex? hv
  news := by
    unfold Settlement.news vertexSettlement
    rw [← List.map_append]
    refine (((List.filter_append_perm _ m.pairs).map _).append_right _).trans ?_
    refine append_filter_range_perm h.isOneToOne.targets ?_ fun _ => Matching.preimage?_isNone_iff
    intro target htarget
    obtain ⟨pair, hpair, rfl⟩ := List.mem_map.1 htarget
    obtain ⟨v, w, -, hw, -⟩ := h.kinds hpair
    exact Graph.lt_of_vertex? hw
  kept pair hpair := by
    obtain ⟨hmem, hagree⟩ := List.mem_filter.1 hpair
    obtain ⟨v, w, hv, hw, -⟩ := h.kinds hmem
    refine ⟨hmem, v, w, hv, hw, ?_⟩
    simpa [hv, hw] using hagree
  changed pair hpair := by
    obtain ⟨hmem, hagree⟩ := List.mem_filter.1 hpair
    obtain ⟨v, w, hv, hw, -⟩ := h.kinds hmem
    refine ⟨hmem, v, w, hv, hw, ?_⟩
    simpa [hv, hw] using hagree

theorem oldVertexOperation?_of_kept (h : m.IsCorrespondence old new) {source target : Nat}
    (hrelated : m.RelatesVertices old new Vertex.Agrees source target) :
    oldVertexOperation? m new ((old.vertex? source).getD default, source) = none := by
  obtain ⟨v, w, hv, hw, himage, -, hagree⟩ := hrelated.exists_kind h
  unfold oldVertexOperation?
  rw [himage]
  simp only [hv, hw, Option.getD_some]
  exact if_pos hagree

theorem oldVertexOperation?_of_changed (h : m.IsCorrespondence old new) {source target : Nat}
    (hrelated : m.RelatesVertices old new (fun v w => ¬ v.Agrees w) source target) :
    oldVertexOperation? m new ((old.vertex? source).getD default, source) =
      some (.changeVertex source target) := by
  obtain ⟨v, w, hv, hw, himage, -, hagree⟩ := hrelated.exists_kind h
  unfold oldVertexOperation?
  rw [himage]
  simp only [hv, hw, Option.getD_some]
  exact if_neg hagree

theorem vertexOperations_perm (h : m.IsCorrespondence old new) :
    (vertexOperations old new m).Perm
      ((vertexSettlement old new m).steps .changeVertex .deleteVertex .insertVertex) := by
  have hsettles := vertexSettlement_settles h
  unfold vertexOperations Settlement.steps
  refine List.Perm.append ?_ ?_
  · rw [zipIdx_eq_map_range, List.filterMap_map]
    refine (hsettles.olds.filterMap _).symm.trans (List.Perm.of_eq ?_)
    unfold Settlement.olds
    rw [List.filterMap_append, List.filterMap_append, List.filterMap_map, List.filterMap_map]
    have hkept : (vertexSettlement old new m).kept.filterMap
        ((oldVertexOperation? m new ∘ fun i => (old.vertices[i]?.getD default, i)) ∘ (·.1)) = [] :=
      List.filterMap_eq_nil_iff.2 fun pair hpair =>
        oldVertexOperation?_of_kept h (hsettles.kept pair hpair)
    rw [hkept, List.nil_append]
    congr 1
    · exact filterMap_eq_map_of_eq_some fun pair hpair =>
        oldVertexOperation?_of_changed h (hsettles.changed pair hpair)
    · apply filterMap_eq_map_of_eq_some
      intro source hsource
      have hnone := Option.isNone_iff_eq_none.1 (List.mem_filter.1 hsource).2
      simp [oldVertexOperation?, hnone]
  · refine (hsettles.news.filterMap _).symm.trans (List.Perm.of_eq ?_)
    unfold Settlement.news
    rw [List.filterMap_append]
    have hmatched : ((vertexSettlement old new m).kept.map (·.2) ++
        (vertexSettlement old new m).changed.map (·.2)).filterMap (newVertexOperation? m) = [] := by
      apply List.filterMap_eq_nil_iff.2
      intro target htarget
      rw [← List.map_append] at htarget
      obtain ⟨pair, hpair, rfl⟩ := List.mem_map.1 htarget
      have hmem : pair ∈ m.pairs :=
        (List.mem_append.1 hpair).elim (fun h => (List.mem_filter.1 h).1)
          fun h => (List.mem_filter.1 h).1
      simp [newVertexOperation?, h.isOneToOne.preimage?_eq_some_iff.2 hmem]
    rw [hmatched, List.nil_append]
    apply filterMap_eq_map_of_eq_some
    intro target htarget
    have hnone := Option.isNone_iff_eq_none.1 (List.mem_filter.1 htarget).2
    simp [newVertexOperation?, hnone]

end Realization

/-! ## Edges -/

theorem Graph.map_fst_numberedEdges (g : Graph) : g.numberedEdges.map (·.1) = g.edges :=
  List.zipIdx_map_fst 0 g.edges

theorem Graph.map_snd_numberedEdges (g : Graph) :
    g.numberedEdges.map (·.2) = List.range g.edges.length := by
  rw [Graph.numberedEdges, List.zipIdx_map_snd, List.range_eq_range']

/-- Whether two edges lead between matched vertices and their labels relate. -/
def Matching.RelatesEdges (m : Matching) (old new : Graph) (related : String → String → Prop)
    (source target : Nat) : Prop :=
  ∃ x y, old.edge? source = some x ∧ new.edge? target = some y ∧
    (x.one, y.one) ∈ m.pairs ∧ (x.two, y.two) ∈ m.pairs ∧ related x.label y.label

namespace Matching.RelatesEdges

variable {related : String → String → Prop} {source target : Nat} {e : Edge}

/-- Both ends of an old edge that is related to a new one are matched. -/
theorem old_matched (h : m.RelatesEdges old new related source target)
    (he : old.edge? source = some e) :
    (∃ target, (e.one, target) ∈ m.pairs) ∧ ∃ target, (e.two, target) ∈ m.pairs := by
  obtain ⟨x, y, hx, -, hone, htwo, -⟩ := h
  cases he.symm.trans hx
  exact ⟨⟨_, hone⟩, _, htwo⟩

theorem new_matched (h : m.RelatesEdges old new related source target)
    (he : new.edge? target = some e) :
    (∃ source, (source, e.one) ∈ m.pairs) ∧ ∃ source, (source, e.two) ∈ m.pairs := by
  obtain ⟨x, y, -, hy, hone, htwo, -⟩ := h
  cases he.symm.trans hy
  exact ⟨⟨_, hone⟩, _, htwo⟩

end Matching.RelatesEdges

namespace Realization

theorem mem_oldStrands {strand : Strand} :
    strand ∈ old.numberedEdges.filterMap (oldStrand? m) ↔ ∃ x, old.edge? strand.id = some x ∧
      m.image? x.one = some strand.one ∧ m.image? x.two = some strand.two ∧
      strand.label = x.label := by
  unfold Graph.numberedEdges
  simp only [List.mem_filterMap, Prod.exists, List.mem_zipIdx_iff_getElem?, oldStrand?]
  constructor
  · rintro ⟨x, id, hx, hstrand⟩
    obtain ⟨one, hone, two, htwo, rfl⟩ : ∃ one, m.image? x.one = some one ∧
        ∃ two, m.image? x.two = some two ∧ ⟨one, two, x.label, id⟩ = strand := by
      simpa [Option.bind_eq_some_iff] using hstrand
    exact ⟨x, hx, hone, htwo, rfl⟩
  · rintro ⟨x, hx, hone, htwo, hlabel⟩
    exact ⟨x, strand.id, hx, by simp [hone, htwo, ← hlabel]⟩

theorem mem_newStrands {strand : Strand} :
    strand ∈ new.numberedEdges.filterMap (newStrand? m) ↔ ∃ y, new.edge? strand.id = some y ∧
      (m.preimage? y.one).isSome ∧ (m.preimage? y.two).isSome ∧
      strand = ⟨y.one, y.two, y.label, strand.id⟩ := by
  unfold Graph.numberedEdges
  simp only [List.mem_filterMap, Prod.exists, List.mem_zipIdx_iff_getElem?, newStrand?]
  constructor
  · rintro ⟨y, id, hy, hstrand⟩
    split at hstrand
    · next hmatched =>
      cases hstrand
      rw [Bool.and_eq_true] at hmatched
      exact ⟨y, hy, hmatched.1, hmatched.2, rfl⟩
    · cases hstrand
  · rintro ⟨y, hy, hone, htwo, hstrand⟩
    exact ⟨y, strand.id, hy, by rw [if_pos (by simp [hone, htwo]), ← hstrand]⟩

theorem relatesEdges_of_strands {a b : Strand} {related : String → String → Prop}
    (ha : a ∈ old.numberedEdges.filterMap (oldStrand? m))
    (hb : b ∈ new.numberedEdges.filterMap (newStrand? m)) (hends : a.ends = b.ends)
    (hlabel : related a.label b.label) : m.RelatesEdges old new related a.id b.id := by
  obtain ⟨x, hx, hone, htwo, hxlabel⟩ := mem_oldStrands.1 ha
  obtain ⟨y, hy, -, -, hstrand⟩ := mem_newStrands.1 hb
  rw [hstrand] at hends hlabel
  obtain ⟨hxone, hxtwo⟩ := Prod.mk.inj hends
  rw [hxone] at hone
  rw [hxtwo] at htwo
  rw [hxlabel] at hlabel
  exact ⟨x, y, hx, hy, Matching.mem_of_image? hone, Matching.mem_of_image? htwo, hlabel⟩

/-- An old edge is in a strand, or one of its ends is not matched. -/
theorem oldStrands_append_lost_perm (old : Graph) (m : Matching) :
    ((old.numberedEdges.filterMap (oldStrand? m)).map Strand.id ++
      (old.numberedEdges.filter fun entry => (oldStrand? m entry).isNone).map (·.2)).Perm
      (List.range old.edges.length) := by
  rw [← Graph.map_snd_numberedEdges]
  apply filterMap_append_filter_perm
  intro entry strand h
  simp only [oldStrand?, Option.bind_eq_bind, Option.bind_eq_some_iff] at h
  obtain ⟨one, -, two, -, h⟩ := h
  cases h
  rfl

theorem newStrands_append_lost_perm (new : Graph) (m : Matching) :
    ((new.numberedEdges.filterMap (newStrand? m)).map Strand.id ++
      (new.numberedEdges.filter fun entry => (newStrand? m entry).isNone).map (·.2)).Perm
      (List.range new.edges.length) := by
  rw [← Graph.map_snd_numberedEdges]
  apply filterMap_append_filter_perm
  intro entry strand h
  unfold newStrand? at h
  split at h
  · cases h
    rfl
  · cases h

/-- The steps on the edges settle them all. -/
theorem exists_settles_edges (old new : Graph) (m : Matching) :
    ∃ s, Settles (m.RelatesEdges old new (· = ·)) (m.RelatesEdges old new (· ≠ ·))
        (List.range old.edges.length) (List.range new.edges.length) s ∧
      (edgeOperations old new m).Perm (s.steps .changeEdge .deleteEdge .insertEdge) := by
  let olds := old.numberedEdges.filterMap (oldStrand? m)
  let news := new.numberedEdges.filterMap (newStrand? m)
  let deleted := old.numberedEdges.filter fun entry => (oldStrand? m entry).isNone
  let inserted := new.numberedEdges.filter fun entry => (newStrand? m entry).isNone
  obtain ⟨s, hs, hsteps⟩ :=
    exists_settles olds news (nodup_eraseDups ((olds ++ news).map Strand.ends))
  -- the bundles are made of the ends of all strands, so none is left out
  have hall (strand : Strand) (h : strand ∈ olds ++ news) :
      ((olds ++ news).map Strand.ends).eraseDups.contains strand.ends = true := by
    rw [List.contains_iff_mem, List.mem_eraseDups]
    exact List.mem_map_of_mem h
  rw [List.filter_eq_self.2 fun strand h => hall strand (List.mem_append_left _ h),
    List.filter_eq_self.2 fun strand h => hall strand (List.mem_append_right _ h)] at hs
  have hmatched : Settles (m.RelatesEdges old new (· = ·)) (m.RelatesEdges old new (· ≠ ·))
      (olds.map Strand.id) (news.map Strand.id) (s.map Strand.id) := by
    refine hs.map Strand.id ?_ ?_
    · exact fun a ha b hb h => relatesEdges_of_strands ha hb h.1 h.2
    · exact fun a ha b hb h => relatesEdges_of_strands ha hb h.1 h.2
  -- edges with an end that is not matched
  let lost : Settlement Nat := ⟨[], [], deleted.map (·.2), inserted.map (·.2)⟩
  have hlost : Settles (m.RelatesEdges old new (· = ·)) (m.RelatesEdges old new (· ≠ ·))
      (deleted.map (·.2)) (inserted.map (·.2)) lost :=
    ⟨.refl _, .refl _, List.forall_mem_nil _, List.forall_mem_nil _⟩
  refine ⟨(s.map Strand.id).append lost, ?_, ?_⟩
  · exact (hmatched.append hlost).of_perm (oldStrands_append_lost_perm old m)
      (newStrands_append_lost_perm new m)
  · refine List.Perm.trans ?_ (Settlement.steps_append _ _ _ _ _).symm
    refine List.Perm.trans List.perm_append_comm (hsteps.append (List.Perm.of_eq ?_))
    simp only [Settlement.steps, lost, List.map_nil, List.nil_append, List.map_map]
    rfl

end Realization

/-! ## All steps -/

open Realization in
/-- A matching is realized by steps that settle the vertices and the edges of both graphs. -/
theorem Matching.IsCorrespondence.exists_operations_perm (h : m.IsCorrespondence old new) :
    ∃ edges : Settlement Nat,
      Settles (m.RelatesEdges old new (· = ·)) (m.RelatesEdges old new (· ≠ ·))
        (List.range old.edges.length) (List.range new.edges.length) edges ∧
      (m.operations old new).Perm (stepsOf (vertexSettlement old new m) edges) := by
  obtain ⟨edges, hedges, hsteps⟩ := exists_settles_edges old new m
  exact ⟨edges, hedges, (ordered_perm old new _).trans ((vertexOperations_perm h).append hsteps)⟩

end SchemaDelta
