import SchemaDelta.Proofs.Edit.Bundles
import SchemaDelta.Proofs.Edit.Realization

/-!
How many steps it takes to realize the edges of a matching, as a sum over pairs of old vertices and
one over pairs of new vertices.
-/

namespace SchemaDelta

open Assignment

variable {old new : Graph} {m : Matching}

/-- The labels of the edges from one vertex to another. -/
def Graph.labelsBetween (g : Graph) (one two : Nat) : List String :=
  (g.edges.filter fun e => e.one == one && e.two == two).map Edge.label

/-- The pairs of vertices of a graph. -/
def Graph.vertexPairs (g : Graph) : Finset (Nat × Nat) :=
  Finset.range g.vertices.length ×ˢ Finset.range g.vertices.length

namespace Matching

/-- The steps on the old edges from one vertex to another, and on new edges paired with them. -/
def pairCost (m : Matching) (old new : Graph) (pair : Nat × Nat) : Nat :=
  match m.image? pair.1, m.image? pair.2 with
  | some one, some two =>
    labelCost (old.labelsBetween pair.1 pair.2) (new.labelsBetween one two)
  | _, _ => (old.labelsBetween pair.1 pair.2).length

/-- The steps on the new edges from one vertex to another, if they are not paired with old ones. -/
def insertionCost (m : Matching) (new : Graph) (pair : Nat × Nat) : Nat :=
  if (m.preimage? pair.1).isSome && (m.preimage? pair.2).isSome then 0
  else (new.labelsBetween pair.1 pair.2).length

end Matching

/-! ## Edges between pairs of vertices -/

theorem Graph.ends_mem_vertexPairs {g : Graph} {e : Edge} (h : e ∈ g.edges) :
    (e.one, e.two) ∈ g.vertexPairs := by
  have hknown := g.ends_known e h
  exact Finset.mem_product.2 ⟨Finset.mem_range.2 hknown.1, Finset.mem_range.2 hknown.2⟩

theorem Graph.length_labelsBetween (g : Graph) (pair : Nat × Nat) :
    (g.labelsBetween pair.1 pair.2).length =
      g.edges.countP fun e => decide ((e.one, e.two) = pair) := by
  unfold labelsBetween
  rw [List.length_map, ← List.countP_eq_length_filter]
  apply List.countP_congr
  intro e _
  simp [Prod.ext_iff]

/-- The edges between some pairs of vertices, pair by pair. -/
theorem Graph.countP_ends (g : Graph) (q : Nat × Nat → Bool) :
    g.edges.countP (fun e => q (e.one, e.two)) =
      ∑ pair ∈ g.vertexPairs.filter (fun pair => q pair = true),
        (g.labelsBetween pair.1 pair.2).length := by
  have hcount := countP_mem_eq_sum (fun e : Edge => (e.one, e.two))
    (g.vertexPairs.filter fun pair => q pair = true) g.edges
  simp only [← g.length_labelsBetween] at hcount
  rw [← hcount]
  apply List.countP_congr
  intro e he
  simp [Graph.ends_mem_vertexPairs he]

namespace Realization

theorem map_filter_filterMap {α β γ : Type} {f : α → Option β} {p : β → Bool} {q : α → Bool}
    {g : β → γ} {h : α → γ}
    (heq : ∀ a, ((f a).filter p).map g = if q a then some (h a) else none) (as : List α) :
    ((as.filterMap f).filter p).map g = (as.filter q).map h := by
  induction as with
  | nil => rfl
  | cons a as ih =>
    have hhead := heq a
    cases hf : f a with
    | none =>
      rw [hf] at hhead
      cases hq : q a with
      | true => simp [hq] at hhead
      | false => simpa [hf, hq] using ih
    | some b =>
      rw [hf] at hhead
      cases hp : p b with
      | true =>
        cases hq : q a with
        | true =>
          simp only [hp, hq, Option.filter_some, Option.map_some, if_true, Option.some.injEq] at hhead
          simp [hf, hp, hq, hhead, ih]
        | false => simp [hp, hq] at hhead
      | false =>
        cases hq : q a with
        | true => simp [hp, hq] at hhead
        | false => simpa [hf, hp, hq] using ih

theorem map_label_filter_numberedEdges (g : Graph) (one two : Nat) :
    (g.numberedEdges.filter fun entry => entry.1.one == one && entry.1.two == two).map
      (fun entry => entry.1.label) = g.labelsBetween one two := by
  unfold Graph.labelsBetween
  rw [← g.map_fst_numberedEdges, List.filter_map, List.map_map]
  rfl

theorem labels_oldStrands (h : m.IsOneToOne) {source source' one two : Nat}
    (hone : m.image? source = some one) (htwo : m.image? source' = some two) :
    ((old.numberedEdges.filterMap (oldStrand? m)).filter
      (fun strand => strand.ends == (one, two))).map Strand.label =
      old.labelsBetween source source' := by
  rw [← map_label_filter_numberedEdges]
  refine map_filter_filterMap (fun entry => ?_) _
  by_cases hends : entry.1.one = source ∧ entry.1.two = source'
  · simp [oldStrand?, hends, hone, htwo, Strand.ends]
  · rw [if_neg (by simpa using hends), Option.map_eq_none_iff, Option.filter_eq_none_iff]
    intro strand hstrand heq
    simp only [oldStrand?, Option.bind_eq_bind, Option.bind_eq_some_iff] at hstrand
    obtain ⟨one', hone', two', htwo', hstrand⟩ := hstrand
    cases hstrand
    -- another vertex has another counterpart
    obtain ⟨rfl, rfl⟩ := Prod.mk.inj (beq_iff_eq.1 heq)
    exact hends ⟨h.eq_source (Matching.mem_of_image? hone') (Matching.mem_of_image? hone),
      h.eq_source (Matching.mem_of_image? htwo') (Matching.mem_of_image? htwo)⟩

theorem labels_newStrands {one two : Nat} (hone : (m.preimage? one).isSome)
    (htwo : (m.preimage? two).isSome) :
    ((new.numberedEdges.filterMap (newStrand? m)).filter
      (fun strand => strand.ends == (one, two))).map Strand.label = new.labelsBetween one two := by
  rw [← map_label_filter_numberedEdges]
  refine map_filter_filterMap (fun entry => ?_) _
  by_cases hends : entry.1.one = one ∧ entry.1.two = two
  · simp [newStrand?, hends, hone, htwo, Strand.ends]
  · rw [if_neg (by simpa using hends), Option.map_eq_none_iff, Option.filter_eq_none_iff]
    intro strand hstrand heq
    unfold newStrand? at hstrand
    split at hstrand
    · cases hstrand
      exact hends (Prod.mk.inj (beq_iff_eq.1 heq))
    · cases hstrand

/-! ## The steps on edges -/

/-- Whether both vertices of a pair are matched. -/
def bothMatched (m : Matching) (pair : Nat × Nat) : Bool :=
  (m.image? pair.1).isSome && (m.image? pair.2).isSome

/-- The counterparts of both vertices of a pair. -/
def counterparts (m : Matching) (pair : Nat × Nat) : Nat × Nat :=
  ((m.image? pair.1).getD 0, (m.image? pair.2).getD 0)

theorem counterparts_of_bothMatched {pair : Nat × Nat} (h : bothMatched m pair = true) :
    m.image? pair.1 = some (counterparts m pair).1 ∧
      m.image? pair.2 = some (counterparts m pair).2 := by
  unfold bothMatched at h
  rw [Bool.and_eq_true] at h
  obtain ⟨one, hone⟩ := Option.isSome_iff_exists.1 h.1
  obtain ⟨two, htwo⟩ := Option.isSome_iff_exists.1 h.2
  simp [counterparts, hone, htwo]

theorem isNone_oldStrand? (entry : Edge × Nat) :
    (oldStrand? m entry).isNone = !bothMatched m (entry.1.one, entry.1.two) := by
  cases hone : m.image? entry.1.one <;> cases htwo : m.image? entry.1.two <;>
    simp [oldStrand?, bothMatched, hone, htwo]

theorem isNone_newStrand? (entry : Edge × Nat) :
    (newStrand? m entry).isNone =
      !((m.preimage? entry.1.one).isSome && (m.preimage? entry.1.two).isSome) := by
  unfold newStrand?
  cases (m.preimage? entry.1.one).isSome && (m.preimage? entry.1.two).isSome <;> rfl

theorem length_filter_numberedEdges (g : Graph) (q : Nat × Nat → Bool) :
    (g.numberedEdges.filter fun entry => q (entry.1.one, entry.1.two)).length =
      ∑ pair ∈ g.vertexPairs.filter (fun pair => q pair = true),
        (g.labelsBetween pair.1 pair.2).length := by
  rw [← Graph.countP_ends, ← g.map_fst_numberedEdges, List.countP_map,
    ← List.countP_eq_length_filter]
  rfl

theorem sum_insertionCost (new : Graph) (m : Matching) :
    ∑ pair ∈ new.vertexPairs, m.insertionCost new pair =
      ∑ pair ∈ new.vertexPairs.filter (fun pair =>
          (!((m.preimage? pair.1).isSome && (m.preimage? pair.2).isSome)) = true),
        (new.labelsBetween pair.1 pair.2).length := by
  rw [Finset.sum_filter]
  apply Finset.sum_congr rfl
  intro pair _
  unfold Matching.insertionCost
  cases (m.preimage? pair.1).isSome && (m.preimage? pair.2).isSome <;> rfl

theorem pairCost_of_bothMatched (h : m.IsOneToOne) {pair : Nat × Nat}
    (hpair : bothMatched m pair = true) :
    m.pairCost old new pair =
      (bundleOperations
        ((old.numberedEdges.filterMap (oldStrand? m)).filter
          fun strand => strand.ends == counterparts m pair)
        ((new.numberedEdges.filterMap (newStrand? m)).filter
          fun strand => strand.ends == counterparts m pair)).length := by
  obtain ⟨hone, htwo⟩ := counterparts_of_bothMatched hpair
  rw [length_bundleOperations]
  have holds : _ = old.labelsBetween pair.1 pair.2 := labels_oldStrands h hone htwo
  have hnews : _ = new.labelsBetween (counterparts m pair).1 (counterparts m pair).2 :=
    labels_newStrands (h.isSome_preimage? (Matching.mem_of_image? hone))
      (h.isSome_preimage? (Matching.mem_of_image? htwo))
  rw [holds, hnews]
  unfold Matching.pairCost
  rw [hone, htwo]

theorem pairCost_of_not_bothMatched {pair : Nat × Nat} (hpair : bothMatched m pair = false) :
    m.pairCost old new pair = (old.labelsBetween pair.1 pair.2).length := by
  unfold bothMatched at hpair
  unfold Matching.pairCost
  cases hone : m.image? pair.1 with
  | none => rfl
  | some one =>
    cases htwo : m.image? pair.2 with
    | none => rfl
    | some two => simp [hone, htwo] at hpair

theorem counterparts_injOn (h : m.IsOneToOne) {pair pair' : Nat × Nat}
    (hpair : bothMatched m pair = true) (hpair' : bothMatched m pair' = true)
    (heq : counterparts m pair = counterparts m pair') : pair = pair' := by
  obtain ⟨hone, htwo⟩ := counterparts_of_bothMatched hpair
  obtain ⟨hone', htwo'⟩ := counterparts_of_bothMatched hpair'
  rw [← heq] at hone' htwo'
  exact Prod.ext (h.eq_source (Matching.mem_of_image? hone) (Matching.mem_of_image? hone'))
    (h.eq_source (Matching.mem_of_image? htwo) (Matching.mem_of_image? htwo'))

/-- The ends of edges between matched vertices are counterparts of old vertices. -/
theorem exists_counterparts (h : m.IsCorrespondence old new) {strand : Strand}
    (hstrand : strand ∈ old.numberedEdges.filterMap (oldStrand? m) ++
      new.numberedEdges.filterMap (newStrand? m)) :
    ∃ pair ∈ old.vertexPairs.filter (fun pair => bothMatched m pair = true),
      counterparts m pair = strand.ends := by
  rcases List.mem_append.1 hstrand with hold | hnew
  · obtain ⟨x, hx, hone, htwo, -⟩ := mem_oldStrands.1 hold
    refine ⟨(x.one, x.two), Finset.mem_filter.2
      ⟨Graph.ends_mem_vertexPairs (List.mem_of_getElem? hx), ?_⟩, ?_⟩
    · simp [bothMatched, hone, htwo]
    · simp [counterparts, Strand.ends, hone, htwo]
  · obtain ⟨y, -, hone, htwo, hstrand⟩ := mem_newStrands.1 hnew
    obtain ⟨one, hone⟩ := Option.isSome_iff_exists.1 hone
    obtain ⟨two, htwo⟩ := Option.isSome_iff_exists.1 htwo
    have hmem := Matching.mem_of_preimage? hone
    have hmem' := Matching.mem_of_preimage? htwo
    obtain ⟨v, -, hv, -⟩ := h.kinds hmem
    obtain ⟨v', -, hv', -⟩ := h.kinds hmem'
    refine ⟨(one, two), Finset.mem_filter.2 ⟨Finset.mem_product.2 ⟨?_, ?_⟩, ?_⟩, ?_⟩
    · exact Finset.mem_range.2 (Graph.lt_of_vertex? hv)
    · exact Finset.mem_range.2 (Graph.lt_of_vertex? hv')
    · simp [bothMatched, h.isOneToOne.image?_eq_some_iff.2 hmem,
        h.isOneToOne.image?_eq_some_iff.2 hmem']
    · rw [hstrand]
      simp [counterparts, Strand.ends, h.isOneToOne.image?_eq_some_iff.2 hmem,
        h.isOneToOne.image?_eq_some_iff.2 hmem']

/-- Each bundle is between the counterparts of one pair of matched vertices. -/
theorem length_bundles (h : m.IsCorrespondence old new) :
    ((((old.numberedEdges.filterMap (oldStrand? m)) ++
        new.numberedEdges.filterMap (newStrand? m)).map Strand.ends).eraseDups.flatMap fun ends =>
      bundleOperations
        ((old.numberedEdges.filterMap (oldStrand? m)).filter fun strand => strand.ends == ends)
        ((new.numberedEdges.filterMap (newStrand? m)).filter
          fun strand => strand.ends == ends)).length =
      ∑ pair ∈ old.vertexPairs.filter (fun pair => bothMatched m pair = true),
        m.pairCost old new pair := by
  let olds := old.numberedEdges.filterMap (oldStrand? m)
  let news := new.numberedEdges.filterMap (newStrand? m)
  let bundleCost (ends : Nat × Nat) : Nat :=
    (bundleOperations (olds.filter fun strand => strand.ends == ends)
      (news.filter fun strand => strand.ends == ends)).length
  let matched := old.vertexPairs.filter fun pair => bothMatched m pair = true
  -- pairs of matched vertices without edges have no bundle, and cost nothing
  have hsubset : ((olds ++ news).map Strand.ends).toFinset ⊆ matched.image (counterparts m) := by
    intro ends hends
    obtain ⟨strand, hstrand, rfl⟩ := List.mem_map.1 (List.mem_toFinset.1 hends)
    exact Finset.mem_image.2 (exists_counterparts h hstrand)
  have hempty (ends : Nat × Nat) (hnot : ends ∉ ((olds ++ news).map Strand.ends).toFinset) :
      bundleCost ends = 0 := by
    simp only [bundleCost]
    rw [bundleOperations_eq_nil (mt List.mem_toFinset.2 hnot), List.length_nil]
  calc _ = (((olds ++ news).map Strand.ends).eraseDups.map bundleCost).sum := List.length_flatMap
    _ = ∑ ends ∈ ((olds ++ news).map Strand.ends).toFinset, bundleCost ends :=
        sum_map_eraseDups _ _
    _ = ∑ ends ∈ matched.image (counterparts m), bundleCost ends :=
        Finset.sum_subset hsubset fun ends _ hnot => hempty ends hnot
    _ = ∑ pair ∈ matched, bundleCost (counterparts m pair) := by
        apply Finset.sum_image
        intro pair hpair pair' hpair' heq
        exact counterparts_injOn h.isOneToOne (Finset.mem_filter.1 hpair).2
          (Finset.mem_filter.1 hpair').2 heq
    _ = ∑ pair ∈ matched, m.pairCost old new pair :=
        Finset.sum_congr rfl fun pair hpair =>
          (pairCost_of_bothMatched h.isOneToOne (Finset.mem_filter.1 hpair).2).symm

/-- The old edges are paired with new ones or deleted. -/
theorem sum_pairCost_split (old new : Graph) (m : Matching) :
    ∑ pair ∈ old.vertexPairs, m.pairCost old new pair =
      ∑ pair ∈ old.vertexPairs.filter (fun pair => bothMatched m pair = true),
        m.pairCost old new pair +
      ∑ pair ∈ old.vertexPairs.filter (fun pair => (!bothMatched m pair) = true),
        (old.labelsBetween pair.1 pair.2).length := by
  rw [← Finset.sum_filter_add_sum_filter_not old.vertexPairs
    (fun pair => bothMatched m pair = true) (m.pairCost old new)]
  simp only [Bool.not_eq_true, Bool.not_eq_true']
  congr 1
  exact Finset.sum_congr rfl fun pair hpair =>
    pairCost_of_not_bothMatched (Finset.mem_filter.1 hpair).2

theorem length_edgeOperations (h : m.IsCorrespondence old new) :
    (edgeOperations old new m).length =
      ∑ pair ∈ old.vertexPairs, m.pairCost old new pair +
        ∑ pair ∈ new.vertexPairs, m.insertionCost new pair := by
  unfold edgeOperations
  simp only [List.length_append, List.length_map, isNone_oldStrand?, isNone_newStrand?]
  rw [length_filter_numberedEdges old fun pair => !bothMatched m pair,
    length_filter_numberedEdges new fun pair =>
      !((m.preimage? pair.1).isSome && (m.preimage? pair.2).isSome),
    length_bundles h, sum_insertionCost]
  have hsplit := sum_pairCost_split old new m
  omega

end Realization

end SchemaDelta
