import SchemaDelta.Analysis.Classification
import SchemaDelta.Proofs.Sums

/-!
What events say of revisions. Details are put together by name, and revisions of one name come from
one step, so that nothing is told twice or mixed up.
-/

namespace SchemaDelta

/-! ## Keys that differ -/

namespace Properties

theorem mem_insertKey {key other : String} {keys : List String} :
    other ∈ insertKey key keys ↔ other = key ∨ other ∈ keys := by
  induction keys with
  | nil => simp [insertKey]
  | cons first rest ih =>
    rw [insertKey]
    split
    · rw [List.mem_cons]
    · split
      · next heq => simp [heq]
      · rw [List.mem_cons, ih, List.mem_cons, or_left_comm]

theorem keys_insertEntry (key value : String) (entries : List (String × String)) :
    (insertEntry key value entries).map (·.1) = insertKey key (entries.map (·.1)) := by
  induction entries with
  | nil => rfl
  | cons first rest ih =>
    rw [insertEntry, List.map_cons, insertKey]
    split
    · rfl
    · split
      · next heq => rw [← heq]; rfl
      · rw [List.map_cons, ih]

theorem insertKey_ascending (key : String) {keys : List String} (h : keys.Pairwise (· < ·)) :
    (insertKey key keys).Pairwise (· < ·) := by
  -- as for entries, with any values
  have hentries := insertEntry_ascending key "" (List.pairwise_map.2 h :
    (keys.map fun key => (key, "")).Pairwise fun a b => a.1 < b.1)
  have hkeys := List.pairwise_map.2 hentries
  rwa [keys_insertEntry, List.map_map, show (·.1) ∘ (fun key : String => (key, "")) = id from rfl,
    List.map_id] at hkeys

theorem keys_ascending (ps : Properties) : ps.keys.Pairwise (· < ·) :=
  List.pairwise_map.2 ps.ascending

theorem jointKeys_ascending (a b : Properties) : (a.jointKeys b).Pairwise (· < ·) := by
  unfold jointKeys
  induction b.keys with
  | nil => exact a.keys_ascending
  | cons key keys ih => exact insertKey_ascending key ih

theorem mem_jointKeys {a b : Properties} {key : String} :
    key ∈ a.jointKeys b ↔ key ∈ a.keys ∨ key ∈ b.keys := by
  unfold jointKeys
  induction b.keys with
  | nil => simp
  | cons first rest ih => rw [List.foldr_cons, mem_insertKey, ih, List.mem_cons, or_left_comm]

theorem mem_keys_of_get? {ps : Properties} {key value : String} (h : ps.get? key = some value) :
    key ∈ ps.keys := by
  obtain ⟨entry, hfind, -⟩ := Option.map_eq_some_iff.1 h
  have hkey : entry.1 = key := by simpa using List.find?_some hfind
  exact hkey ▸ List.mem_map_of_mem (List.mem_of_find?_eq_some hfind)

theorem mem_jointKeys_of_ne {a b : Properties} {key : String} (h : a.get? key ≠ b.get? key) :
    key ∈ a.jointKeys b := by
  rw [mem_jointKeys]
  by_contra hkey
  rw [not_or] at hkey
  cases ha : a.get? key with
  | some value => exact hkey.1 (mem_keys_of_get? ha)
  | none =>
    cases hb : b.get? key with
    | some value => exact hkey.2 (mem_keys_of_get? hb)
    | none => exact h (ha.trans hb.symm)

end Properties

/-! ## Revisions -/

/-- Whether details tell how one vertex became another: its old name if it has another name now, and
then the properties that differ, in the order of their keys and with both values. -/
def AreRevisions (details : List Revision) (v w : Vertex) : Prop :=
  ∃ keys : List String, keys.Pairwise (· < ·) ∧
    (∀ key, key ∈ keys ↔ v.property? key ≠ w.property? key) ∧
    details = (if v.name = w.name then [] else [.renamed v.name]) ++
      keys.map fun key => .propertyChanged ⟨key, v.property? key, w.property? key⟩

theorem areRevisions (v w : Vertex) : AreRevisions (revisions v w) v w := by
  let differs (key : String) : Bool := decide (v.property? key ≠ w.property? key)
  refine ⟨(v.properties.jointKeys w.properties).filter differs, ?_, fun key => ?_, ?_⟩
  · exact (Properties.jointKeys_ascending _ _).filter _
  · rw [List.mem_filter, decide_eq_true_iff, and_iff_right_iff_imp]
    exact Properties.mem_jointKeys_of_ne
  · unfold revisions
    congr 1
    rw [← List.filterMap_eq_map, List.filterMap_filter]
    apply List.filterMap_congr
    intro key _
    by_cases hkey : v.property? key = w.property? key <;> simp [differs, hkey]

/-- The old name of an element, if it is told. -/
theorem renamed_mem_revisions {v w : Vertex} {name : String} :
    .renamed name ∈ revisions v w ↔ v.name ≠ w.name ∧ name = v.name := by
  unfold revisions
  rw [List.mem_append, List.mem_filterMap]
  constructor
  · rintro (h | ⟨key, -, h⟩)
    · split at h
      · cases h
      · next hne =>
        cases List.mem_singleton.1 h
        exact ⟨hne, rfl⟩
    · split at h <;> cases h
  · rintro ⟨hne, rfl⟩
    exact Or.inl (by rw [if_neg hne]; exact List.mem_singleton_self _)

/-! ## Details by name -/

/-- The revision that a detail of an object tells. -/
def ObjectDetail.revision? : ObjectDetail → Option Revision
  | revised revision => some revision
  | addedInterface _ => none

/-- The revisions that an event tells. -/
def Change.revisions : Change → List Revision
  | objectChanged _ details => details.filterMap ObjectDetail.revision?
  | definitionChanged _ _ details => details
  | partChanged _ _ _ details => details
  | added _ | removed _ => []

section Gathered

variable {δ ρ : Type} (pick? : δ → Option ρ)

/-- What some details under a name come to, if anything. -/
def picked? (entry : String × List δ) : Option (String × List ρ) :=
  if (entry.2.filterMap pick?).isEmpty then none else some (entry.1, entry.2.filterMap pick?)

theorem picked?_eq_some_iff {entry : String × List δ} {name : String} {picked : List ρ} :
    picked? pick? entry = some (name, picked) ↔
      entry.1 = name ∧ entry.2.filterMap pick? = picked ∧ picked ≠ [] := by
  unfold picked?
  split
  · next h =>
    rw [List.isEmpty_iff] at h
    simp [h]
  · next h =>
    rw [List.isEmpty_iff] at h
    constructor
    · intro heq
      cases heq
      exact ⟨rfl, rfl, h⟩
    · rintro ⟨rfl, rfl, -⟩
      rfl

theorem filter_eq_singleton {entries : List (String × List ρ)}
    (hnodup : (entries.map (·.1)).Nodup) {name : String} {details : List ρ}
    (h : (name, details) ∈ entries) :
    (entries.filter fun entry => entry.1 == name) = [(name, details)] := by
  induction entries with
  | nil => cases h
  | cons first rest ih =>
    obtain ⟨hfirst, hrest⟩ := List.nodup_cons.1 hnodup
    rcases List.mem_cons.1 h with rfl | h
    · rw [List.filter_cons_of_pos (by simp), List.filter_eq_nil_iff.2]
      intro entry hentry heq
      exact hfirst (List.mem_map.2 ⟨entry, hentry, beq_iff_eq.1 heq⟩)
    · rw [List.filter_cons_of_neg, ih hrest h]
      intro heq
      exact hfirst (List.mem_map.2 ⟨_, h, (beq_iff_eq.1 heq).symm⟩)

theorem filterMap_flatMap_of_name (entries : List (String × List δ)) (name : String) :
    ((entries.filter fun entry => entry.1 == name).flatMap (·.2)).filterMap pick? =
      ((entries.filterMap (picked? pick?)).filter fun entry => entry.1 == name).flatMap (·.2) := by
  induction entries with
  | nil => rfl
  | cons first rest ih =>
    by_cases hname : first.1 = name
    · rw [List.filter_cons_of_pos (by simpa using hname), List.flatMap_cons, List.filterMap_append,
        ih, List.filterMap_cons]
      cases hpicked : picked? pick? first with
      | none =>
        -- an entry of which nothing counts adds nothing on either side
        have hempty : first.2.filterMap pick? = [] := by
          by_contra hne
          simp [picked?, hne] at hpicked
        rw [hempty, List.nil_append]
      | some entry =>
        obtain ⟨heq, hdetails, -⟩ := (picked?_eq_some_iff pick?).1 hpicked
        dsimp only
        rw [List.filter_cons_of_pos (by rw [← heq]; simpa using hname), List.flatMap_cons, hdetails]
    · rw [List.filter_cons_of_neg (by simpa using hname), ih, List.filterMap_cons]
      cases hpicked : picked? pick? first with
      | none => rfl
      | some entry =>
        obtain ⟨heq, -⟩ := (picked?_eq_some_iff pick?).1 hpicked
        dsimp only
        rw [List.filter_cons_of_neg (by rw [← heq]; simpa using hname)]

theorem names_gathered (entries : List (String × List δ)) :
    (gathered entries).map (·.1) = (entries.map (·.1)).eraseDups := by
  unfold gathered
  rw [List.map_map]
  exact List.map_id _

theorem nodup_names_gathered (entries : List (String × List δ)) :
    (((gathered entries).filterMap (picked? pick?)).map (·.1)).Nodup := by
  have hdistinct : ((gathered entries).map (·.1)).Nodup :=
    names_gathered entries ▸ nodup_eraseDups _
  unfold List.Nodup at hdistinct ⊢
  rw [List.pairwise_map] at hdistinct ⊢
  refine hdistinct.filterMap _ fun entry entry' hne result hresult result' hresult' => ?_
  obtain ⟨heq, -⟩ := (picked?_eq_some_iff pick?).1 hresult
  obtain ⟨heq', -⟩ := (picked?_eq_some_iff pick?).1 hresult'
  rwa [← heq, ← heq']

/-- What counts under a name when details are put together is all that counted under it before. -/
theorem mem_gathered_iff {entries : List (String × List δ)} {name : String} {picked : List ρ} :
    (name, picked) ∈ (gathered entries).filterMap (picked? pick?) ↔
      name ∈ entries.map (·.1) ∧ ((entries.filterMap (picked? pick?)).filter
        fun entry => entry.1 == name).flatMap (·.2) = picked ∧ picked ≠ [] := by
  rw [List.mem_filterMap]
  unfold gathered
  simp only [List.mem_map, List.mem_eraseDups, picked?_eq_some_iff]
  constructor
  · rintro ⟨_, ⟨name', hname, rfl⟩, rfl, hpicked, hne⟩
    exact ⟨hname, by rw [← filterMap_flatMap_of_name]; exact hpicked, hne⟩
  · rintro ⟨hname, hpicked, hne⟩
    exact ⟨_, ⟨name, hname, rfl⟩, rfl, by rw [filterMap_flatMap_of_name]; exact hpicked, hne⟩

/-- Where what counts comes under different names, putting details together by name leaves it as it
is. -/
theorem filterMap_gathered_perm {entries : List (String × List δ)}
    (h : ((entries.filterMap (picked? pick?)).map (·.1)).Nodup) :
    ((gathered entries).filterMap (picked? pick?)).Perm (entries.filterMap (picked? pick?)) := by
  apply (List.perm_ext_iff_of_nodup (.of_map _ (nodup_names_gathered pick? entries))
    (.of_map _ h)).2
  rintro ⟨name, picked⟩
  rw [mem_gathered_iff]
  constructor
  · rintro ⟨-, hpicked, hne⟩
    -- something counts under the name, and it is all there is
    obtain ⟨revision, hrevision⟩ := List.exists_mem_of_ne_nil _ hne
    rw [← hpicked] at hrevision
    obtain ⟨⟨name', picked'⟩, hnamed, -⟩ := List.mem_flatMap.1 hrevision
    obtain ⟨hentry, hname⟩ := List.mem_filter.1 hnamed
    obtain rfl : name' = name := by simpa using hname
    rw [filter_eq_singleton h hentry, List.flatMap_singleton] at hpicked
    exact hpicked ▸ hentry
  · intro hentry
    obtain ⟨entry, hmem, hpicked⟩ := List.mem_filterMap.1 hentry
    obtain ⟨hname, -, hne⟩ := (picked?_eq_some_iff pick?).1 hpicked
    refine ⟨List.mem_map.2 ⟨entry, hmem, hname⟩, ?_, hne⟩
    rw [filter_eq_singleton h hentry, List.flatMap_singleton]

end Gathered

end SchemaDelta
