import Mathlib.Data.List.Nodup
import SchemaDelta.Edit.Realization
import SchemaDelta.Proofs.Ordering

/-!
What becomes of the edges between two vertices. Each old edge is kept, changed or deleted and each
new one kept, changed or inserted, whatever their labels and however many there are of each.
-/

namespace SchemaDelta

variable {α β : Type}

/-- What becomes of old and new elements: some stay what they are or change into each other, the
others are deleted or inserted. -/
structure Settlement (α : Type) where
  kept : List (α × α)
  changed : List (α × α)
  deleted : List α
  inserted : List α

namespace Settlement

def olds (s : Settlement α) : List α :=
  s.kept.map (·.1) ++ s.changed.map (·.1) ++ s.deleted

def news (s : Settlement α) : List α :=
  s.kept.map (·.2) ++ s.changed.map (·.2) ++ s.inserted

/-- The steps of a settlement, one for each pair that changes and each element deleted or inserted.
-/
def steps (change : α → α → Edit) (delete insert : α → Edit) (s : Settlement α) : List Edit :=
  s.changed.map (fun pair => change pair.1 pair.2) ++ s.deleted.map delete ++ s.inserted.map insert

def map (f : α → β) (s : Settlement α) : Settlement β where
  kept := s.kept.map (Prod.map f f)
  changed := s.changed.map (Prod.map f f)
  deleted := s.deleted.map f
  inserted := s.inserted.map f

def append (s t : Settlement α) : Settlement α where
  kept := s.kept ++ t.kept
  changed := s.changed ++ t.changed
  deleted := s.deleted ++ t.deleted
  inserted := s.inserted ++ t.inserted

theorem olds_map (f : α → β) (s : Settlement α) : (s.map f).olds = s.olds.map f := by
  simp only [olds, map, List.map_append, List.map_map]
  rfl

theorem news_map (f : α → β) (s : Settlement α) : (s.map f).news = s.news.map f := by
  simp only [news, map, List.map_append, List.map_map]
  rfl

theorem map_append (f : α → β) (s t : Settlement α) :
    (s.append t).map f = (s.map f).append (t.map f) := by
  simp [map, append]

theorem olds_append [DecidableEq α] (s t : Settlement α) :
    (s.append t).olds.Perm (s.olds ++ t.olds) := by
  rw [List.perm_iff_count]
  intro a
  simp only [olds, append, List.map_append, List.count_append]
  omega

theorem news_append [DecidableEq α] (s t : Settlement α) :
    (s.append t).news.Perm (s.news ++ t.news) := by
  rw [List.perm_iff_count]
  intro a
  simp only [news, append, List.map_append, List.count_append]
  omega

theorem steps_append (change : α → α → Edit) (delete insert : α → Edit) (s t : Settlement α) :
    ((s.append t).steps change delete insert).Perm
      (s.steps change delete insert ++ t.steps change delete insert) := by
  rw [List.perm_iff_count]
  intro a
  simp only [steps, append, List.map_append, List.count_append]
  omega

end Settlement

/-- The steps of a settlement of vertices and one of edges. -/
def stepsOf (vertices edges : Settlement Nat) : List Edit :=
  vertices.steps .changeVertex .deleteVertex .insertVertex ++
    edges.steps .changeEdge .deleteEdge .insertEdge

/-- Whether a settlement is one of these old and new elements, each of which is in it once, and what
holds of the elements that are kept and of those that change. -/
structure Settles (isKept isChanged : α → α → Prop) (olds news : List α) (s : Settlement α) :
    Prop where
  olds : s.olds.Perm olds
  news : s.news.Perm news
  kept : ∀ pair ∈ s.kept, isKept pair.1 pair.2
  changed : ∀ pair ∈ s.changed, isChanged pair.1 pair.2

namespace Settles

variable {isKept isChanged : α → α → Prop} {olds news : List α} {s : Settlement α}

theorem mem_of_kept (h : Settles isKept isChanged olds news s) {pair : α × α}
    (hpair : pair ∈ s.kept) :
    pair.1 ∈ olds ∧ pair.2 ∈ news := by
  rw [← h.olds.mem_iff, ← h.news.mem_iff]
  simp only [Settlement.olds, Settlement.news, List.mem_append, List.mem_map]
  exact ⟨Or.inl (Or.inl ⟨pair, hpair, rfl⟩), Or.inl (Or.inl ⟨pair, hpair, rfl⟩)⟩

theorem mem_of_changed (h : Settles isKept isChanged olds news s) {pair : α × α}
    (hpair : pair ∈ s.changed) : pair.1 ∈ olds ∧ pair.2 ∈ news := by
  rw [← h.olds.mem_iff, ← h.news.mem_iff]
  simp only [Settlement.olds, Settlement.news, List.mem_append, List.mem_map]
  exact ⟨Or.inl (Or.inr ⟨pair, hpair, rfl⟩), Or.inl (Or.inr ⟨pair, hpair, rfl⟩)⟩

theorem map {isKept' isChanged' : β → β → Prop} (f : α → β) (h : Settles isKept isChanged olds news s)
    (hkept : ∀ a ∈ olds, ∀ b ∈ news, isKept a b → isKept' (f a) (f b))
    (hchanged : ∀ a ∈ olds, ∀ b ∈ news, isChanged a b → isChanged' (f a) (f b)) :
    Settles isKept' isChanged' (olds.map f) (news.map f) (s.map f) where
  olds := by
    rw [Settlement.olds_map]
    exact h.olds.map f
  news := by
    rw [Settlement.news_map]
    exact h.news.map f
  kept := by
    intro pair hpair
    obtain ⟨pair, hmem, rfl⟩ := List.mem_map.1 hpair
    have hmems := h.mem_of_kept hmem
    exact hkept _ hmems.1 _ hmems.2 (h.kept pair hmem)
  changed := by
    intro pair hpair
    obtain ⟨pair, hmem, rfl⟩ := List.mem_map.1 hpair
    have hmems := h.mem_of_changed hmem
    exact hchanged _ hmems.1 _ hmems.2 (h.changed pair hmem)

theorem append [DecidableEq α] {olds' news' : List α} {s' : Settlement α}
    (h : Settles isKept isChanged olds news s) (h' : Settles isKept isChanged olds' news' s') :
    Settles isKept isChanged (olds ++ olds') (news ++ news') (s.append s') where
  olds := (Settlement.olds_append s s').trans (h.olds.append h'.olds)
  news := (Settlement.news_append s s').trans (h.news.append h'.news)
  kept pair hpair := (List.mem_append.1 hpair).elim (h.kept pair) (h'.kept pair)
  changed pair hpair := (List.mem_append.1 hpair).elim (h.changed pair) (h'.changed pair)

theorem of_perm {olds' news' : List α} (h : Settles isKept isChanged olds news s)
    (holds : olds.Perm olds') (hnews : news.Perm news') : Settles isKept isChanged olds' news' s :=
  ⟨h.olds.trans holds, h.news.trans hnews, h.kept, h.changed⟩

end Settles

/-- What satisfies one of two conditions that exclude each other. -/
theorem filter_or_perm {p q : α → Bool} (h : ∀ a, p a = true → q a = false) (as : List α) :
    (as.filter p ++ as.filter q).Perm (as.filter fun a => p a || q a) := by
  induction as with
  | nil => exact .refl _
  | cons a as ih =>
    cases hp : p a with
    | true => simpa [List.filter_cons, hp, h a hp] using ih
    | false =>
      cases hq : q a with
      | true =>
        simp only [List.filter_cons, hp, hq, Bool.false_eq_true, if_false, if_true, Bool.or_true]
        exact List.perm_middle.trans (ih.cons a)
      | false => simpa [List.filter_cons, hp, hq] using ih

namespace Realization

/-! ## Equal labels -/

/-- What cancels are pairs with equal labels, and no label is left on both sides. -/
theorem exists_canceled (olds news : List Strand) :
    ∃ common : List (Strand × Strand),
      (common.map (·.1) ++ (cancel olds news).1).Perm olds ∧
      (common.map (·.2) ++ (cancel olds news).2).Perm news ∧
      (∀ pair ∈ common, pair.1.label = pair.2.label) ∧
      ∀ a ∈ (cancel olds news).1, ∀ b ∈ (cancel olds news).2, a.label ≠ b.label := by
  -- an old edge that finds an equal label takes the first new edge with it away
  induction olds generalizing news with
  | nil => exact ⟨[], by simp [cancel]⟩
  | cons old olds ih =>
    unfold cancel
    by_cases hany : (news.any fun new => new.label == old.label) = true
    · rw [if_pos hany]
      obtain ⟨new, hnew, hlabel⟩ := List.any_eq_true.1 hany
      obtain ⟨new, before, after, -, hlabel, hsplit, herase⟩ :=
        List.exists_of_eraseP (p := fun new => new.label == old.label) hnew hlabel
      obtain ⟨common, holds, hnews, hcommon, hleft⟩ :=
        ih (news.eraseP fun new => new.label == old.label)
      have hback : (new :: news.eraseP fun new => new.label == old.label).Perm news := by
        rw [herase, hsplit]
        exact List.perm_middle.symm
      refine ⟨(old, new) :: common, holds.cons old, (hnews.cons new).trans hback, ?_, hleft⟩
      · intro pair hpair
        rcases List.mem_cons.1 hpair with rfl | hpair
        · exact (beq_iff_eq.1 hlabel).symm
        · exact hcommon pair hpair
    · rw [if_neg hany]
      obtain ⟨common, holds, hnews, hcommon, hleft⟩ := ih news
      refine ⟨common, List.perm_middle.trans (holds.cons old), hnews, hcommon, ?_⟩
      intro a ha b hb
      rcases List.mem_cons.1 ha with rfl | ha
      · -- what is left of the new edges was among them from the start
        have hmem := hnews.mem_iff.1 (List.mem_append_right _ hb)
        intro hlabel
        exact hany (List.any_eq_true.2 ⟨b, hmem, by simp [hlabel]⟩)
      · exact hleft a ha b hb

/-! ## Different labels -/

theorem exists_paired (olds news : List Strand)
    (h : ∀ a ∈ olds, ∀ b ∈ news, a.label ≠ b.label) :
    ∃ s : Settlement Strand, s.kept = [] ∧ s.olds = olds ∧ s.news = news ∧
      (∀ pair ∈ s.changed, pair.1.label ≠ pair.2.label) ∧
      pairOff olds news = (s.map Strand.id).steps .changeEdge .deleteEdge .insertEdge := by
  induction olds generalizing news with
  | nil => exact ⟨⟨[], [], [], news⟩, by simp [Settlement.olds, Settlement.news, Settlement.steps,
      Settlement.map, pairOff]⟩
  | cons old olds ih =>
    cases news with
    | nil => exact ⟨⟨[], [], old :: olds, []⟩, by simp [Settlement.olds, Settlement.news,
        Settlement.steps, Settlement.map, pairOff]⟩
    | cons new news =>
      obtain ⟨⟨kept, changed, deleted, inserted⟩, hkept, holds, hnews, hchanged, hoff⟩ := ih news
        fun a ha b hb => h a (List.mem_cons_of_mem _ ha) b (List.mem_cons_of_mem _ hb)
      cases hkept
      refine ⟨⟨[], (old, new) :: changed, deleted, inserted⟩, rfl, ?_, ?_, ?_, ?_⟩
      · rw [← holds]
        rfl
      · rw [← hnews]
        rfl
      · intro pair hpair
        rcases List.mem_cons.1 hpair with rfl | hpair
        · exact h old List.mem_cons_self new List.mem_cons_self
        · exact hchanged pair hpair
      · rw [pairOff, hoff]
        rfl

/-! ## Bundles -/

/-- Edges between the same vertices that are kept. -/
def IsKept (a b : Strand) : Prop :=
  a.ends = b.ends ∧ a.label = b.label

/-- Edges between the same vertices that change into each other. -/
def IsChanged (a b : Strand) : Prop :=
  a.ends = b.ends ∧ a.label ≠ b.label

/-- Whatever edges are compared, they are settled by their labels. -/
theorem exists_settles_labels (olds news : List Strand) :
    ∃ s, Settles (fun a b => a.label = b.label) (fun a b => a.label ≠ b.label) olds news s ∧
      bundleOperations olds news = (s.map Strand.id).steps .changeEdge .deleteEdge .insertEdge := by
  obtain ⟨common, holds, hnews, hcommon, hleft⟩ :=
    exists_canceled (sortBy Strand.compare olds) (sortBy Strand.compare news)
  obtain ⟨s, hkept, hpairedOlds, hpairedNews, hchanged, hoff⟩ := exists_paired _ _ hleft
  refine ⟨{ s with kept := common }, ⟨?_, ?_, hcommon, hchanged⟩, hoff⟩
  · rw [← hpairedOlds] at holds
    refine List.Perm.trans ?_ (holds.trans (sortBy_perm _ olds))
    simp [Settlement.olds, hkept]
  · rw [← hpairedNews] at hnews
    refine List.Perm.trans ?_ (hnews.trans (sortBy_perm _ news))
    simp [Settlement.news, hkept]

theorem exists_settles_bundle {olds news : List Strand}
    (h : ∀ a ∈ olds, ∀ b ∈ news, a.ends = b.ends) :
    ∃ s, Settles IsKept IsChanged olds news s ∧
      bundleOperations olds news = (s.map Strand.id).steps .changeEdge .deleteEdge .insertEdge := by
  obtain ⟨s, hsettles, hsteps⟩ := exists_settles_labels olds news
  refine ⟨s, ⟨hsettles.olds, hsettles.news, fun pair hpair => ?_, fun pair hpair => ?_⟩, hsteps⟩
  · have hmem := hsettles.mem_of_kept hpair
    exact ⟨h _ hmem.1 _ hmem.2, hsettles.kept pair hpair⟩
  · have hmem := hsettles.mem_of_changed hpair
    exact ⟨h _ hmem.1 _ hmem.2, hsettles.changed pair hpair⟩

/-- What a step on parallel edges is about. -/
theorem mem_bundleOperations {olds news : List Strand} {operation : Edit}
    (h : operation ∈ bundleOperations olds news) :
    (∃ a ∈ olds, ∃ b ∈ news, a.label ≠ b.label ∧ operation = .changeEdge a.id b.id) ∨
      (∃ a ∈ olds, operation = .deleteEdge a.id) ∨ ∃ b ∈ news, operation = .insertEdge b.id := by
  obtain ⟨s, hsettles, hsteps⟩ := exists_settles_labels olds news
  rw [hsteps] at h
  simp only [Settlement.steps, Settlement.map, List.map_map, List.mem_append, List.mem_map] at h
  rcases h with (⟨pair, hpair, rfl⟩ | ⟨a, ha, rfl⟩) | ⟨b, hb, rfl⟩
  · have hmem := hsettles.mem_of_changed hpair
    exact Or.inl ⟨_, hmem.1, _, hmem.2, hsettles.changed pair hpair, rfl⟩
  · exact Or.inr (Or.inl ⟨a, hsettles.olds.mem_iff.1 (List.mem_append_right _ ha), rfl⟩)
  · exact Or.inr (Or.inr ⟨b, hsettles.news.mem_iff.1 (List.mem_append_right _ hb), rfl⟩)

/-- The steps on all bundles settle the edges in them. -/
theorem exists_settles (olds news : List Strand) {bundles : List (Nat × Nat)}
    (hbundles : bundles.Nodup) :
    ∃ s, Settles IsKept IsChanged (olds.filter fun strand => bundles.contains strand.ends)
        (news.filter fun strand => bundles.contains strand.ends) s ∧
      (bundles.flatMap fun ends => bundleOperations (olds.filter fun strand => strand.ends == ends)
        (news.filter fun strand => strand.ends == ends)).Perm
        ((s.map Strand.id).steps .changeEdge .deleteEdge .insertEdge) := by
  induction bundles with
  | nil => exact ⟨⟨[], [], [], []⟩, ⟨by simp [Settlement.olds], by simp [Settlement.news], by simp,
      by simp⟩, by simp [Settlement.steps, Settlement.map]⟩
  | cons ends rest ih =>
    obtain ⟨hnew, hrest⟩ := List.nodup_cons.1 hbundles
    obtain ⟨s', hs', hsteps'⟩ := ih hrest
    -- a strand is in the first bundle or in one of the rest, as no bundle comes twice
    have hends : ∀ a ∈ olds.filter (fun strand => strand.ends == ends),
        ∀ b ∈ news.filter (fun strand => strand.ends == ends), a.ends = b.ends := by
      intro a ha b hb
      rw [beq_iff_eq.1 (List.mem_filter.1 ha).2, beq_iff_eq.1 (List.mem_filter.1 hb).2]
    obtain ⟨s, hs, hsteps⟩ := exists_settles_bundle hends
    have hsplit (strands : List Strand) :
        (strands.filter (fun strand => strand.ends == ends) ++
          strands.filter fun strand => rest.contains strand.ends).Perm
          (strands.filter fun strand => (ends :: rest).contains strand.ends) := by
      simp only [List.contains_cons]
      refine filter_or_perm (fun strand hends => ?_) strands
      rw [beq_iff_eq.1 hends]
      simpa using hnew
    refine ⟨s.append s', (hs.append hs').of_perm (hsplit olds) (hsplit news), ?_⟩
    rw [List.flatMap_cons, hsteps, Settlement.map_append]
    exact (hsteps'.append_left _).trans (Settlement.steps_append _ _ _ _ _).symm

end Realization

end SchemaDelta
