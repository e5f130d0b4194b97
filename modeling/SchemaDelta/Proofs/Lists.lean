import Mathlib.Data.List.Forall2
import Mathlib.Data.List.Induction
import SchemaDelta.Proofs.Sums

/-!
Results that are there, lists whose elements are related one by one, and values under keys.
-/

namespace SchemaDelta

variable {α β : Type}

/-! ## Results -/

theorem eq_ok_of_toOption {ε : Type} {result : Except ε α} {a : α}
    (h : result.toOption = some a) : result = .ok a := by
  cases result with
  | error e => cases h
  | ok b => exact congrArg Except.ok (Option.some.inj h)

theorem exists_eq_ok {ε : Type} {result : Except ε α} (h : result.toOption.isSome = true) :
    ∃ a, result = .ok a := by
  obtain ⟨a, ha⟩ := Option.isSome_iff_exists.1 h
  exact ⟨a, eq_ok_of_toOption ha⟩

theorem eq_ok_getD {ε : Type} [Inhabited α] {result : Except ε α}
    (h : result.toOption.isSome = true) : result = .ok (result.toOption.getD default) := by
  cases result with
  | error e => cases h
  | ok a => rfl

/-- Whether a result, if it is there, fulfils something. -/
def Yields {ε : Type} (result : Except ε α) (P : α → Prop) : Prop :=
  ∀ a, result = .ok a → P a

theorem yields_ok {ε : Type} {P : α → Prop} {a : α} (h : P a) :
    Yields (.ok a : Except ε α) P := by
  intro b hb
  cases hb
  exact h

theorem yields_bind {ε : Type} {result : Except ε α} {f : α → Except ε β} {P : β → Prop}
    (h : ∀ a, Yields (f a) P) : Yields (result >>= f) P := by
  intro b hb
  cases result with
  | error e => cases hb
  | ok a => exact h a b hb

theorem bind_eq_map_bind {ε γ : Type} {result : Except ε α} {f : α → Except ε γ}
    {g : α → Except ε β} {h : β → γ} (heq : ∀ a, f a = (g a).map h) :
    result >>= f = (result >>= g).map h := by
  cases result with
  | error e => rfl
  | ok a => exact heq a

/-! ## Lists side by side -/

section Forall₂

variable {γ : Type} {R : α → β → Prop} {as : List α} {bs : List β}

theorem exists_mem_right_of_forall₂ (h : List.Forall₂ R as bs) {a : α} (ha : a ∈ as) :
    ∃ b ∈ bs, R a b := by
  induction h with
  | nil => cases ha
  | @cons a' b as bs hR h ih =>
    rcases List.mem_cons.1 ha with rfl | ha
    · exact ⟨b, List.mem_cons_self, hR⟩
    · obtain ⟨b', hb', hR'⟩ := ih ha
      exact ⟨b', List.mem_cons_of_mem b hb', hR'⟩

theorem exists_mem_left_of_forall₂ (h : List.Forall₂ R as bs) {b : β} (hb : b ∈ bs) :
    ∃ a ∈ as, R a b :=
  exists_mem_right_of_forall₂ h.flip hb

theorem exists_mapM_eq_ok {ε : Type} {f : α → Except ε β}
    (h : ∀ a ∈ as, ∃ b, f a = .ok b ∧ R a b) :
    ∃ bs, as.mapM f = .ok bs ∧ List.Forall₂ R as bs := by
  induction as with
  | nil => exact ⟨[], rfl, .nil⟩
  | cons a as ih =>
    obtain ⟨b, hb, hR⟩ := h a List.mem_cons_self
    obtain ⟨bs, hbs, hRs⟩ := ih fun c hc => h c (List.mem_cons_of_mem a hc)
    exact ⟨b :: bs, by rw [List.mapM_cons, hb, hbs]; rfl, .cons hR hRs⟩

theorem mapM_eq_ok_iff {ε : Type} {f : α → Except ε β} :
    as.mapM f = .ok bs ↔ List.Forall₂ (fun a b => f a = .ok b) as bs := by
  induction as generalizing bs with
  | nil =>
    constructor
    · intro h
      cases h
      exact .nil
    · intro h
      cases h
      rfl
  | cons a as ih =>
    rw [List.mapM_cons, List.forall₂_cons_left_iff]
    constructor
    · intro h
      cases ha : f a with
      | error e =>
        rw [ha] at h
        cases h
      | ok b =>
        cases hrest : as.mapM f with
        | error e =>
          rw [ha, hrest] at h
          cases h
        | ok rest =>
          rw [ha, hrest] at h
          cases h
          exact ⟨b, rest, rfl, ih.1 hrest, rfl⟩
    · rintro ⟨b, rest, ha, hrest, rfl⟩
      rw [ha, ih.2 hrest]
      rfl

/-- The results for a list in another order are those for the list, in another order. -/
theorem exists_mapM_of_perm {ε : Type} {f : α → Except ε β} {as' : List α} (hperm : as.Perm as')
    (h : as.mapM f = .ok bs) : ∃ bs', as'.mapM f = .ok bs' ∧ bs.Perm bs' := by
  simp only [mapM_eq_ok_iff] at h ⊢
  induction hperm generalizing bs with
  | nil =>
    cases h
    exact ⟨[], .nil, .refl _⟩
  | cons a _ ih =>
    cases h with
    | cons ha hrest =>
      obtain ⟨bs', hbs', hperm⟩ := ih hrest
      exact ⟨_, .cons ha hbs', hperm.cons _⟩
  | swap a a' as =>
    cases h with
    | cons ha' hrest =>
      cases hrest with
      | cons ha hrest => exact ⟨_, .cons ha (.cons ha' hrest), .swap _ _ _⟩
  | trans _ _ ih ih' =>
    obtain ⟨bs', hbs', hperm⟩ := ih h
    obtain ⟨bs'', hbs'', hperm'⟩ := ih' hbs'
    exact ⟨bs'', hbs'', hperm.trans hperm'⟩

theorem mapM_congr_of_mem {ε : Type} {f g : α → Except ε β} (h : ∀ a ∈ as, f a = g a) :
    as.mapM f = as.mapM g := by
  induction as with
  | nil => rfl
  | cons a as ih =>
    rw [List.mapM_cons, List.mapM_cons, h a List.mem_cons_self,
      ih fun b hb => h b (List.mem_cons_of_mem a hb)]

/-- A list of results has the result of each element. -/
theorem mem_of_mapM_eq_ok {ε : Type} {f : α → Except ε β} {a : α} {b : β}
    (h : as.mapM f = .ok bs) (ha : a ∈ as) (hb : f a = .ok b) : b ∈ bs := by
  obtain ⟨b', hmem, hb'⟩ := exists_mem_right_of_forall₂ (mapM_eq_ok_iff.1 h) ha
  cases hb.symm.trans hb'
  exact hmem

/-- Related elements stand at the same positions. -/
theorem getElem?_of_forall₂ (h : List.Forall₂ R as bs) (i : Nat) :
    (as[i]? = none ∧ bs[i]? = none) ∨ ∃ a b, as[i]? = some a ∧ bs[i]? = some b ∧ R a b := by
  induction h generalizing i with
  | nil => exact Or.inl ⟨rfl, rfl⟩
  | cons hR _ ih =>
    cases i with
    | zero => exact Or.inr ⟨_, _, rfl, rfl, hR⟩
    | succ i => simpa only [List.getElem?_cons_succ] using ih i

theorem forall₂_of_common {cs : List γ} {S : α → γ → Prop} {T : β → γ → Prop}
    (h : List.Forall₂ R as bs) (h' : List.Forall₂ S as cs)
    (hT : ∀ a ∈ as, ∀ b c, R a b → S a c → T b c) : List.Forall₂ T bs cs := by
  induction h generalizing cs with
  | nil =>
    cases h'
    exact .nil
  | @cons a _ _ _ hR _ ih =>
    cases h' with
    | cons hS h' =>
      exact .cons (hT _ List.mem_cons_self _ _ hR hS)
        (ih h' fun b hb => hT b (List.mem_cons_of_mem a hb))

theorem forall₂_zipIdx (h : List.Forall₂ R as bs) (start : Nat) :
    List.Forall₂ (fun x y => R x.1 y.1 ∧ x.2 = y.2) (as.zipIdx start) (bs.zipIdx start) := by
  induction h generalizing start with
  | nil => exact .nil
  | cons hR _ ih => exact .cons ⟨hR, rfl⟩ (ih (start + 1))

theorem map_eq_of_forall₂ {f : α → γ} {g : β → γ} (h : List.Forall₂ R as bs)
    (hfg : ∀ a b, R a b → f a = g b) : as.map f = bs.map g := by
  induction h with
  | nil => rfl
  | cons hR _ ih => rw [List.map_cons, List.map_cons, hfg _ _ hR, ih]

theorem filterMap_eq_of_forall₂ {f : α → Option γ} {g : β → Option γ} (h : List.Forall₂ R as bs)
    (hfg : ∀ a b, R a b → f a = g b) : as.filterMap f = bs.filterMap g := by
  induction h with
  | nil => rfl
  | cons hR _ ih => rw [List.filterMap_cons, List.filterMap_cons, hfg _ _ hR, ih]

theorem countP_eq_of_forall₂ {p : α → Bool} {q : β → Bool} (h : List.Forall₂ R as bs)
    (hpq : ∀ a b, R a b → p a = q b) : as.countP p = bs.countP q := by
  induction h with
  | nil => rfl
  | cons hR _ ih => rw [List.countP_cons, List.countP_cons, hpq _ _ hR, ih]

theorem count_flatMap_of_forall₂ [BEq γ] {f : β → List γ} {c : γ} {p : α → Bool}
    (h : List.Forall₂ R as bs) (hcount : ∀ a b, R a b → (f b).count c = if p a then 1 else 0) :
    (bs.flatMap f).count c = as.countP p := by
  induction h with
  | nil => rfl
  | cons hR _ ih =>
    rw [List.flatMap_cons, List.count_append, List.countP_cons, ih, hcount _ _ hR, Nat.add_comm]

/-- What is picked from what is made of two lists side by side is picked from the lists. -/
theorem filterMap_zip_filterMap {δ ε : Type} {f : α → Option γ} {g : β → Option δ}
    {pick? : γ × δ → Option ε} {pickBefore? : α × β → Option ε} {as : List α} {bs : List β}
    (hlength : as.length = bs.length) (h : ∀ pair ∈ as.zip bs,
      f pair.1 = none ∧ g pair.2 = none ∧ pickBefore? pair = none ∨
        ∃ c d, f pair.1 = some c ∧ g pair.2 = some d ∧ pick? (c, d) = pickBefore? pair) :
    ((as.filterMap f).zip (bs.filterMap g)).filterMap pick? =
      (as.zip bs).filterMap pickBefore? := by
  induction as generalizing bs with
  | nil => rfl
  | cons a as ih =>
    cases bs with
    | nil => cases hlength
    | cons b bs =>
      have hrest := ih (Nat.succ.inj hlength) fun pair hpair => h pair (List.mem_cons_of_mem _ hpair)
      rcases h (a, b) List.mem_cons_self with ⟨hf, hg, hpick⟩ | ⟨c, d, hf, hg, hpick⟩
      · rw [List.filterMap_cons_none hf, List.filterMap_cons_none hg, hrest, List.zip_cons_cons,
          List.filterMap_cons_none hpick]
      · rw [List.filterMap_cons_some hf, List.filterMap_cons_some hg, List.zip_cons_cons,
          List.zip_cons_cons, List.filterMap_cons, List.filterMap_cons, hpick, hrest]

end Forall₂

/-! ## Keys -/

section Keys

variable {κ ν : Type} [BEq κ] [LawfulBEq κ] {entries : List (κ × ν)} {key : κ} {value : ν}

theorem lookup_eq_some_of_mem (hkeys : (entries.map Prod.fst).Nodup)
    (hmem : (key, value) ∈ entries) : entries.lookup key = some value := by
  induction entries with
  | nil => cases hmem
  | cons entry entries ih =>
    obtain ⟨hfirst, hrest⟩ := List.nodup_cons.1 hkeys
    obtain ⟨key', value'⟩ := entry
    rcases List.mem_cons.1 hmem with heq | hlater
    · cases heq
      rw [List.lookup_cons_self]
    · have hne : key ≠ key' := by
        rintro rfl
        exact hfirst (List.mem_map.2 ⟨_, hlater, rfl⟩)
      rw [List.lookup_cons, beq_false_of_ne hne]
      exact ih hrest hlater

theorem mem_of_lookup_eq_some (h : entries.lookup key = some value) : (key, value) ∈ entries := by
  obtain ⟨before, after, rfl, -⟩ := List.lookup_eq_some_iff.1 h
  exact List.mem_append_right _ List.mem_cons_self

theorem lookup_isSome_iff : (entries.lookup key).isSome = true ↔ key ∈ entries.map Prod.fst := by
  constructor
  · intro h
    obtain ⟨value, hvalue⟩ := Option.isSome_iff_exists.1 h
    exact List.mem_map.2 ⟨_, mem_of_lookup_eq_some hvalue, rfl⟩
  · intro h
    obtain ⟨entry, hentry, rfl⟩ := List.mem_map.1 h
    by_contra hnone
    rw [Option.not_isSome_iff_eq_none, List.lookup_eq_none_iff] at hnone
    simpa using hnone entry hentry

/-- What is under different keys is looked up as it is listed. -/
theorem lookup_eq_some_iff_mem (hkeys : (entries.map Prod.fst).Nodup) :
    entries.lookup key = some value ↔ (key, value) ∈ entries :=
  ⟨mem_of_lookup_eq_some, lookup_eq_some_of_mem hkeys⟩

end Keys

/-! ## Renaming -/

section Renaming

variable {γ δ : Type} {f : α → β} {as : List α} {bs : List β}

theorem map_filter_perm {p : α → Bool} {q : β → Bool} (hperm : (as.map f).Perm bs)
    (hpq : ∀ a, q (f a) = p a) : ((as.filter p).map f).Perm (bs.filter q) := by
  have hfilter := hperm.filter q
  rw [List.filter_map] at hfilter
  simpa only [Function.comp_def, hpq] using hfilter

/-- What is picked from renamed elements is what was picked from the elements, renamed. -/
theorem map_filterMap_perm {pick? : α → Option γ} {pickRenamed? : β → Option δ} {g : γ → δ}
    (hperm : (as.map f).Perm bs) (hpick : ∀ a, pickRenamed? (f a) = (pick? a).map g) :
    ((as.filterMap pick?).map g).Perm (bs.filterMap pickRenamed?) := by
  have hpicked := hperm.filterMap pickRenamed?
  rw [List.filterMap_map] at hpicked
  rw [List.map_filterMap]
  simpa only [Function.comp_def, hpick] using hpicked

end Renaming

/-! ## Repeats -/

theorem eraseDups_concat [BEq α] [LawfulBEq α] [DecidableEq α] (as : List α) (a : α) :
    (as ++ [a]).eraseDups = if a ∈ as then as.eraseDups else as.eraseDups ++ [a] := by
  rw [List.eraseDups_append]
  by_cases h : a ∈ as <;> simp [List.removeAll, h, List.eraseDups_cons]

theorem eraseDups_filter [BEq α] [LawfulBEq α] [DecidableEq α] (p : α → Bool) (as : List α) :
    (as.filter p).eraseDups = as.eraseDups.filter p := by
  induction as using List.reverseRecOn with
  | nil => rfl
  | append_singleton as a ih =>
    rw [List.filter_append, eraseDups_concat, apply_ite (List.filter p)]
    cases hp : p a with
    | true => simp [hp, eraseDups_concat, ih]
    | false => simp [hp, ih]

/-- To name something again that was named before makes no difference. -/
theorem eraseDups_append_filter [DecidableEq α] {earlier : List α} {a : α} (ha : a ∈ earlier)
    (middle after : List α) : (earlier ++ (middle.filter (· != a) ++ after)).eraseDups =
      (earlier ++ (middle ++ after)).eraseDups := by
  have hmiddle : (middle.filter (· != a)).filter (fun b => !earlier.elem b) =
      middle.filter fun b => !earlier.elem b := by
    rw [List.filter_filter]
    refine List.filter_congr fun b _ => ?_
    by_cases hb : b = a
    · simp [hb, ha]
    · simp [hb]
  simp only [List.eraseDups_append, List.removeAll, List.filter_append, hmiddle]

theorem eraseDups_perm [BEq α] [LawfulBEq α] {as bs : List α} (h : as.Perm bs) :
    as.eraseDups.Perm bs.eraseDups :=
  (List.perm_ext_iff_of_nodup (nodup_eraseDups as) (nodup_eraseDups bs)).2 fun a => by
    simp [List.mem_eraseDups, h.mem_iff]

theorem eraseDups_map_perm [BEq α] [LawfulBEq α] [BEq β] [LawfulBEq β] {f : α → β}
    (hf : f.Injective) (as : List α) : (as.map f).eraseDups.Perm (as.eraseDups.map f) :=
  (List.perm_ext_iff_of_nodup (nodup_eraseDups _) ((nodup_eraseDups as).map hf)).2 fun b => by
    simp [List.mem_eraseDups]

theorem sublist_flatMap_of_mem (f : α → List β) {as : List α} {a : α} (ha : a ∈ as) :
    (f a).Sublist (as.flatMap f) := by
  rw [List.flatMap_def]
  exact List.sublist_flatten_of_mem (List.mem_map_of_mem ha)

/-- Where only one of different elements makes anything, that is all that is made. -/
theorem flatMap_eq_of_nodup {f : α → List β} {as : List α} (hnodup : as.Nodup) {a : α}
    (hout : a ∉ as → f a = []) (hother : ∀ b ∈ as, b ≠ a → f b = []) : as.flatMap f = f a := by
  by_cases ha : a ∈ as
  · obtain ⟨before, after, rfl⟩ := List.append_of_mem ha
    obtain ⟨-, hafter, hdisjoint⟩ := List.nodup_append.1 hnodup
    have hbefore : before.flatMap f = [] := List.flatMap_eq_nil_iff.2 fun b hb =>
      hother b (List.mem_append_left _ hb) (hdisjoint b hb a List.mem_cons_self)
    have hrest : after.flatMap f = [] := List.flatMap_eq_nil_iff.2 fun b hb =>
      hother b (List.mem_append_right _ (List.mem_cons_of_mem a hb))
        fun heq => (List.nodup_cons.1 hafter).1 (heq ▸ hb)
    rw [List.flatMap_append, List.flatMap_cons, hbefore, hrest, List.nil_append, List.append_nil]
  · rw [hout ha]
    exact List.flatMap_eq_nil_iff.2 fun b hb => hother b hb fun heq => ha (heq ▸ hb)

end SchemaDelta
