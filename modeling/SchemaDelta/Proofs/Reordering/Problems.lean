import SchemaDelta.Assignment.Sharing
import SchemaDelta.Proofs.Assignment.Labels
import SchemaDelta.Proofs.Assignment.Ties
import SchemaDelta.Proofs.Lists

/-!
Assignment problems that differ in the numbers of the anchored vertices and in the order of ties
only. Choices are open and cost the same in both, so that they have the same search.
-/

namespace SchemaDelta.Assignment

/-! ## Similar problems -/

/-- A role in which an anchored vertex has another number now. -/
def Role.renumbered (f : Nat → Nat) : Role → Role
  | fixed => fixed
  | anchored source => anchored (f source)
  | searched position => searched position

/-- A tie to what has another number now. -/
def Tie.renumbered (f : Nat → Nat) (tie : Tie) : Tie :=
  { tie with other := tie.other.renumbered f }

/-- Whether two elements are the same but for the numbers and the order of ties. -/
structure Member.Similar (f : Nat → Nat) (a b : Member) : Prop where
  kind : a.kind = b.kind
  name : a.name = b.name
  owner : a.owner.map (Role.renumbered f) = b.owner
  ties : (a.ties.map (Tie.renumbered f)).Perm b.ties

/-- Whether two problems have similar elements, in the same order. -/
structure Problem.Similar (f : Nat → Nat) (p q : Problem) : Prop where
  olds : List.Forall₂ (Member.Similar f) p.olds q.olds
  news : List.Forall₂ (Member.Similar f) p.news q.news

theorem Role.renumbered_injective {f : Nat → Nat} (hf : f.Injective) :
    (Role.renumbered f).Injective := by
  intro a b h
  cases a <;> cases b <;> simp only [renumbered, anchored.injEq, reduceCtorEq] at h ⊢
  · exact hf h
  · exact h

/-! ## Ties -/

section Ties

variable {f : Nat → Nat} {decided : List Choice} {position target : Nat}

theorem isDecided_renumbered (role : Role) :
    isDecided decided position (role.renumbered f) = isDecided decided position role := by
  cases role <;> rfl

theorem isLost_renumbered (role : Role) :
    isLost decided position (role.renumbered f) = isLost decided position role := by
  cases role <;> rfl

theorem isInserted_renumbered (tie : Tie) :
    Problem.isInserted decided (tie.renumbered f) = Problem.isInserted decided tie := by
  obtain ⟨outgoing, other, label⟩ := tie
  cases other <;> rfl

theorem preimage?_renumbered (role : Role) : preimage? decided position target (role.renumbered f) =
    (preimage? decided position target role).map (Role.renumbered f) := by
  cases role with
  | fixed => rfl
  | anchored source => rfl
  | searched other =>
    simp only [Role.renumbered, preimage?]
    split
    · rfl
    · cases decided.idxOf? (.candidate other) <;> rfl

theorem pullback?_renumbered (tie : Tie) :
    (tie.renumbered f).pullback? decided position target =
      (tie.pullback? decided position target).map (Tie.renumbered f) := by
  unfold Tie.pullback? Tie.renumbered
  rw [preimage?_renumbered]
  cases preimage? decided position target tie.other <;> rfl

theorem labelsIn_renumbered (hf : f.Injective) (bundle : Bool × Role) (ties : List Tie) :
    labelsIn (bundle.1, bundle.2.renumbered f) (ties.map (Tie.renumbered f)) =
      labelsIn bundle ties := by
  have hbundle (tie : Tie) : ((tie.renumbered f).bundle == (bundle.1, bundle.2.renumbered f)) =
      (tie.bundle == bundle) := by
    obtain ⟨outgoing, other⟩ := bundle
    rw [Bool.eq_iff_iff]
    simp only [Tie.bundle, Tie.renumbered, beq_iff_eq, Prod.mk.injEq,
      (Role.renumbered_injective hf).eq_iff]
  unfold labelsIn
  rw [List.filter_map, List.map_map]
  simp only [Function.comp_def, hbundle]
  rfl

/-- What ties cost depends neither on their order nor on the numbers. -/
theorem tieCost_renumbered (hf : f.Injective) {old new old' new' : List Tie}
    (hold : (old.map (Tie.renumbered f)).Perm old') (hnew : (new.map (Tie.renumbered f)).Perm new') :
    tieCost old' new' = tieCost old new := by
  let renumber : Bool × Role → Bool × Role := fun bundle => (bundle.1, bundle.2.renumbered f)
  let bundles := ((old ++ new).map Tie.bundle).toFinset
  have hrenumber : renumber.Injective := by
    rintro ⟨a, b⟩ ⟨a', b'⟩ h
    obtain ⟨ha, hb⟩ := Prod.mk.inj h
    exact Prod.ext ha (Role.renumbered_injective hf hb)
  have hmem : ∀ tie ∈ old ++ new, tie.bundle ∈ bundles :=
    fun tie htie => List.mem_toFinset.2 (List.mem_map_of_mem htie)
  have hmem' : ∀ tie ∈ old' ++ new', tie.bundle ∈ bundles.image renumber := by
    intro tie' htie'
    rw [← (hold.append hnew).mem_iff, ← List.map_append] at htie'
    obtain ⟨tie, htie, rfl⟩ := List.mem_map.1 htie'
    exact Finset.mem_image_of_mem renumber (hmem tie htie)
  -- the bundles are the same under their numbers, and so a sum over them is
  rw [tieCost_eq_sum hmem, tieCost_eq_sum hmem', Finset.sum_image fun _ _ _ _ h => hrenumber h]
  refine Finset.sum_congr rfl fun bundle _ => ?_
  rw [← labelsIn_renumbered hf bundle old, ← labelsIn_renumbered hf bundle new]
  exact labelCost_perm ((hold.symm.filter _).map _) ((hnew.symm.filter _).map _)

end Ties

/-! ## Choices -/

namespace Problem.Similar

variable {f : Nat → Nat} {p q : Problem} (h : p.Similar f q) (hf : f.Injective)

include h

theorem length_olds : p.olds.length = q.olds.length :=
  h.olds.length_eq

omit h in
theorem unmatchedCost_eq {a b : Member} (hab : a.Similar f b) (decided : List Choice)
    (position : Nat) : unmatchedCost decided position a = unmatchedCost decided position b := by
  unfold unmatchedCost
  rw [← hab.ties.countP_eq, List.countP_map]
  simp only [Function.comp_def, Tie.renumbered, isDecided_renumbered]

omit h in
include hf in
theorem matchedCost_eq {a b a' b' : Member} (hold : a.Similar f a') (hnew : b.Similar f b')
    (decided : List Choice) (position target : Nat) :
    matchedCost decided position target a b = matchedCost decided position target a' b' := by
  unfold matchedCost
  rw [hold.name, hnew.name, ← hold.ties.countP_eq, List.countP_map]
  simp only [Function.comp_def, Tie.renumbered, isLost_renumbered]
  congr 1
  symm
  refine tieCost_renumbered hf (map_filter_perm hold.ties fun tie => ?_)
    (map_filterMap_perm hnew.ties pullback?_renumbered)
  simp only [Tie.renumbered, isDecided_renumbered, isLost_renumbered]

include hf

theorem choiceCost_eq : p.choiceCost = q.choiceCost := by
  funext decided position choice
  unfold choiceCost
  rcases getElem?_of_forall₂ h.olds position with ⟨hp, hq⟩ | ⟨a, a', hp, hq, hold⟩
  · rw [hp, hq]
  · rw [hp, hq]
    cases choice with
    | unmatched => exact unmatchedCost_eq hold decided position
    | candidate target =>
      simp only
      rcases getElem?_of_forall₂ h.news target with ⟨hp, hq⟩ | ⟨b, b', hp, hq, hnew⟩
      · rw [hp, hq]
      · rw [hp, hq]
        exact matchedCost_eq hf hold hnew decided position target

omit h in
theorem ownersAgree_eq {a b a' b' : Member} (hold : a.Similar f a') (hnew : b.Similar f b')
    (decided : List Choice) :
    ownersAgree decided a.owner b.owner = ownersAgree decided a'.owner b'.owner := by
  rw [← hold.owner, ← hnew.owner]
  have hinjective := Role.renumbered_injective hf
  rcases a.owner with _ | _ | source | other <;> rcases b.owner with _ | owner <;> try rfl
  · -- the owner of the first is anchored
    rw [Bool.eq_iff_iff]
    simp only [ownersAgree, Option.map_some, Role.renumbered, beq_iff_eq]
    exact (hinjective.eq_iff (b := .anchored source)).symm
  · -- it is searched, and keeps its position
    simp only [ownersAgree, Option.map_some, Role.renumbered]
    rcases decided[other]? with _ | target | _ <;> try rfl
    rw [Bool.eq_iff_iff]
    simp only [beq_iff_eq]
    exact (hinjective.eq_iff (b := .searched target)).symm

theorem openChoices_eq : p.openChoices = q.openChoices := by
  funext decided position
  unfold openChoices
  rcases getElem?_of_forall₂ h.olds position with ⟨hp, hq⟩ | ⟨a, a', hp, hq, hold⟩
  · rw [hp, hq]
  · rw [hp, hq]
    simp only
    congr 1
    refine filterMap_eq_of_forall₂ (forall₂_zipIdx h.news 0) ?_
    rintro ⟨b, target⟩ ⟨b', -⟩ ⟨hnew, rfl⟩
    have hkind : b.kind = b'.kind := hnew.kind
    simp only [isOpen, hold.kind, hkind, ownersAgree_eq hf hold hnew]
    rfl

omit hf

theorem leftoverCost_eq : p.leftoverCost = q.leftoverCost := by
  funext decided
  unfold leftoverCost
  congr 1
  refine map_eq_of_forall₂ (forall₂_zipIdx h.news 0) ?_
  rintro ⟨b, target⟩ ⟨b', -⟩ ⟨hnew, rfl⟩
  simp only [insertionCost, ← hnew.ties.countP_eq, List.countP_map, Function.comp_def,
    isInserted_renumbered]

include hf

theorem remainder_eq : p.remainder = q.remainder := by
  funext decided
  have hundecided (kind : ElementKind) :
      p.undecidedOfKind decided kind = q.undecidedOfKind decided kind :=
    countP_eq_of_forall₂ (List.forall₂_drop decided.length h.olds) fun a b hab => by rw [hab.kind]
  have havailable (kind : ElementKind) :
      p.availableOfKind decided kind = q.availableOfKind decided kind := by
    refine countP_eq_of_forall₂ (forall₂_zipIdx h.news 0) ?_
    rintro ⟨b, target⟩ ⟨b', -⟩ ⟨hnew, rfl⟩
    have hkind : b.kind = b'.kind := hnew.kind
    simp only [hkind]
  unfold remainder
  simp only [hundecided, havailable]
  unfold undecided
  rw [h.length_olds]
  unfold cheapest
  rw [h.openChoices_eq hf, h.choiceCost_eq hf]

/-! ## The search -/

theorem spending_eq : p.spending = q.spending := by
  funext decided choices
  induction choices generalizing decided with
  | nil => rfl
  | cons choice choices ih => rw [spending, spending, h.choiceCost_eq hf, ih]

theorem nodeAt_eq : p.nodeAt = q.nodeAt := by
  funext decided
  rw [nodeAt, nodeAt, h.spending_eq hf]

theorem moves_eq : p.moves = q.moves := by
  funext node
  rw [moves, moves, h.openChoices_eq hf, h.choiceCost_eq hf]

theorem bound_eq : p.bound = q.bound := by
  funext node
  rw [bound, bound, h.remainder_eq hf]

theorem start_eq : p.start = q.start := by
  unfold start cost
  rw [h.length_olds, h.spending_eq hf, h.leftoverCost_eq]

theorem visit_eq {β : Type} (left : Nat) :
    (p.visit left : Node → Standing → (Standing → Plan β) → Plan β) = q.visit left := by
  funext node best next
  induction left generalizing node best next with
  | zero => rw [visit, visit, outcome, outcome, h.leftoverCost_eq]
  | succ left ih =>
    -- the visits below a node are handed on, so they must be equal as functions
    have hvisit : (p.visit left : Node → Standing → (Standing → Plan β) → Plan β) =
        q.visit left := by
      funext node best next
      exact ih node best next
    rw [visit, visit, hvisit, h.moves_eq hf]
    unfold isHopeless
    rw [h.bound_eq hf]

theorem searchFrom_eq {β : Type} :
    (p.searchFrom : List Choice → Standing → (Standing → Plan β) → Plan β) = q.searchFrom := by
  funext decided best next
  rw [searchFrom, searchFrom, h.length_olds, h.nodeAt_eq hf, h.visit_eq hf]

theorem searchAll_eq {β : Type} :
    (p.searchAll : List (List Choice) → Standing → (Standing → Plan β) → Plan β) =
      q.searchAll := by
  funext parts best next
  induction parts generalizing best next with
  | nil => rfl
  | cons decided rest ih =>
    rw [searchAll, searchAll, h.searchFrom_eq hf]
    simp only [ih]

theorem parts_eq : p.parts = q.parts := by
  have hextensions : p.extensions = q.extensions := by
    funext bestCost decided
    rw [extensions, extensions, h.nodeAt_eq hf, h.moves_eq hf, h.bound_eq hf]
  have hwithin (workers bestCost steps : Nat) (parts : List (List Choice)) :
      p.partsWithin workers bestCost steps parts = q.partsWithin workers bestCost steps parts := by
    induction steps generalizing parts with
    | zero => rfl
    | succ steps ih => rw [partsWithin, partsWithin, hextensions, ih]
  funext workers bestCost
  rw [parts, parts, hwithin, h.length_olds]

/-- Similar problems have the same search, whoever makes it. -/
theorem best?_eq : p.best? = q.best? := by
  have hempty : p.olds.isEmpty = q.olds.isEmpty := by
    rw [Bool.eq_iff_iff, List.isEmpty_iff_length_eq_zero, List.isEmpty_iff_length_eq_zero,
      h.length_olds]
  funext workers allows
  unfold best? plan
  rw [hempty, h.searchFrom_eq hf, h.searchAll_eq hf, h.parts_eq hf, h.start_eq hf]

end Problem.Similar

end SchemaDelta.Assignment
