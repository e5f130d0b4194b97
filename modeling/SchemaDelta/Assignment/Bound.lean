import SchemaDelta.Assignment.Cost

/-!
Which choices are open, and how little the open ones can cost.

An element can be assigned to a new one of its kind that is not used, if their owners agree. The
bound on what is still to be paid takes the cheapest open choice of each undecided element, and the
new elements of each kind that must be left.
-/

namespace SchemaDelta.Assignment.Problem

/-! ## Open choices -/

/-- Whether the owner of an old element may be the counterpart of the owner of a new one. As long
as the old owner is not decided, it may. -/
def ownersAgree (decided : List Choice) : Option Role → Option Role → Bool
  | none, none => true
  | some (.anchored source), some owner => owner == .anchored source
  | some (.searched position), some owner =>
    match decided[position]? with
    | none => true
    | some .unmatched => false
    | some (.candidate target) => owner == .searched target
  | _, _ => false

/-- Whether an old element can be assigned to the new one at `target`. -/
def isOpen (decided : List Choice) (old new : Member) (target : Nat) : Bool :=
  new.kind == old.kind && !isUsed decided target && ownersAgree decided old.owner new.owner

/-- The choices open to the old element at `position`, in their order. -/
def openChoices (p : Problem) (decided : List Choice) (position : Nat) : List Choice :=
  match p.olds[position]? with
  | none => []
  | some old =>
    (p.news.zipIdx.filterMap fun (new, target) =>
      if isOpen decided old new target then some (Choice.candidate target) else none)
      ++ [.unmatched]

/-- Whether the choices `choices`, made in order after the decisions `decided`, are all open. -/
def Follows (p : Problem) (decided : List Choice) : List Choice → Prop
  | [] => True
  | choice :: choices =>
    choice ∈ p.openChoices decided decided.length ∧ p.Follows (decided ++ [choice]) choices

/-- An assignment that makes an open choice for every old element. -/
def IsFeasible (p : Problem) (assignment : List Choice) : Prop :=
  assignment.length = p.olds.length ∧ p.Follows [] assignment

/-! ## The bound -/

/-- The least that a choice open to the old element at `position` costs. -/
def cheapest (p : Problem) (decided : List Choice) (position : Nat) : Nat :=
  ((p.openChoices decided position).map (p.choiceCost decided position)).min?.getD 0

/-- The positions of the old elements that are not decided. -/
def undecided (p : Problem) (decided : List Choice) : List Nat :=
  (List.range p.olds.length).drop decided.length

/-- How many old elements of a kind are not decided. -/
def undecidedOfKind (p : Problem) (decided : List Choice) (kind : ElementKind) : Nat :=
  (p.olds.drop decided.length).countP fun old => old.kind == kind

/-- How many new elements of a kind are not used. -/
def availableOfKind (p : Problem) (decided : List Choice) (kind : ElementKind) : Nat :=
  p.news.zipIdx.countP fun (new, target) => new.kind == kind && !isUsed decided target

/-- A lower bound on what is still to be paid after some decisions. -/
def remainder (p : Problem) (decided : List Choice) : Nat :=
  total ((p.undecided decided).map (p.cheapest decided))
    + total (ElementKind.all.map fun kind =>
        p.availableOfKind decided kind - p.undecidedOfKind decided kind)

end SchemaDelta.Assignment.Problem
