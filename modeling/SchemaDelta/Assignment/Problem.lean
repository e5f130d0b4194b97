import SchemaDelta.Graph.Kind

/-!
Assignment problems: each searched element of an old graph is assigned to a searched element of a
new graph of its kind, or to none. The searched elements of each side stand in an order, and an
element is known by its position in it.

An element is tied to others. Some of them are searched too, and some are anchored, that is matched
before the search; ties to those that cannot be matched are not part of the problem.
-/

namespace SchemaDelta.Assignment

/-- What is known of an element before the search. -/
inductive Role where
  /-- It stays unmatched. -/
  | fixed
  /-- It is matched already, in the pair of this old vertex. -/
  | anchored (source : Nat)
  /-- It is the searched element of its side at this position. -/
  | searched (position : Nat)
  deriving DecidableEq, Repr, Inhabited

/-- An edge as a searched element sees it. -/
structure Tie where
  /-- Whether the edge leads from the searched element. -/
  outgoing : Bool
  /-- What is at the other end, which may be the element itself. -/
  other : Role
  label : String
  deriving DecidableEq, Repr, Inhabited

/-- A searched element. -/
structure Member where
  kind : ElementKind
  name : String
  /-- What owns it. -/
  owner : Option Role
  /-- Its edges; one to itself is there once, as an outgoing one. -/
  ties : List Tie
  deriving DecidableEq, Repr, Inhabited

/-- The searched elements of both sides. -/
structure Problem where
  olds : List Member
  news : List Member
  deriving DecidableEq, Repr, Inhabited

/-! ## Choices -/

/-- What a searched old element is assigned to. -/
inductive Choice where
  /-- To the new element at this position. -/
  | candidate (position : Nat)
  /-- To none. -/
  | unmatched
  deriving DecidableEq, Repr, Inhabited

/-- The order of choices: candidates by position, and to leave unmatched is last. -/
def Choice.compare : Choice → Choice → Ordering
  | candidate a, candidate b => Ord.compare a b
  | candidate _, unmatched => .lt
  | unmatched, candidate _ => .gt
  | unmatched, unmatched => .eq

instance : Ord Choice := ⟨Choice.compare⟩

namespace Choice

@[simp]
theorem compare_candidate (a b : Nat) :
    Ord.compare (candidate a) (candidate b) = Ord.compare a b := rfl

@[simp]
theorem compare_candidate_unmatched (a : Nat) :
    Ord.compare (candidate a) unmatched = .lt := rfl

@[simp]
theorem compare_unmatched_candidate (b : Nat) :
    Ord.compare unmatched (candidate b) = .gt := rfl

instance : Std.TransOrd Choice where
  eq_swap {a b} := by
    cases a <;> cases b
    · exact (Std.OrientedOrd.eq_swap : Ord.compare (_ : Nat) _ = _)
    all_goals rfl
  isLE_trans {a b c} hab hbc := by
    cases a <;> cases b <;> cases c
    · exact (Std.TransOrd.isLE_trans hab hbc : (Ord.compare (_ : Nat) _).isLE = true)
    all_goals simp_all

instance : Std.LawfulEqOrd Choice where
  eq_of_compare {a b} h := by
    cases a <;> cases b <;> simp_all

end Choice

end SchemaDelta.Assignment
