/-!
Sums of natural numbers in a list.
-/

namespace SchemaDelta

/-- The sum of the numbers in a list: `List.sum`, from the zero of the natural numbers themselves. -/
def total (ns : List Nat) : Nat :=
  @List.sum Nat instAddNat (@Zero.ofOfNat0 Nat (instOfNatNat 0)) ns

end SchemaDelta
