/-
Classes of characters by their code points.

A class is given by the code points at which it begins and ends by turns, in order: a
character is in it if an odd number of them is not above it.
-/

namespace ArrayLifetimes

namespace Text

/-- Whether a code point is in the class with the given bounds. -/
def inClass (bounds : List Nat) (n : Nat) : Bool := (bounds.takeWhile (· ≤ n)).length % 2 == 1

theorem inClass_nil (n : Nat) : inClass [] n = false := rfl

/-- A class with one bound is everything from there on. -/
theorem inClass_singleton (a n : Nat) : inClass [a] n = decide (a ≤ n) := by
  by_cases h : a ≤ n <;> simp [inClass, h]

end Text

end ArrayLifetimes
