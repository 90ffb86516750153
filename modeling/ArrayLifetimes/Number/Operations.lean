/-
Powers and sums of numbers.

They are those of the core library, also in a module that imports algebra.  There a power
would be taken from the monoid of the numbers, and the same text would mean another term.
-/

namespace ArrayLifetimes

@[default_instance 20000]
instance (priority := 2000) powNat : Pow Nat Nat := instPowNat

@[default_instance 20000]
instance (priority := 2000) powInt : Pow Int Nat := instPowNat

instance (priority := 2000) zeroNat : Zero Nat := Zero.ofOfNat0

instance (priority := 2000) zeroInt : Zero Int := Zero.ofOfNat0

end ArrayLifetimes
