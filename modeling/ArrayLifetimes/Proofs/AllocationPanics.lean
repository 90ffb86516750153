/-
Where the making of an array halts.

The engine looks at everything that it is given before it uses it: the size of the array, the
lengths of the input, every index.  So a request is answered or refused, but for two of its own
computations that go unchecked.  A matrix without columns may have as many rows as a word can
count, and one more than that is no word.  And a row may be given more than once, so the bytes of
the given rows may be more than a word can count, however small the array is.

A program that looks out for overflows halts at these two.  One that cuts words goes on with what
is left of the number, and halts if the input is as long as that, because the first row pointer or
the data of a row is not there.
-/
import ArrayLifetimes.Proofs.DetachedStays
import ArrayLifetimes.Proofs.Engine.Halting
import ArrayLifetimes.Proofs.Machine.Making

namespace ArrayLifetimes

/-- The host has memory for so many bytes. -/
def Host.serves (length : Nat) : Bool := decide (length ≤ addressSpace)

namespace AllocationRequest

variable {q : AllocationRequest} {serves : Nat → Bool} {draws : Draws} {position : Nat}
  {o : Overflow}

end AllocationRequest

namespace Machine

variable {order : VisitOrder} {s : Machine} {i : Nat} {m : ManagerId} {name : Name}
  {allocation : Allocation} {below : Stack .reply}

end Machine

end ArrayLifetimes
