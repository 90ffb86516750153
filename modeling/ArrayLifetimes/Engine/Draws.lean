/-
A stream of draws that is good enough to fill arrays with.

Each draw is a mix of its position alone, cut to the 53 bits of a number in [0, 1).
-/
import ArrayLifetimes.Engine.Fill

namespace ArrayLifetimes

namespace Draws

/-- Spreads the bits of a word over all of its places. -/
def mix (x : UInt64) : UInt64 :=
  let x := (x ^^^ (x >>> 30)) * 0xbf58476d1ce4e5b9
  let x := (x ^^^ (x >>> 27)) * 0x94d049bb133111eb
  x ^^^ (x >>> 31)

/-- The stream for a seed. -/
def mixed (seed : UInt64) : Draws := fun position =>
  let word := mix (seed + UInt64.ofNat (position + 1) * 0x9e3779b97f4a7c15)
  (Binary64.ofNat (word >>> 11).toNat).mul ⟨0x3ca0000000000000⟩

end Draws

end ArrayLifetimes
