/-
White space, as Unicode defines it.

The property has twenty-five characters.  Core's `Char.isWhitespace` knows four of
them, all of which are here.
-/

namespace ArrayLifetimes

namespace Text

/-- The White_Space characters, as ranges of code points. -/
def blankRanges : List (Nat × Nat) :=
  [(0x09, 0x0d), (0x20, 0x20), (0x85, 0x85), (0xa0, 0xa0), (0x1680, 0x1680), (0x2000, 0x200a),
    (0x2028, 0x2029), (0x202f, 0x202f), (0x205f, 0x205f), (0x3000, 0x3000)]

def isBlank (c : Char) : Bool :=
  blankRanges.any fun (low, high) => low ≤ c.toNat && c.toNat ≤ high

/-- Without white space at its start. -/
def trimStart (cs : List Char) : List Char := cs.dropWhile isBlank

/-- Without white space at either end. -/
def trim (cs : List Char) : List Char := (trimStart (trimStart cs).reverse).reverse

/-- Characters that ASCII folds to lower case; all others stay as they are. -/
def lowered (cs : List Char) : List Char := cs.map Char.toLower

end Text

end ArrayLifetimes
