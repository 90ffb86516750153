/-
Shapes: the dimensions of an array.

A dimension is a 64-bit word.  The number of elements is the product, taken from
the left; a step that leaves the words has no answer, and neither has the whole
product from there on.
-/
import ArrayLifetimes.Data.DataType
import ArrayLifetimes.Number.Operations

namespace ArrayLifetimes

structure Shape where
  dims : List UInt64
  deriving DecidableEq, Repr, Inhabited

namespace Shape

/-- The least number that is not a 64-bit word. -/
def wordLimit : Nat := 2 ^ 64

/-- The bytes that the largest buffer may hold. -/
def byteLimit : Nat := 2 ^ 63 - 1

/-- A product that is still a word. -/
def checkedMul (a b : Nat) : Option Nat := if a * b < wordLimit then some (a * b) else none

def scalar : Shape := ⟨[]⟩

/-- The shape with the given dimensions, each of them below `wordLimit`. -/
def ofNats (dims : List Nat) : Shape := ⟨dims.map UInt64.ofNat⟩

def rank (s : Shape) : Nat := s.dims.length

/-- The extent along an axis. -/
def get? (s : Shape) (axis : Nat) : Option Nat := (s.dims[axis]?).map UInt64.toNat

/-- The number of elements, if every partial product is a word. -/
def checkedSize (s : Shape) : Option Nat :=
  s.dims.foldlM (fun count d => checkedMul count d.toNat) 1

/-- The number of elements, or the largest word. -/
def size (s : Shape) : Nat := s.checkedSize.getD (wordLimit - 1)

/-- The bytes that an array of this shape takes, if a buffer can hold them. -/
def byteLen (s : Shape) (t : DataType) : Option Nat :=
  (s.checkedSize.bind (checkedMul · t.width)).filter (· ≤ byteLimit)

/-- The dimensions between parentheses: `(2, 3)`. -/
def text (s : Shape) : String :=
  "(" ++ String.intercalate ", " (s.dims.map fun d => toString d.toNat) ++ ")"

/-- A single extent. -/
def vector (n : Nat) : Shape := ofNats [n]

/-- Two extents. -/
def matrix (rows cols : Nat) : Shape := ofNats [rows, cols]

/-- The rows and columns of a shape of rank two. -/
def matrixDims? (s : Shape) : Option (Nat × Nat) :=
  match s.dims with
  | [rows, cols] => some (rows.toNat, cols.toNat)
  | _ => none

end Shape

end ArrayLifetimes
