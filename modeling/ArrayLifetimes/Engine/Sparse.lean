/-
Sparse input made dense.

The cells of the dense array start as zeros, and the given cells are put in their places
one after the other, so that of two cells for one place the later one stays.  Places are
checked on the way: the first one that is out of range is the error.
-/
import ArrayLifetimes.Fault.Manager

namespace ArrayLifetimes

/-- How work inside the engine ends when it has no result. -/
inductive EngineFault where
  | error (e : EngineError)
  | panic (p : Payload)
  deriving DecidableEq, Repr

namespace Sparse

/-- A signed index as a place below a bound. -/
def checkedIndex (what : String) (index : Int) (bound : Nat) : Except ArgumentFault Nat :=
  if 0 ≤ index ∧ index < bound then .ok index.toNat
  else .error (.outOfRange what index bound)

/-- A cell and the place where it goes. -/
abbrev Placement := Nat × List UInt8

/-- Cells put in their places, in order.  A place outside is passed over. -/
def scatter (cells : Array (List UInt8)) (placements : List Placement) : Array (List UInt8) :=
  placements.foldl (fun cells p => cells.setIfInBounds p.1 p.2) cells

/-- `count` cells of `width` zeros, overwritten by the given ones, as bytes. -/
def dense (count width : Nat) (placements : List Placement) : List UInt8 :=
  (scatter (Array.replicate count (List.replicate width 0)) placements).toList.flatten

/-- The cell at a position in data of cells of equal width. -/
def cellAt (width : Nat) (data : List UInt8) (j : Nat) : List UInt8 :=
  (data.drop (j * width)).take width

/-- The stored value `j`, which belongs to a row. -/
def csrCell (width cols : Nat) (data : List UInt8) (columns : List Int) (row j : Nat) :
    Except ArgumentFault Placement := do
  let col ← checkedIndex "column index" (columns[j]?.getD 0) cols
  return (row * cols + col, cellAt width data j)

/-- The stored values of a row, which are those from one row pointer up to the next. -/
def csrRow (width cols : Nat) (data : List UInt8) (columns : List Int) (row : Nat)
    (pointers : Int × Int) : Except ArgumentFault (List Placement) := do
  let first ← checkedIndex "indptr" pointers.1 (columns.length + 1)
  let last ← checkedIndex "indptr" pointers.2 (columns.length + 1)
  (List.range' first (last - first)).mapM (csrCell width cols data columns row)

/-- The stored values of all rows from `row` on. -/
def csrRows (width cols : Nat) (data : List UInt8) (columns : List Int) :
    Nat → List (Int × Int) → Except ArgumentFault (List Placement)
  | _, [] => .ok []
  | row, pointers :: rest => do
    let here ← csrRow width cols data columns row pointers
    let below ← csrRows width cols data columns (row + 1) rest
    return here ++ below

/-- One row pointer more than there are rows, as a word. -/
def pointerCount (rows : Nat) : Nat := (rows + 1) % Shape.wordLimit

/-- The bytes of a matrix given by compressed sparse rows.

There is one row pointer more than there are rows.  The count is a word, so the largest
number of rows asks for no row pointer at all, and then the first row has none. -/
def csr (width rows cols : Nat) (data : List UInt8) (pointers columns : List Int) :
    Except EngineFault (List UInt8) :=
  if pointers.length ≠ pointerCount rows then
    .error (.error (.invalidArgument (.rowPointerCount pointers.length (pointerCount rows))))
  else if data.length ≠ columns.length * width then
    .error (.error (.invalidArgument (.csrDataLength data.length columns.length)))
  else if pointers.length < rows then
    .error (.panic (.text "index out of bounds: the len is 0 but the index is 0"))
  else
    match csrRows width cols data columns 0 (pointers.zip pointers.tail) with
    | .ok placements => .ok (dense (rows * cols) width placements)
    | .error fault => .error (.error (.invalidArgument fault))

/-- A row is looked for past the end of the data. -/
def pastEnd (last length : Nat) : Payload :=
  .text ("range end index " ++ toString last ++ " out of range for slice of length " ++
    toString length)

/-- The places of given rows, in order, each with its part of the data. -/
def rowPlacements (rows rowBytes : Nat) (data : List UInt8) :
    Nat → List Int → Except EngineFault (List Placement)
  | _, [] => .ok []
  | i, index :: rest =>
    match checkedIndex "row index" index rows with
    | .error fault => .error (.error (.invalidArgument fault))
    | .ok row =>
      if data.length < (i + 1) * rowBytes then
        .error (.panic (pastEnd ((i + 1) * rowBytes) data.length))
      else
        (rowPlacements rows rowBytes data (i + 1) rest).map fun below =>
          (row, cellAt rowBytes data i) :: below

/-- The bytes of given rows, as a word. -/
def givenBytes (given rowBytes : Nat) : Nat := given * rowBytes % Shape.wordLimit

/-- The bytes of an array of `rows` rows, of which some are given.

Their number of bytes is a word as well.  So data may have that number although it does not
reach the last of the rows, which are then looked for past its end. -/
def rowSparse (rows rowBytes : Nat) (data : List UInt8) (indices : List Int) (length : Nat) :
    Except EngineFault (List UInt8) :=
  if data.length ≠ givenBytes indices.length rowBytes then
    .error (.error
      (.invalidArgument (.rowDataLength data.length (givenBytes indices.length rowBytes))))
  else
    (rowPlacements rows rowBytes data 0 indices).map (dense (length / rowBytes) rowBytes)

end Sparse

end ArrayLifetimes
