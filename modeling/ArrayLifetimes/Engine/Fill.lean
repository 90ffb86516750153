/-
Fills: how the memory of a new array is initialised.

A fill gives the bytes of an array of a known size.  Most fills are a number for each
element, stored in the data type.  Random fills take their draws from a stream of
numbers in [0, 1), whose position they move on.  Sparse fills scatter given elements
over zeros.
-/
import ArrayLifetimes.Data.Element
import ArrayLifetimes.Engine.Sparse

namespace ArrayLifetimes

inductive Fill where
  /-- Any contents will do. -/
  | uninit
  | zeros
  | ones
  | value (x : Binary64)
  /-- The bytes themselves. -/
  | data (bytes : List UInt8)
  /-- `start + i · step` at the flat index `i`. -/
  | arange (start step : Binary64)
  /-- Ones on diagonal `k` of a matrix. -/
  | eye (k : Int)
  /-- Evenly spaced from `start` to `stop`, with or without the end. -/
  | linspace (start stop : Binary64) (endpoint : Bool)
  | randomUniform (low high : Binary64)
  | randomNormal (loc scale : Binary64)
  /-- How often each category is drawn, one row of counts after the other.  The last
  category takes the probability that the others leave. -/
  | randomMultinomial (trials : Nat) (probabilities : List Binary64)
  /-- A matrix by compressed sparse rows. -/
  | csr (data : List UInt8) (rowPointers columns : List Int)
  /-- Row `rows[i]` is the i-th row of the data. -/
  | rowSparse (data : List UInt8) (rows : List Int)
  deriving DecidableEq, Repr

/-- An array to be allocated. -/
structure AllocationRequest where
  shape : Shape
  dataType : DataType
  device : Device
  fill : Fill
  deriving DecidableEq, Repr

/-- A stream of draws in [0, 1), by position. -/
abbrev Draws := Nat → Binary64

namespace Fill

/-- Numbers stored one after the other. -/
def stored (t : DataType) (xs : List Binary64) : List UInt8 :=
  xs.flatMap fun x => (Element.ofNumber t x).encode

/-- `count` elements, each computed from its index. -/
def tabulate (t : DataType) (count : Nat) (f : Nat → Binary64) : List UInt8 :=
  (List.range count).flatMap fun i => (Element.ofNumber t (f i)).encode

/-- `start + i · step`. -/
def progression (start step : Binary64) (i : Nat) : Binary64 :=
  start.add ((Binary64.ofNat i).mul step)

/-- The i-th of `count` evenly spaced numbers.  With its end, the last one is exactly
`stop`. -/
def spaced (start stop : Binary64) (endpoint : Bool) (count i : Nat) : Binary64 :=
  let divisions := if endpoint then count - 1 else count
  let step := if 0 < divisions then (stop.sub start).div (Binary64.ofNat divisions)
    else Binary64.zero
  if endpoint && i + 1 == count && decide (1 < count) then stop else progression start step i

/-- Whether the flat index `i` lies on diagonal `k` of a matrix. -/
def onDiagonal (cols : Nat) (k : Int) (i : Nat) : Bool :=
  ((i % cols : Nat) : Int) - ((i / cols : Nat) : Int) == k

def uniform (low high u : Binary64) : Binary64 := low.add ((high.sub low).mul u)

/-- A normally distributed number from two uniform draws, which give the radius and the
angle of a point.  The first draw is turned around, so that its logarithm is finite. -/
def normal (loc scale u v : Binary64) : Binary64 :=
  let radius := Float.sqrt (-2.0 * Float.log (Float.ofBits (Binary64.one.sub u).bits))
  let height := Float.cos (2.0 * 3.141592653589793 * Float.ofBits v.bits)
  loc.add ((scale.mul ⟨radius.toBits⟩).mul ⟨height.toBits⟩)

/-- The category that a draw hits: the first one at which the running sum of the
probabilities exceeds it, and the last one if none of the others does. -/
def category (u : Binary64) (index : Nat) (sum : Binary64) : List Binary64 → Nat
  | p :: q :: rest =>
    let sum := sum.add p
    if u.lt sum then index else category u (index + 1) sum (q :: rest)
  | _ => index

/-- How often each category is hit by the draws from a position on. -/
def countsFrom (draws : Draws) (position trials : Nat) (probabilities : List Binary64) :
    List Nat :=
  (List.range trials).foldl
    (fun counts i =>
      counts.modify (category (draws (position + i)) 0 Binary64.zero probabilities) (· + 1))
    (List.replicate probabilities.length 0)

/-- Rows of counts, each from draws of its own. -/
def multinomial (draws : Draws) (position trials : Nat) (probabilities : List Binary64)
    (rows : Nat) : List Nat :=
  (List.range rows).flatMap fun row =>
    countsFrom draws (position + row * trials) trials probabilities

/-- A fill's bytes, and how many draws it took. -/
structure Result where
  bytes : List UInt8
  drawn : Nat := 0

/-- An argument error of the engine. -/
def refuse {α : Type} (fault : ArgumentFault) : Except EngineFault α :=
  .error (.error (.invalidArgument fault))

/-- The bytes of an array of the given shape and type that takes `length` bytes. -/
def run (draws : Draws) (position : Nat) (shape : Shape) (t : DataType) (length : Nat) :
    Fill → Except EngineFault Result :=
  let count := length / t.width
  fun
  | uninit | zeros => .ok ⟨List.replicate length 0, 0⟩
  | ones => .ok ⟨tabulate t count fun _ => Binary64.one, 0⟩
  | value x => .ok ⟨tabulate t count fun _ => x, 0⟩
  | data bytes =>
    if bytes.length = length then .ok ⟨bytes, 0⟩
    else refuse (.dataLength length t shape bytes.length)
  | arange start step => .ok ⟨tabulate t count (progression start step), 0⟩
  | eye k =>
    match shape.matrixDims? with
    | some (_, cols) =>
      .ok ⟨tabulate t count fun i => if onDiagonal cols k i then Binary64.one else Binary64.zero, 0⟩
    | none => refuse (.notMatrix shape)
  | linspace start stop endpoint => .ok ⟨tabulate t count (spaced start stop endpoint count), 0⟩
  | randomUniform low high =>
    .ok ⟨tabulate t count fun i => uniform low high (draws (position + i)), count⟩
  | randomNormal loc scale =>
    .ok ⟨tabulate t count fun i =>
      normal loc scale (draws (position + 2 * i)) (draws (position + 2 * i + 1)), 2 * count⟩
  | randomMultinomial trials probabilities =>
    let k := probabilities.length
    if k = 0 ∨ shape.dims.getLast?.map UInt64.toNat ≠ some k then refuse (.categories k shape)
    else
      let counts := multinomial draws position trials probabilities (count / k)
      .ok ⟨stored t (counts.map Binary64.ofNat), count / k * trials⟩
  | csr stored pointers columns =>
    match shape.matrixDims? with
    | some (rows, cols) =>
      (Sparse.csr t.width rows cols stored pointers columns).map fun bytes => ⟨bytes, 0⟩
    | none => refuse (.notMatrix shape)
  | rowSparse stored indices =>
    match shape.get? 0 with
    | some rows =>
      let rowBytes := if rows = 0 then 0 else count / rows * t.width
      (Sparse.rowSparse rows rowBytes stored indices length).map fun bytes => ⟨bytes, 0⟩
    | none => refuse .rowSparseRank

end Fill

end ArrayLifetimes
