/-
An engine in host memory.

It keeps every array in a table of buffers, numbers its handles from one and never uses a
number twice.  It counts what it allocates and releases.

Four operations are named: `copy`, `reshape`, `add` and `mul_scalar`.  Each gives one
array.  It becomes a new buffer, or its bytes go into a buffer that can hold them; either
way it is computed first, from the buffers as they are.
-/
import ArrayLifetimes.Data.Keyed
import ArrayLifetimes.Engine.Fill
import ArrayLifetimes.Engine.Params

namespace ArrayLifetimes

/-- The number of an array in the engine. -/
structure Handle where
  number : Nat
  deriving DecidableEq, Repr, Inhabited

/-- A handle in diagnostics: hexadecimal. -/
def Handle.text (h : Handle) : String := "0x" ++ String.ofList (Nat.toDigits 16 h.number)

structure Buffer where
  bytes : List UInt8
  shape : Shape
  dataType : DataType
  device : Device
  deriving DecidableEq, Repr

/-- The numbers that a buffer holds. -/
def Buffer.numbers (b : Buffer) : List Binary64 :=
  (decodeElements b.dataType b.bytes).map Element.toNumber

/-- A buffer with other numbers. -/
def Buffer.withNumbers (b : Buffer) (xs : List Binary64) : Buffer :=
  { b with bytes := Fill.stored b.dataType xs }

/-- An array that the engine has made. -/
structure NativeArray where
  handle : Handle
  shape : Shape
  dataType : DataType
  device : Device
  deriving DecidableEq, Repr

structure Host where
  buffers : Keyed Handle Buffer := {}
  nextHandle : Nat := 1
  allocated : Nat := 0
  released : Nat := 0
  /-- The draws that random fills take, and how many of them are taken. -/
  draws : Draws
  drawn : Nat := 0

namespace Host

/-- The most bytes that the host serves: its address space. -/
def addressSpace : Nat := 2 ^ 47

/-- The number of live handles. -/
def live (h : Host) : Nat := h.buffers.size

def contains (h : Host) (x : Handle) : Bool := h.buffers.contains x

/-- The bytes of a new array and the draws that they took. -/
def fill (h : Host) (r : AllocationRequest) : Except EngineFault Fill.Result :=
  match r.shape.byteLen r.dataType with
  | none => .error (.error (.allocationFailed (.exceedsMemory r.shape r.dataType)))
  | some length =>
    if addressSpace < length then .error (.error (.allocationFailed (.refused length r.shape)))
    else r.fill.run h.draws h.drawn r.shape r.dataType length

/-- Adds a buffer under the next handle. -/
def insert (h : Host) (b : Buffer) : Host × NativeArray :=
  let handle : Handle := ⟨h.nextHandle⟩
  ({ h with
      buffers := h.buffers.insert handle b
      nextHandle := h.nextHandle + 1
      allocated := h.allocated + 1 },
    ⟨handle, b.shape, b.dataType, b.device⟩)

def create (h : Host) (r : AllocationRequest) : Except EngineFault (Host × NativeArray) :=
  match h.fill r with
  | .ok filled =>
    .ok (insert { h with drawn := h.drawn + filled.drawn }
      ⟨filled.bytes, r.shape, r.dataType, r.device⟩)
  | .error fault => .error fault

def release (h : Host) (x : Handle) : Except EngineError Host :=
  match h.buffers.get? x with
  | some _ => .ok { h with buffers := h.buffers.erase x, released := h.released + 1 }
  | none => .error (.invalidHandle x.number)

def read (h : Host) (x : Handle) : Except EngineError (List UInt8) :=
  match h.buffers.get? x with
  | some b => .ok b.bytes
  | none => .error (.invalidHandle x.number)

/-- The buffer of the input at a position. -/
def input (h : Host) (inputs : List Handle) (position : Nat) : Except EngineError Buffer :=
  match inputs[position]? with
  | none => .error (.invalidArgument (.missingInput position))
  | some x =>
    match h.buffers.get? x with
    | some b => .ok b
    | none => .error (.invalidHandle x.number)

def copy (h : Host) (inputs : List Handle) : Except EngineError Buffer := h.input inputs 0

def reshape (h : Host) (inputs : List Handle) (ps : Params) : Except EngineError Buffer := do
  let source ← h.input inputs 0
  match ps.shape? "shape" with
  | none => .error (.invalidArgument .missingShape)
  | some target =>
    if target.checkedSize = source.shape.checkedSize then .ok { source with shape := target }
    else .error (.invalidArgument (.reshape source.shape target))

def add (h : Host) (inputs : List Handle) : Except EngineError Buffer := do
  let left ← h.input inputs 0
  let right ← h.input inputs 1
  if left.shape = right.shape ∧ left.dataType = right.dataType then
    .ok (left.withNumbers (List.zipWith Binary64.add left.numbers right.numbers))
  else
    .error (.invalidArgument
      (.operandsDiffer left.shape left.dataType right.shape right.dataType))

def mulScalar (h : Host) (inputs : List Handle) (ps : Params) : Except EngineError Buffer := do
  let source ← h.input inputs 0
  match ps.float? "scalar" with
  | none => .error (.invalidArgument .missingScalar)
  | some scalar => .ok (source.withNumbers (source.numbers.map fun x => x.mul scalar))

/-- The operations that `compute` knows. -/
def operations : List String := ["copy", "reshape", "add", "mul_scalar"]

def supports (operation : String) : Bool := operations.contains operation

/-- The result of a named operation. -/
def compute (h : Host) (operation : String) (inputs : List Handle) (ps : Params) :
    Except EngineError Buffer :=
  match operation with
  | "copy" => h.copy inputs
  | "reshape" => h.reshape inputs ps
  | "add" => h.add inputs
  | "mul_scalar" => h.mulScalar inputs ps
  | _ => .error (.unsupported operation)

/-- Runs an operation; its result is a new array. -/
def invoke (h : Host) (operation : String) (inputs : List Handle) (ps : Params) :
    Except EngineError (Host × NativeArray) := do
  let result ← h.compute operation inputs ps
  return h.insert result

/-- Runs an operation; its result goes into the first output, which keeps its shape. -/
def invokeInto (h : Host) (operation : String) (inputs outputs : List Handle) (ps : Params) :
    Except EngineError Host := do
  match outputs.head? with
  | none => .error (.invalidArgument .missingOutput)
  | some target =>
    let result ← h.compute operation inputs ps
    match h.buffers.get? target with
    | none => .error (.invalidHandle target.number)
    | some old =>
      if old.bytes.length = result.bytes.length ∧ old.dataType = result.dataType then
        .ok { h with buffers := h.buffers.insert target { old with bytes := result.bytes } }
      else
        .error (.invalidArgument
          (.outputMismatch old.shape old.dataType result.shape result.dataType))

end Host

end ArrayLifetimes
