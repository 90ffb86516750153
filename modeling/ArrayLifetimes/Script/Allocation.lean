/-
Allocations: the ways to ask a manager for a new array.

Each becomes one request to the engine, for which the manager's device and the
configured data type stand in where the client gives none.  Some have arguments that are
checked first, before anything else happens.
-/
import ArrayLifetimes.Config
import ArrayLifetimes.Engine.Fill

namespace ArrayLifetimes

inductive Allocation where
  | create (shape : Shape) (dataType : Option DataType) (device : Option Device) (fill : Fill)
  | uninit (shape : Shape) (dataType : DataType)
  | fromSlice (dataType : DataType) (elements : List Element) (shape : Shape)
  /-- As many elements as are given, in a row. -/
  | vector (dataType : DataType) (elements : List Element)
  | scalar (element : Element)
  | zeros (shape : Shape) (dataType : Option DataType)
  | ones (shape : Shape) (dataType : Option DataType)
  | full (shape : Shape) (x : Binary64)
  /-- From `start` up to `stop`, which is excluded, by `step`. -/
  | arange (start stop step : Binary64) (dataType : Option DataType)
  | eye (rows : Nat) (cols : Option Nat) (k : Int) (dataType : Option DataType)
  | linspace (start stop : Binary64) (count : Nat) (endpoint : Bool)
  | randomUniform (low high : Binary64) (shape : Shape)
  | randomNormal (loc scale : Binary64) (shape : Shape)
  | randomMultinomial (trials : Nat) (probabilities : List Binary64) (batch : Shape)
  | csr (dataType : DataType) (values : List Element) (rowPointers columns : List Int)
      (shape : Shape)
  | rowSparse (dataType : DataType) (values : List Element) (dataShape : Shape)
      (rows : List Int) (shape : Shape)
  deriving DecidableEq, Repr

/-- An array as a client describes it. -/
structure Descriptor where
  shape : Shape
  dataType : Option DataType
  device : Option Device
  fill : Fill
  deriving DecidableEq, Repr

/-- The description with what it leaves open filled in. -/
def Descriptor.resolve (d : Descriptor) (device : Device) (dataType : DataType) :
    AllocationRequest :=
  ⟨d.shape, d.dataType.getD dataType, d.device.getD device, d.fill⟩

namespace Allocation

/-- The number of steps from `start` that stay before `stop`. -/
def arangeLength (start stop step : Binary64) : Except ArgumentFault Nat :=
  if step.eq Binary64.zero || !step.isFinite then .error .arangeStep
  else
    match ((stop.sub start).div step).ceil? with
    | some count =>
      if count < Shape.wordLimit then .ok count.toNat
      else .error (.arangeLength start stop step)
    | none => .error (.arangeLength start stop step)

/-- The tolerance for a total of probabilities: 1 + 10^-6. -/
def totalLimit : Binary64 := ⟨0x3ff000010c6f7a0b⟩

def isProbability (p : Binary64) : Bool := Binary64.zero.le p && p.le Binary64.one

/-- Checks the probabilities of all categories.  The last one is only implied, so it does not
count for the total. -/
def checkProbabilities (ps : List Binary64) : Except ArgumentFault Unit :=
  if ps.isEmpty then .error .noCategories
  else
    match ps.find? fun p => !isProbability p with
    | some p => .error (.probability p)
    | none =>
      let total := ps.dropLast.foldl Binary64.add Binary64.zero
      if totalLimit.lt total then .error (.probabilityTotal total) else .ok ()

/-- The description of the array that is asked for, if the arguments are right. -/
def descriptor : Allocation → Except ArgumentFault Descriptor
  | create shape dataType device fill => .ok ⟨shape, dataType, device, fill⟩
  | uninit shape t => .ok ⟨shape, some t, none, .uninit⟩
  | fromSlice t xs shape =>
    if shape.checkedSize = some xs.length then
      .ok ⟨shape, some t, none, .data (encodeElements xs)⟩
    else .error (.elementCount xs.length shape)
  | vector t xs => .ok ⟨Shape.vector xs.length, some t, none, .data (encodeElements xs)⟩
  | scalar x => .ok ⟨Shape.scalar, some x.dataType, none, .data x.encode⟩
  | zeros shape t => .ok ⟨shape, t, none, .zeros⟩
  | ones shape t => .ok ⟨shape, t, none, .ones⟩
  | full shape x => .ok ⟨shape, none, none, .value x⟩
  | arange start stop step t => do
    let count ← arangeLength start stop step
    return ⟨Shape.vector count, t, none, .arange start step⟩
  | eye rows cols k t => .ok ⟨Shape.matrix rows (cols.getD rows), t, none, .eye k⟩
  | linspace start stop count endpoint =>
    .ok ⟨Shape.vector count, none, none, .linspace start stop endpoint⟩
  | randomUniform low high shape =>
    if low.lt high then .ok ⟨shape, none, none, .randomUniform low high⟩
    else .error (.uniformBounds low high)
  | randomNormal loc scale shape =>
    if scale.lt Binary64.zero then .error .negativeScale
    else .ok ⟨shape, none, none, .randomNormal loc scale⟩
  | randomMultinomial trials ps batch => do
    checkProbabilities ps
    return ⟨⟨batch.dims ++ [UInt64.ofNat ps.length]⟩, some .int64, none,
      .randomMultinomial trials ps⟩
  | csr t values pointers columns shape =>
    if shape.rank ≠ 2 then .error (.csrRank shape)
    else if columns.length ≠ values.length then
      .error (.csrCount values.length columns.length)
    else .ok ⟨shape, some t, none, .csr (encodeElements values) pointers columns⟩
  | rowSparse t values dataShape rows shape =>
    match dataShape.dims, shape.dims with
    | count :: dataRow, _ :: row =>
      if dataRow ≠ row then .error (.rowShape dataShape shape)
      else if count.toNat ≠ rows.length then .error (.rowCount count.toNat rows.length)
      else .ok ⟨shape, some t, none, .rowSparse (encodeElements values) rows⟩
    | _, _ => .error (.rowShape dataShape shape)

end Allocation

end ArrayLifetimes
