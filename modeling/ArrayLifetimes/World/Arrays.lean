/-
Arrays: releasing them, reading them, and making them belong to a manager.

The mark that an array is released is set before the engine is asked, so it is asked
once, whatever it answers.  An array that has just been made is attached to its manager
under its identity; if the manager has been closed in the meantime, it is released instead.
-/
import ArrayLifetimes.World.Owning

namespace ArrayLifetimes

namespace World

/-- Marks an array as released. -/
def markReleased (w : World) (a : ArrayId) : World :=
  { w with arrays := w.arrays.modify a.index fun r => { r with mark := r.mark.begin.1 } }

/-- Releases the memory of an array, the first time. -/
def releaseArray (w : World) (a : ArrayId) : World × Outcome :=
  match w.array? a with
  | none => (w, .ok)
  | some r =>
    if r.mark.begin.2 then
      let w := (w.markReleased a).note (.releasingArray a r.handle)
      let (w, result) := w.callRelease .managers r.handle
      (w, .ofEngine result)
    else (w, .ok)

/-- The array, if its memory is still there. -/
def liveArray (w : World) (a : ArrayId) : Except ManagerError ArrayRecord :=
  match w.array? a with
  | some r => if r.released then .error (.released (.array a)) else .ok r
  | none => .error (.released (.array a))

/-- The handles of arrays, if the memory of each is still there. -/
def liveHandles (w : World) (arrays : List ArrayId) : Except ManagerError (List Handle) :=
  arrays.mapM fun a => do return (← w.liveArray a).handle

/-- The bytes of an array. -/
def arrayBytes (w : World) (a : ArrayId) : World × Except Fault (List UInt8) :=
  match w.liveArray a with
  | .error e => (w, .error (.manager e))
  | .ok r =>
    let (w, result) := w.callRead .managers r.handle
    (w, result.mapError EngineFault.toFault)

/-- The elements of an array, asked for by a data type that must be its own. -/
def arrayElements (w : World) (a : ArrayId) (t : Option DataType) :
    World × Except Fault (List Element) :=
  match w.array? a with
  | none => (w, .error (.manager (.released (.array a))))
  | some r =>
    let asked := t.getD r.dataType
    if asked ≠ r.dataType then
      (w, .error (.manager (.dataTypeMismatch r.dataType.name asked.name)))
    else
      let (w, result) := w.arrayBytes a
      (w, result.map (decodeElements r.dataType))

/-- An array of the managers for an array of the engine. -/
def adopt (w : World) (n : NativeArray) : World × ArrayId :=
  w.addArray { handle := n.handle, shape := n.shape, dataType := n.dataType, device := n.device }

/-- Attaches a new array to its manager, or releases it if that is closed by now. -/
def track (w : World) (m : ManagerId) (n : NativeArray) : World × Except Fault ArrayId :=
  let (w, a) := w.adopt n
  match w.openManager m with
  | .ok _ =>
    let w := w.modifyManager m fun r =>
      { r with resources := r.resources.insert (.array a) (.array a) }
    (w.note (.arrayAttached m a n.shape), .ok a)
  | .error e =>
    match w.releaseArray a with
    | (w, .ok) => (w, .error (.manager e))
    | (w, .error late) => (w.note (.lateArrayNotReleased a late), .error (.manager e))
    | (w, .panic p) => (w, .error (.panic p))

/-- Releases new arrays that have no manager to belong to, up to the first panic. -/
def discard (w : World) : List NativeArray → World × Except Fault Unit
  | [] => (w, .ok ())
  | n :: rest =>
    let (w, a) := w.adopt n
    match w.releaseArray a with
    | (w, .ok) => discard w rest
    | (w, .error e) => discard (w.note (.outputNotReleased a e)) rest
    | (w, .panic p) => (w, .error (.panic p))

/-- Attaches new arrays to their manager, in order.  If one cannot be attached, it and all after
it are released. -/
def trackAll (w : World) (m : ManagerId) : List NativeArray → World × Except Fault (List ArrayId)
  | [] => (w, .ok [])
  | n :: rest =>
    match w.track m n with
    | (w, .ok a) =>
      match trackAll w m rest with
      | (w, .ok as) => (w, .ok (a :: as))
      | (w, .error f) => (w, .error f)
    | (w, .error (.panic p)) => (w, .error (.panic p))
    | (w, .error f) =>
      match w.discard rest with
      | (w, .ok ()) => (w, .error f)
      | (w, .error p) => (w, .error p)

/-- What a request asks the engine for, if the manager is open and the size is possible. -/
def requestFor (w : World) (m : ManagerId) (d : Descriptor) :
    Except ManagerError AllocationRequest := do
  let owner ← w.openManager m
  let r := d.resolve owner.device w.config.defaultDataType
  if (r.shape.byteLen r.dataType).isNone then
    .error (.invalidArgument (.tooLarge r.shape r.dataType))
  else return r

/-- The error of an operation that the engine does not claim to support. -/
def requireSupport (w : World) (operation : String) : Except ManagerError Unit :=
  if w.engine.supports operation then .ok ()
  else .error (.unsupportedOperation w.engine.kind.name operation)

/-- The handles that an operation of a manager works on, if it can be run. -/
def prepareInvoke (w : World) (m : ManagerId) (operation : String) (inputs : List ArrayId) :
    Except ManagerError (List Handle) := do
  let _ ← w.openManager m
  w.requireSupport operation
  w.liveHandles inputs

/-- The handles of inputs and outputs of an operation, if it can be run. -/
def prepareInvokeInto (w : World) (operation : String) (inputs outputs : List ArrayId) :
    Except ManagerError (List Handle × List Handle) := do
  w.requireSupport operation
  return (← w.liveHandles inputs, ← w.liveHandles outputs)

end World

end ArrayLifetimes
