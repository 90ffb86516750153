/-
Owning: making managers, and attaching and detaching resources.

A manager takes something new only while it is open, and gives something away only then.
Whatever is refused leaves the world as it was.
-/
import ArrayLifetimes.World.Basic

namespace ArrayLifetimes

namespace World

/-- The error of a manager that takes nothing more. -/
def closedError (m : ManagerId) : ManagerError := .closedManager (.manager m)

/-- The manager, if it is open. -/
def openManager (w : World) (m : ManagerId) : Except ManagerError Manager :=
  match w.manager? m with
  | some r => if r.isOpen then .ok r else .error (closedError m)
  | none => .error (closedError m)

/-- Makes a root of the registry. -/
def newBase (w : World) (device : Device) : World × ManagerId :=
  let (w, m) := w.addManager { device, owner := .registry }
  ({ w with roots := w.roots ++ [m] }.note (.rootRegistered m device w.engine.kind.name), m)

/-- Makes a child of an open manager. -/
def newSub (w : World) (parent : ManagerId) (device : Option Device) :
    Except ManagerError (World × ManagerId) := do
  let owner ← w.openManager parent
  let device := device.getD owner.device
  let (w, child) := w.addManager { device, owner := .parent parent }
  let w := w.modifyManager parent fun r => { r with children := r.children ++ [child] }
  return (w.note (.subCreated parent child device), child)

/-- Puts a resource under a key.  A resource that was there goes back to the caller, unless the
configuration asks to refuse the key. -/
def attach (w : World) (m : ManagerId) (key : Label) (resource : Resource) :
    Except ManagerError (World × Option Resource) := do
  let owner ← w.openManager m
  let old := owner.resources.get? key
  if old.isSome && w.config.duplicateKeys == .reject then
    .error (.duplicateKey key (.manager m))
  else
    let w := if old.isSome then w.note (.keyTakenOver m key) else w
    let w := w.modifyManager m fun r => { r with resources := r.resources.insert key resource }
    return (w, old)

/-- Takes the resource under a key away from a manager, without releasing it. -/
def detach (w : World) (m : ManagerId) (key : Label) : World × Option Resource :=
  match w.openManager m with
  | .error _ => (w, none)
  | .ok owner =>
    match owner.resources.get? key with
    | none => (w, none)
    | some resource =>
      let w := w.modifyManager m fun r => { r with resources := r.resources.erase key }
      (w.note (.detached m key), some resource)

/-- Attaches an array under its identity. -/
def attachArray (w : World) (m : ManagerId) (a : ArrayId) : Except ManagerError World := do
  let (w, _) ← w.attach m (.array a) (.array a)
  return w

/-- Detaches what is attached under the identity of an array. -/
def detachArray (w : World) (m : ManagerId) (a : ArrayId) : World × Bool :=
  let (w, old) := w.detach m (.array a)
  (w, old.isSome)

/-- Takes a child away from a manager, without closing it. -/
def detachSub (w : World) (m child : ManagerId) : World × Option ManagerId :=
  match w.openManager m with
  | .error _ => (w, none)
  | .ok owner =>
    if child ∈ owner.children then
      (w.modifyManager m fun r => { r with children := r.children.erase child }, some child)
    else (w, none)

end World

end ArrayLifetimes
