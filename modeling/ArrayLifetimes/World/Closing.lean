/-
The two ends of a close, and of a shutdown.

A close starts by taking everything that the manager owns away from it, and ends by marking
it closed and by taking it off the list of its owner.  What happens in between, the release
of all that was taken, is the work of a cascade.

A shutdown holds the registry from its start to its end.  A client that lets go of the
registry meanwhile leaves it with its roots until then.
-/
import ArrayLifetimes.World.Owning

namespace ArrayLifetimes

/-- What a close has taken over from its manager and has to release yet. -/
structure Estate where
  children : List ManagerId
  resources : List (Label × Resource)

namespace World

/-- Starts to close a manager on a thread. -/
def beginClose (w : World) (m : ManagerId) (r : Manager) (thread : ThreadId) : World × Estate :=
  let estate : Estate := ⟨r.children, r.resources.entries⟩
  let w := w.modifyManager m fun r =>
    { r with lifecycle := .closing thread, resources := {}, children := [] }
  (w.note (.closing m estate.children.length estate.resources.length), estate)

/-- Takes a closed manager off the list of its owner.  A parent that is closing has no list any
more. -/
def unlink (w : World) (m : ManagerId) : Owner → World
  | .parent p =>
    w.modifyManager p fun r => if r.isOpen then { r with children := r.children.erase m } else r
  | .registry =>
    if w.roots.contains m then
      { w with roots := w.roots.erase m }.note (.rootUnregistered m)
    else w

/-- The registry lets go of its roots, which stay as they are, once nobody holds it any more. -/
def dropRoots (w : World) : World :=
  if !w.registered && w.shutdowns == 0 then { w with roots := [] } else w

/-- A shutdown starts. -/
def beginShutdown (w : World) : World := { w with shutdowns := w.shutdowns + 1 }

/-- A shutdown has closed its roots. -/
def endShutdown (w : World) : World := { w with shutdowns := w.shutdowns - 1 }.dropRoots

/-- Ends the close of a manager. -/
def finishClose (w : World) (m : ManagerId) : World :=
  match w.manager? m with
  | none => w
  | some r => (w.modifyManager m fun r => { r with lifecycle := .closed }).unlink m r.owner

end World

end ArrayLifetimes
