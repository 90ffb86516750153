/-
Reports that do not depend on the order of a cascade.

Cascades visit what they release in an order of their own, and so the failures that a
close collects come in that order.  A report lists them by key, then by code, then by
message, each as it is written; and so for errors and events that hold failures.

A snapshot in a report lists keys, and the managers of one parent, as they are written too.
-/
import ArrayLifetimes.World.Event
import ArrayLifetimes.World.Snapshot

namespace ArrayLifetimes

/-- The order of failures in reports. -/
def ReleaseFailure.le (naming : Naming) (f g : ReleaseFailure) : Bool :=
  let key := f.key.render naming
  let key' := g.key.render naming
  if key ≠ key' then decide (key < key')
  else if f.code ≠ g.code then decide (f.code < g.code)
  else decide (f.message.render naming ≤ g.message.render naming)

def ReleaseFailures.arranged (naming : Naming) (fs : ReleaseFailures) : ReleaseFailures :=
  fs.mergeSort (ReleaseFailure.le naming)

def ManagerError.arranged (naming : Naming) : ManagerError → ManagerError
  | release fs => release (fs.arranged naming)
  | e => e

def Event.arranged (naming : Naming) : Event → Event
  | resourceFailed m key e => resourceFailed m key (e.arranged naming)
  | scopeClosedWithErrors m e => scopeClosedWithErrors m (e.arranged naming)
  | failedScopeClosedWithErrors e => failedScopeClosedWithErrors (e.arranged naming)
  | lateArrayNotReleased a e => lateArrayNotReleased a (e.arranged naming)
  | outputNotReleased a e => outputNotReleased a (e.arranged naming)
  | e => e

namespace ManagerSnapshot

/-- Trees by the texts of the identities at their tops. -/
def byText (naming : Naming) (trees : List ManagerSnapshot) : List ManagerSnapshot :=
  trees.mergeSort fun s t => decide (naming.manager s.id ≤ naming.manager t.id)

mutual

def arranged (naming : Naming) : ManagerSnapshot → ManagerSnapshot
  | node id device state resources children =>
    node id device state
      (resources.mergeSort fun k l => decide (k.render naming ≤ l.render naming))
      (byText naming (listArranged naming children))

def listArranged (naming : Naming) : List ManagerSnapshot → List ManagerSnapshot
  | [] => []
  | s :: rest => arranged naming s :: listArranged naming rest

end

end ManagerSnapshot

def RegistrySnapshot.arranged (naming : Naming) (s : RegistrySnapshot) : RegistrySnapshot :=
  ⟨ManagerSnapshot.byText naming (ManagerSnapshot.listArranged naming s.roots)⟩

/-- Arranging keeps every failure. -/
theorem ReleaseFailures.arranged_perm (naming : Naming) (fs : ReleaseFailures) :
    (fs.arranged naming).Perm fs := List.mergeSort_perm _ _

/-- The text of an error in a report. -/
def ManagerError.text (naming : Naming) (e : ManagerError) : String :=
  (e.arranged naming).phrase.render naming

/-- The fields of an event in a report. -/
def Event.texts (naming : Naming) (e : Event) : List (String × String) :=
  (e.arranged naming).fields.map fun (name, p) => (name, p.render naming)

end ArrayLifetimes
