/-
Snapshots: what is seen of a tree of managers at one moment.
-/
import ArrayLifetimes.World.Manager

namespace ArrayLifetimes

/-- One manager and everything below it. -/
inductive ManagerSnapshot where
  | node (id : ManagerId) (device : Device) (state : ManagerState) (resources : List Label)
      (children : List ManagerSnapshot)
  deriving Repr

namespace ManagerSnapshot

/-- The manager at the top of the tree. -/
def id : ManagerSnapshot → ManagerId
  | node id _ _ _ _ => id

mutual

/-- The resources anywhere in the tree. -/
def total : ManagerSnapshot → Nat
  | node _ _ _ resources children => resources.length + totals children

def totals : List ManagerSnapshot → Nat
  | [] => 0
  | s :: rest => total s + totals rest

end

end ManagerSnapshot

/-- Every tree of a registry. -/
structure RegistrySnapshot where
  roots : List ManagerSnapshot
  deriving Repr

def RegistrySnapshot.total (s : RegistrySnapshot) : Nat := ManagerSnapshot.totals s.roots

end ArrayLifetimes
