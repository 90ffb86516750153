/-
How failures and snapshots are stored as JSON.
-/
import ArrayLifetimes.Json.Decode
import ArrayLifetimes.World.Snapshot

namespace ArrayLifetimes

open Json

def ReleaseFailure.toJson (naming : Naming) (f : ReleaseFailure) : Value :=
  .ofMembers
    [("key", .ofText (f.key.render naming)), ("code", .natural f.code),
      ("message", .ofText (f.message.render naming))]

def ReleaseFailures.toJson (naming : Naming) (fs : ReleaseFailures) : Value :=
  .ofMembers [("failures", .array (fs.map (ReleaseFailure.toJson naming)))]

namespace ManagerSnapshot

mutual

def toJson (naming : Naming) : ManagerSnapshot → Value
  | node id device state resources children =>
    .ofMembers
      [("id", .ofText (naming.manager id)), ("device", device.toJson), ("state", .ofText state.text),
        ("resources", .array (resources.map fun key => .ofText (key.render naming))),
        ("children", .array (listJson naming children))]

def listJson (naming : Naming) : List ManagerSnapshot → List Value
  | [] => []
  | s :: rest => toJson naming s :: listJson naming rest

end

end ManagerSnapshot

def RegistrySnapshot.toJson (naming : Naming) (s : RegistrySnapshot) : Value :=
  .ofMembers [("roots", .array (ManagerSnapshot.listJson naming s.roots))]

end ArrayLifetimes
