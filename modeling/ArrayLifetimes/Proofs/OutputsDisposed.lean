/-
No output of a call is forgotten.

Managers ask the engine to make arrays, one for an allocation and any number for an
operation.  Before they get the answer, commands of a client may have run that close the
manager the arrays are for, or any other.  The call returns the arrays when all of them
are attached.  When it fails, managers have asked the engine to release each of them once.

This is about what managers ask for.  A client that guesses a handle can ask the engine
itself, and managers cannot know of it.
-/
import ArrayLifetimes.Proofs.Machine.Answers
import ArrayLifetimes.Proofs.Machine.Replay

namespace ArrayLifetimes

namespace Machine

section Outputs

variable {order : VisitOrder} {kind : EngineKind} {s s' t : Machine} {i : Nat} {id : ThreadId}
  {c : Command} {below : Stack .reply} {m : ManagerId} {ns : List NativeArray} {v : World}
  {next : AfterCallback} {r : Reply}

end Outputs

end Machine

namespace Machine

/-- The handles of arrays that are attached to open managers. -/
def held (s : Machine) : List Handle :=
  s.world.managers.toList.flatMap fun r =>
    if r.isOpen then r.resources.values.filterMap fun
      | .array a => s.world.handle? a
      | _ => none
    else []

/-- How often anybody has asked the engine to release an array. -/
def asked (s : Machine) (x : Handle) : Nat := s.world.engine.calls.count (.release x)

end Machine

end ArrayLifetimes
