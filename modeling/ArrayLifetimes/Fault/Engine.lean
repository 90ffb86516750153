/-
Errors of an engine.

Each kind has a numeric code, all between 2001 and 2006, and a message.
-/
import ArrayLifetimes.Fault.Argument

namespace ArrayLifetimes

/-- Why memory was not allocated. -/
inductive AllocationFault where
  | other (reason : String)
  | exceedsMemory (shape : Shape) (dataType : DataType)
  | refused (bytes : Nat) (shape : Shape)
  deriving DecidableEq, Repr

def AllocationFault.message : AllocationFault → String
  | other reason => reason
  | exceedsMemory shape dataType =>
    "shape " ++ shape.text ++ " of " ++ dataType.name ++ " exceeds host memory"
  | refused bytes shape =>
    toString bytes ++ " bytes for shape " ++ shape.text ++
      ": memory allocation failed because the memory allocator returned an error"

inductive EngineError where
  | allocationFailed (fault : AllocationFault)
  /-- The engine knows no such handle: it was never given out, or is free again. -/
  | invalidHandle (handle : Nat)
  | releaseFailed (handle : Nat) (reason : String)
  | unsupported (operation : String)
  | invalidArgument (fault : ArgumentFault)
  | operationFailed (reason : String)
  deriving DecidableEq, Repr

namespace EngineError

def code : EngineError → Nat
  | allocationFailed _ => 2001
  | invalidHandle _ => 2002
  | releaseFailed .. => 2003
  | unsupported _ => 2004
  | invalidArgument _ => 2005
  | operationFailed _ => 2006

def message : EngineError → String
  | allocationFailed fault => "Allocation failed: " ++ fault.message
  | invalidHandle handle => "Invalid native handle: " ++ toString handle
  | releaseFailed handle reason =>
    "Release of native handle " ++ toString handle ++ " failed: " ++ reason
  | unsupported operation => "Unsupported operation: " ++ operation
  | invalidArgument fault => "Invalid argument: " ++ fault.message
  | operationFailed reason => "Operation failed: " ++ reason

/-- The name of the kind. -/
def kind : EngineError → String
  | allocationFailed _ => "AllocationFailed"
  | invalidHandle _ => "InvalidHandle"
  | releaseFailed .. => "ReleaseFailed"
  | unsupported _ => "Unsupported"
  | invalidArgument _ => "InvalidArgument"
  | operationFailed _ => "OperationFailed"

end EngineError

end ArrayLifetimes
