/-
Errors of managers, and the failures that a close collects.

A close goes on when a release fails and reports all failures together, as one list
of leaves: a failure that is itself such a list is taken apart, not wrapped again.
The key of the manager that it came through is dropped, because each entry already
has the key of its own resource.
-/
import ArrayLifetimes.Data.Label
import ArrayLifetimes.Fault.Domain
import ArrayLifetimes.Fault.Engine

namespace ArrayLifetimes

/-- What a panic carried: a text, or a value that cannot be shown. -/
inductive Payload where
  | text (s : String)
  | other
  deriving DecidableEq, Repr

/-- A resource that failed to release: its key, and the code and text of its error. -/
structure ReleaseFailure where
  key : Label
  code : Nat
  message : Phrase
  deriving DecidableEq, Repr

/-- `key [code]: message`. -/
def ReleaseFailure.phrase (f : ReleaseFailure) : Phrase :=
  f.key :: .text (" [" ++ codeText f.code ++ "]: ") :: f.message

/-- The failures of one close, in the order in which they were met. -/
abbrev ReleaseFailures := List ReleaseFailure

/-- `n resource(s) failed to release` and the failures, if there are any. -/
def ReleaseFailures.phrase (fs : ReleaseFailures) : Phrase :=
  let head : Label := .text (toString fs.length ++ " resource(s) failed to release")
  match fs with
  | [] => [head]
  | f :: rest =>
    head :: .text ": " :: f.phrase ++ rest.flatMap fun g => .text "; " :: g.phrase

inductive ManagerError where
  /-- The manager takes nothing more: it is closing or closed. -/
  | closedManager (manager : Label)
  | duplicateKey (key manager : Label)
  | unsupportedOperation (engine operation : String)
  /-- The memory of the array is gone. -/
  | released (array : Label)
  | dataTypeMismatch (expected found : String)
  | invalidArgument (fault : ArgumentFault)
  | engine (error : EngineError)
  /-- Resources that failed to release during a close. -/
  | release (failures : ReleaseFailures)
  /-- A release panicked, and the close went on. -/
  | releasePanicked (message : String)
  deriving DecidableEq, Repr

namespace ManagerError

def code : ManagerError → Nat
  | closedManager _ => 1001
  | duplicateKey .. => 1002
  | unsupportedOperation .. => 1003
  | released _ => 1004
  | dataTypeMismatch .. => 1005
  | invalidArgument _ => 1006
  | engine error => error.code
  | release _ => 1007
  | releasePanicked _ => 1008

def domain : ManagerError → ErrorDomain
  | engine _ => .engine
  | _ => .manager

def phrase : ManagerError → Phrase
  | closedManager manager => [.text "Manager ", manager, .text " is closed"]
  | duplicateKey key manager =>
    [.text "Resource key '", key, .text "' is already attached to manager ", manager]
  | unsupportedOperation name operation =>
    .ofText ("Engine '" ++ name ++ "' does not support operation '" ++ operation ++ "'")
  | released array => [.text "Array ", array, .text " has been released"]
  | dataTypeMismatch expected found =>
    .ofText ("Data type mismatch: expected " ++ expected ++ ", found " ++ found)
  | invalidArgument fault => .ofText ("Invalid argument: " ++ fault.message)
  | engine error => .ofText ("Engine error: " ++ error.message)
  | release failures => failures.phrase
  | releasePanicked message => .ofText ("Release panicked: " ++ message)

/-- The name of the kind. -/
def kind : ManagerError → String
  | closedManager _ => "ClosedManager"
  | duplicateKey .. => "DuplicateKey"
  | unsupportedOperation .. => "UnsupportedOperation"
  | released _ => "Released"
  | dataTypeMismatch .. => "DataTypeMismatch"
  | invalidArgument _ => "InvalidArgument"
  | engine error => "Engine." ++ error.kind
  | release _ => "Release"
  | releasePanicked _ => "ReleasePanicked"

def isClosedManager : ManagerError → Bool
  | closedManager _ => true
  | _ => false

/-- The failures that the error carries, if it is of that kind. -/
def failures? : ManagerError → Option ReleaseFailures
  | release failures => some failures
  | _ => none

/-- The error that caused this one. -/
def source? : ManagerError → Option EngineError
  | engine error => some error
  | _ => none

/-- A caught panic as an error.  Only a text can be shown. -/
def ofPanic : Payload → ManagerError
  | .text s => releasePanicked s
  | .other => releasePanicked "non-string panic payload"

end ManagerError

namespace ReleaseFailures

/-- Adds the failure of the resource attached under `key`, or the failures nested in it. -/
def record (fs : ReleaseFailures) (key : Label) : ManagerError → ReleaseFailures
  | .release nested => fs ++ nested
  | error => fs ++ [⟨key, error.code, error.phrase⟩]

/-- Adds a failure as it is. -/
def push (fs : ReleaseFailures) (f : ReleaseFailure) : ReleaseFailures := fs ++ [f]

def keys (fs : ReleaseFailures) : List Label := fs.map ReleaseFailure.key

/-- The error that reports the failures, none if there are none. -/
def error? (fs : ReleaseFailures) : Option ManagerError :=
  if fs.isEmpty then none else some (.release fs)

end ReleaseFailures

/-- Errors in loading a configuration. -/
inductive ConfigError where
  | unreadable (path reason : String)
  | malformed (reason : String)
  deriving DecidableEq, Repr

namespace ConfigError

def code : ConfigError → Nat
  | unreadable .. => 3001
  | malformed _ => 3002

def message : ConfigError → String
  | unreadable path reason => "Failed to read config " ++ path ++ ": " ++ reason
  | malformed reason => "Failed to parse config: " ++ reason

end ConfigError

end ArrayLifetimes
