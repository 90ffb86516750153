/-
Commands: what a client can ask for.

A client gives names to the managers, arrays and resources that it gets, and mentions
them by name afterwards.  Work that runs inside other work is a list of commands too: what
a release hook does, what the engine does before it answers, the body of a scope.  So every
program is finite data, and a nested one is smaller than the command that holds it.
-/
import ArrayLifetimes.Engine.Host
import ArrayLifetimes.Json.Value
import ArrayLifetimes.Script.Allocation

namespace ArrayLifetimes

/-- A name that a client has given. -/
abbrev Name := String

/-- A key as a client writes it: a text, or the identity of an array. -/
inductive KeyName where
  | text (s : String)
  | uid (array : Name)
  deriving DecidableEq, Repr

/-- How the work of a release hook ends. -/
inductive HookEnd where
  | succeed
  | fail (e : EngineError)
  | panic (p : Payload)
  deriving DecidableEq, Repr

/-- How the body of a scope ends. -/
inductive BodyEnd where
  | value (v : Json.Value)
  | error (reason : String)
  | panic (p : Payload)
  deriving Repr

/-- Facts about the contents of an array that a client asks for instead of the contents. -/
structure Check where
  low : Option Binary64
  high : Option Binary64
  row : Option Nat
  deriving DecidableEq, Repr

/-- Questions that change nothing. -/
inductive Query where
  | registry
  | registryContains (manager : Name)
  | registryText
  | snapshot
  | snapshotText
  | managerSnapshot (manager : Name)
  | state (manager : Name)
  | config (manager : Name)
  | sameManager (manager other : Name)
  | managerText (manager : Name)
  | contains (manager : Name) (key : KeyName)
  | info (array : Name)
  | read (array : Name) (dataType : Option DataType)
  | bytes (array : Name)
  | sameArray (array other : Name)
  | arrayText (array : Name)
  | list (arrays : List Name)
  | allocateDirect (manager : Name) (capacity : Nat)
  | counts
  | before (first second : Name)
  | releaseCalls (array : Name)
  deriving DecidableEq, Repr

/-- Requests to the engine past all managers. -/
inductive DirectCall where
  | create (request : AllocationRequest)
  | release (handle : Handle)
  | read (handle : Handle)
  | contains (handle : Handle)
  | supports (operation : String)
  | invoke (operation : String) (inputs : List Handle) (params : Params)
  | invokeInto (operation : String) (inputs outputs : List Handle) (params : Params)
  deriving DecidableEq, Repr

mutual

inductive Command where
  /- Making and closing managers. -/
  | base (name : Name) (device : Option Device)
  | sub (manager name : Name) (device : Option Device)
  | close (manager : Name)
  | shutdown
  /- Closes a manager in its role as a resource. -/
  | releaseManager (manager : Name)
  | forget (manager : Name)
  | dropRegistry
  /- Owning resources. -/
  | attach (manager : Name) (key : KeyName) (resource : ResourceName) (displaced : Option Name)
  | attachArray (manager array : Name)
  | detach (manager : Name) (key : KeyName) (name : Option Name)
  | detachArray (manager array : Name)
  | detachSub (manager child : Name)
  | keep (resource : ResourceName) (name : Name)
  | release (resource : ResourceName)
  | isReleased (resource : ResourceName)
  | closeArray (array : Name)
  /- Scopes. -/
  | guarded (manager name : Name) (device : Option Device)
  | guardDrop (manager : Name)
  | guardClose (manager : Name)
  | guardInto (manager : Name)
  | scope (manager name : Name) (device : Option Device) (body : List Command)
      (propagate : Bool) (ending : BodyEnd)
  /- Arrays. -/
  | allocate (manager name : Name) (allocation : Allocation) (check : Option Check)
  | invoke (manager : Name) (operation : String) (inputs : List Name) (params : Params)
      (name : Name)
  | invokeInto (manager : Name) (operation : String) (inputs outputs : List Name)
      (params : Params)
  /- Threads. -/
  | inThread (commands : List Command)
  | spawnClose (manager : Name)
  | concurrentClose (manager : Name) (threads : Nat)
  /- The engine: faults that it is told to have, work that it is told to do, direct calls. -/
  | failRelease (array : Name)
  | panicRelease (array : Name) (payload : Payload)
  | failCreate (error : EngineError)
  | afterCreate (label : String) (commands : List Command)
  | afterInvoke (label : String) (commands : List Command)
  | direct (call : DirectCall)
  | ask (query : Query)

/-- A resource as a client mentions it; a release hook is made on the spot. -/
inductive ResourceName where
  | array (name : Name)
  | manager (name : Name)
  | saved (name : Name)
  | hook (label : String) (work : List Command) (ending : HookEnd)

end

instance : Inhabited Command := ⟨.shutdown⟩

end ArrayLifetimes
