/-
Replies: what a command answers.

A reply is an answer, an error or a panic.  The answer of a command that runs others
holds the replies of those.
-/
import ArrayLifetimes.World.Snapshot

namespace ArrayLifetimes

/-- Why a command has no answer. -/
inductive Fault where
  | manager (e : ManagerError)
  | engine (e : EngineError)
  | panic (p : Payload)
  | unknownName (name : Name)
  deriving DecidableEq, Repr

structure Overview where
  device : Device
  state : ManagerState
  isRoot : Bool
  deriving DecidableEq, Repr

structure Status where
  device : Device
  state : ManagerState
  isRoot : Bool
  parent : Option ManagerId
  keys : List Label
  children : List ManagerId
  engine : String
  deriving DecidableEq, Repr

structure RegistryView where
  roots : List ManagerId
  engine : String
  config : Config
  deriving DecidableEq, Repr

/-- What a client learns from a check of an array's contents. -/
structure Facts where
  finite : Bool
  count : Nat
  inRange : Option Bool
  rowSums : Option (List Int)
  deriving DecidableEq, Repr

inductive Contents where
  | elements (xs : List Element)
  | facts (f : Facts)
  deriving DecidableEq, Repr

structure ListView where
  head : Option ArrayId
  uids : List ArrayId
  deriving DecidableEq, Repr

mutual

inductive Answer where
  | done
  | started
  | armed
  | flag (b : Bool)
  | maybeFlag (b : Option Bool)
  | flags (before after : Bool)
  | number (n : Nat)
  | counts (allocated released live : Nat)
  | text (p : Phrase)
  | child (id : Option ManagerId)
  | overview (v : Overview)
  | status (s : Status)
  | registry (v : RegistryView)
  | config (c : Config)
  | snapshot (s : RegistrySnapshot)
  | snapshotText (s : RegistrySnapshot)
  | managerSnapshot (s : ManagerSnapshot)
  | state (s : ManagerState)
  /- The state of a manager that has lost its guard. -/
  | stateOnly (s : ManagerState)
  /- The resource that was under a key: whether it was released. -/
  | displaced (released : Option Bool)
  | array (a : ArrayRecord) (contents : Option Contents)
  | arrays (items : List (ArrayRecord × Contents))
  | elements (xs : List Element)
  | outputs (items : List (Except Fault (List Element)))
  | bytes (bs : List UInt8)
  | list (v : ListView)
  | staging (length : Nat) (zeroed : Bool)
  | support (engine : String) (supported : Bool)
  | handle (h : Handle)
  | natives (items : List NativeArray)
  | json (v : Json.Value)
  | scope (body : List Reply) (result : Reply)
  | replies (items : List Reply)

inductive Reply where
  | answer (a : Answer)
  | fault (f : Fault)

end

instance : Inhabited Reply := ⟨.answer .done⟩

namespace Reply

def ofExcept {α : Type} (f : α → Answer) : Except Fault α → Reply
  | .ok a => .answer (f a)
  | .error e => .fault e

/-- The error or panic that a reply reports. -/
def fault? : Reply → Option Fault
  | fault f => some f
  | answer _ => none

end Reply

end ArrayLifetimes
