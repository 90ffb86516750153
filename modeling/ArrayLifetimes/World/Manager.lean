/-
Managers and what they own.

A manager is open, then closing, then closed.  While it is open it owns resources under
keys, and child managers.  When it starts to close it gives both away to the close that
runs, and notes the thread on which that is.  It knows its parent, or that it is a root of
the registry, but owns neither.
-/
import ArrayLifetimes.Data.Keyed
import ArrayLifetimes.Engine.Host
import ArrayLifetimes.Script.Command

namespace ArrayLifetimes

/-- Something that a manager can own. -/
inductive Resource where
  | array (id : ArrayId)
  | manager (id : ManagerId)
  | hook (id : HookId)
  deriving DecidableEq, Repr

inductive Lifecycle where
  | opened
  | closing (thread : ThreadId)
  | closed
  deriving DecidableEq, Repr

/-- A lifecycle as others see it. -/
inductive ManagerState where
  | opened
  | closing
  | closed
  deriving DecidableEq, Repr

def Lifecycle.state : Lifecycle → ManagerState
  | opened => .opened
  | closing _ => .closing
  | closed => .closed

def ManagerState.text : ManagerState → String
  | opened => "open"
  | closing => "closing"
  | closed => "closed"

/-- Who keeps track of a manager. -/
inductive Owner where
  | registry
  | parent (id : ManagerId)
  deriving DecidableEq, Repr

structure Manager where
  device : Device
  owner : Owner
  lifecycle : Lifecycle := .opened
  resources : Keyed Label Resource := {}
  children : List ManagerId := []

namespace Manager

def state (m : Manager) : ManagerState := m.lifecycle.state

def isOpen (m : Manager) : Bool := m.lifecycle == .opened

def isRoot (m : Manager) : Bool := m.owner == .registry

end Manager

/-- A mark that is set once.  Who sets it has to do the release. -/
structure ReleaseMark where
  isSet : Bool := false
  deriving DecidableEq, Repr

/-- Sets the mark; the answer is whether it was not set before. -/
def ReleaseMark.begin (mark : ReleaseMark) : ReleaseMark × Bool := (⟨true⟩, !mark.isSet)

/-- An array in native memory.  Once it is released, its handle is of no more use. -/
structure ArrayRecord where
  handle : Handle
  shape : Shape
  dataType : DataType
  device : Device
  mark : ReleaseMark := {}
  deriving DecidableEq, Repr

def ArrayRecord.released (a : ArrayRecord) : Bool := a.mark.isSet

/-- `ND: (2, 3) cpu() float32`. -/
def ArrayRecord.text (a : ArrayRecord) : String :=
  "ND: " ++ a.shape.text ++ " " ++ a.device.text ++ " " ++ a.dataType.name

/-- What a release hook does when it is released. -/
structure HookWork where
  commands : List Command
  ending : HookEnd

/-- A resource whose release runs a client's commands.  The work is taken out before it runs,
so it runs once. -/
structure Hook where
  label : String
  work : Option HookWork

end ArrayLifetimes
