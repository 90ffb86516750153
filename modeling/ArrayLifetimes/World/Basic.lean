/-
The world: a registry, its managers, their arrays and release hooks, the engine, and what
a client knows of them by name.

Managers, arrays and hooks are kept for ever, at the place that their identity says; a
manager that nobody holds any more is simply never asked again.  The journal keeps what
happened, the latest first: the calls to the engine, the events, and the commands that ran
inside other work.
-/
import ArrayLifetimes.Script.Reply
import ArrayLifetimes.World.Engine
import ArrayLifetimes.World.Event

namespace ArrayLifetimes

/-- Who called the engine. -/
inductive Caller where
  | managers
  | client
  deriving DecidableEq, Repr

inductive Entry where
  | call (caller : Caller) (call : EngineCall)
  | event (e : Event)
  /-- Commands that a release hook or the engine ran. -/
  | ran (label : String) (replies : List Reply)

/-- What a client has names for. -/
structure Client where
  managers : Keyed Name ManagerId := {}
  arrays : Keyed Name ArrayId := {}
  resources : Keyed Name Resource := {}
  /-- Managers that are closed when the client lets go of them. -/
  guards : Keyed Name ManagerId := {}
  /-- The names that identities were given, the latest first. -/
  managerNames : List (ManagerId × Name) := []
  arrayNames : List (ArrayId × Name) := []

structure World where
  config : Config
  /-- The client still has the registry. -/
  registered : Bool := true
  /-- The shutdowns that are going on.  Each of them holds the registry. -/
  shutdowns : Nat := 0
  roots : List ManagerId := []
  managers : Array Manager := #[]
  arrays : Array ArrayRecord := #[]
  hooks : Array Hook := #[]
  engine : Engine
  client : Client := {}
  threads : Nat := 1
  journal : List Entry := []

/-- How the release of a resource ends. -/
inductive Outcome where
  | ok
  | error (e : ManagerError)
  | panic (p : Payload)
  deriving DecidableEq, Repr

namespace Outcome

def ofEngine : Except EngineFault Unit → Outcome
  | .ok () => ok
  | .error (.error e) => error (.engine e)
  | .error (.panic p) => panic p

/-- The error, if it failed; a panic that is caught counts as one. -/
def error? : Outcome → Option ManagerError
  | ok => none
  | error e => some e
  | panic p => some (.ofPanic p)

/-- The outcome without its panic: nothing, an error, or the panic as a fault. -/
def toExcept : Outcome → Except Fault Unit
  | ok => .ok ()
  | error e => .error (.manager e)
  | panic p => .error (.panic p)

end Outcome

namespace EngineFault

/-- What a manager reports of it. -/
def toFault : EngineFault → Fault
  | error e => .manager (.engine e)
  | panic p => .panic p

/-- What a client learns of it that asked the engine itself. -/
def direct : EngineFault → Fault
  | error e => .engine e
  | panic p => .panic p

end EngineFault

namespace World

/-! ### Looking things up -/

def manager? (w : World) (m : ManagerId) : Option Manager := w.managers[m.index]?

def array? (w : World) (a : ArrayId) : Option ArrayRecord := w.arrays[a.index]?

def hook? (w : World) (h : HookId) : Option Hook := w.hooks[h.index]?

/-- Whether a resource's release has run.  A manager counts when it is closed. -/
def isReleased (w : World) : Resource → Bool
  | .array a => (w.array? a).any fun r => r.released
  | .manager m => (w.manager? m).any fun r => r.state == .closed
  | .hook h => (w.hook? h).any fun r => r.work.isNone

/-! ### Changing one thing -/

def modifyManager (w : World) (m : ManagerId) (f : Manager → Manager) : World :=
  { w with managers := w.managers.modify m.index f }

def record (w : World) (e : Entry) : World := { w with journal := e :: w.journal }

def note (w : World) (e : Event) : World := w.record (.event e)

/-- Adds a manager; its identity is the next one. -/
def addManager (w : World) (m : Manager) : World × ManagerId :=
  ({ w with managers := w.managers.push m }, ⟨w.managers.size⟩)

def addArray (w : World) (a : ArrayRecord) : World × ArrayId :=
  ({ w with arrays := w.arrays.push a }, ⟨w.arrays.size⟩)

def addHook (w : World) (h : Hook) : World × HookId :=
  ({ w with hooks := w.hooks.push h }, ⟨w.hooks.size⟩)

/-- A thread that has not run before. -/
def newThread (w : World) : World × ThreadId := ({ w with threads := w.threads + 1 }, ⟨w.threads⟩)

/-! ### Calling the engine -/

/-- The engine gets a call, and the journal notes it. -/
def tell (w : World) (caller : Caller) (c : EngineCall) : World :=
  { w.record (.call caller c) with engine := w.engine.hear c }

def callCreate (w : World) (caller : Caller) (r : AllocationRequest) :
    World × Except EngineFault NativeArray :=
  let w := w.tell caller (.create r)
  match w.engine.create r with
  | (engine, .ok native) =>
    (({ w with engine := engine }).note (.bufferAllocated native.handle native.shape), .ok native)
  | (engine, .error fault) => ({ w with engine := engine }, .error fault)

def callRelease (w : World) (caller : Caller) (x : Handle) : World × Except EngineFault Unit :=
  let w := w.tell caller (.release x)
  match w.engine.release x with
  | (engine, .ok ()) => (({ w with engine := engine }).note (.bufferFreed x), .ok ())
  | (engine, .error fault) => ({ w with engine := engine }, .error fault)

def callRead (w : World) (caller : Caller) (x : Handle) :
    World × Except EngineFault (List UInt8) :=
  let w := w.tell caller (.read x)
  (w, w.engine.read x)

/-- Tells of buffers that an operation has made. -/
def noteAllocated (w : World) (natives : List NativeArray) : World :=
  natives.foldl (fun w n => w.note (.bufferAllocated n.handle n.shape)) w

def callInvoke (w : World) (caller : Caller) (operation : String) (inputs : List Handle)
    (ps : Params) : World × Except EngineFault (List NativeArray) :=
  let w := w.tell caller (.invoke operation inputs ps)
  match w.engine.invoke operation inputs ps with
  | .ok (engine, natives) => (({ w with engine := engine }).noteAllocated natives, .ok natives)
  | .error e => (w, .error e)

def callInvokeInto (w : World) (caller : Caller) (operation : String)
    (inputs outputs : List Handle) (ps : Params) : World × Except EngineFault Unit :=
  let w := w.tell caller (.invokeInto operation inputs outputs ps)
  match w.engine.invokeInto operation inputs outputs ps with
  | .ok engine => ({ w with engine := engine }, .ok ())
  | .error e => (w, .error e)

end World

end ArrayLifetimes
