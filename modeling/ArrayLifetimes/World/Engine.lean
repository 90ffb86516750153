/-
The engine behind the managers.

It is the host engine, alone or with additions: it can be told to fail or panic at certain
releases, to refuse the next allocation, and to run commands of a client after an allocation
or an operation before it answers.  The additions differ in what they claim to support and
in what they can do:

* `host` has none of the faults and just what the host engine can do;
* `recording` can also split an array into copies;
* `bare` supports no operation;
* `lying` claims to support every operation and can do none.

Or it is a foreign engine, of which only its answers are known.  What it answers to a call
may depend on every call before it.  It runs commands of a client as the others do.
-/
import ArrayLifetimes.World.Manager

namespace ArrayLifetimes

/-- A call that the engine gets. -/
inductive EngineCall where
  | create (request : AllocationRequest)
  | release (handle : Handle)
  | read (handle : Handle)
  | invoke (operation : String) (inputs : List Handle) (params : Params)
  | invokeInto (operation : String) (inputs outputs : List Handle) (params : Params)
  deriving DecidableEq, Repr

/-- The answers of a foreign engine to a call of each kind, given all calls up to this one, the
latest first. -/
structure Foreign where
  supports : List EngineCall → String → Bool
  create : List EngineCall → Except EngineFault Handle
  release : List EngineCall → Except EngineFault Unit
  read : List EngineCall → Except EngineFault (List UInt8)
  invoke : List EngineCall → Except EngineFault (List NativeArray)
  invokeInto : List EngineCall → Except EngineFault Unit

inductive EngineKind where
  | host
  | recording
  | bare
  | lying
  | foreign (answers : Foreign)

def EngineKind.name : EngineKind → String
  | host => "host"
  | recording => "recording"
  | bare => "bare"
  | lying => "lying"
  | foreign _ => "foreign"

/-- Kinds are told apart by their names. -/
instance : BEq EngineKind := ⟨fun k l => k.name == l.name⟩

def EngineKind.ofName? (s : String) : Option EngineKind :=
  [host, recording, bare, lying].find? fun k => k.name == s

/-- Commands that the engine runs once, before it answers. -/
structure Callback where
  label : String
  commands : List Command

structure Engine where
  kind : EngineKind
  host : Host
  /-- The error of the next allocation. -/
  failCreate : Option EngineError := none
  failing : List Handle := []
  panicking : Keyed Handle Payload := {}
  afterCreate : Option Callback := none
  afterInvoke : Option Callback := none
  /-- The calls that it got, the latest first. -/
  calls : List EngineCall := []

namespace Engine

/-- The engine gets a call. -/
def hear (e : Engine) (c : EngineCall) : Engine := { e with calls := c :: e.calls }

/-- The engine has no additions: it takes no notice of what it is told. -/
def isPlain (e : Engine) : Bool :=
  match e.kind with
  | .host => true
  | _ => false

/-- The error of the next allocation. -/
def dueError (e : Engine) : Option EngineError := if e.isPlain then none else e.failCreate

/-- The panic that the release of an array ends in. -/
def duePanic (e : Engine) (x : Handle) : Option Payload :=
  if e.isPlain then none else e.panicking.get? x

/-- Whether the release of an array fails. -/
def failsAt (e : Engine) (x : Handle) : Bool := !e.isPlain && e.failing.contains x

/-- The commands to run after an allocation. -/
def dueAfterCreate (e : Engine) : Option Callback := if e.isPlain then none else e.afterCreate

/-- The commands to run after an operation. -/
def dueAfterInvoke (e : Engine) : Option Callback := if e.isPlain then none else e.afterInvoke

def supports (e : Engine) (operation : String) : Bool :=
  match e.kind with
  | .host => Host.supports operation
  | .recording => Host.supports operation || operation == "split"
  | .bare => false
  | .lying => true
  | .foreign f => f.supports e.calls operation

/-! ### The host engine and its additions -/

/-- Allocates.  An error that is due comes first, and once. -/
def createHosted (e : Engine) (r : AllocationRequest) :
    Engine × Except EngineFault NativeArray :=
  match e.dueError with
  | some error => ({ e with failCreate := none }, .error (.error error))
  | none =>
    match e.host.create r with
    | .ok (host, native) => ({ e with host := host }, .ok native)
    | .error fault => (e, .error fault)

/-- Frees an array, unless the engine is told to panic or to fail. -/
def releaseHosted (e : Engine) (x : Handle) : Engine × Except EngineFault Unit :=
  match e.duePanic x with
  | some p => (e, .error (.panic p))
  | none =>
    if e.failsAt x then (e, .error (.error (.releaseFailed x.number "injected failure")))
    else
      match e.host.release x with
      | .ok host => ({ e with host := host }, .ok ())
      | .error error => (e, .error (.error error))

/-- Runs the host's `copy` a number of times. -/
def copies (host : Host) (inputs : List Handle) (ps : Params) :
    Nat → Except EngineError (Host × List NativeArray)
  | 0 => .ok (host, [])
  | n + 1 => do
    let (host, native) ← host.invoke "copy" inputs ps
    let (host, rest) ← copies host inputs ps n
    return (host, native :: rest)

/-- Runs an operation that makes new arrays. -/
def invokeHosted (e : Engine) (operation : String) (inputs : List Handle) (ps : Params) :
    Except EngineError (Engine × List NativeArray) :=
  let single : Except EngineError (Engine × List NativeArray) := do
    let (host, native) ← e.host.invoke operation inputs ps
    return ({ e with host := host }, [native])
  match e.kind with
  | .host => single
  | .recording =>
    if operation = "split" then
      match ps.int? "parts" with
      | none => .error (.invalidArgument .missingParts)
      | some parts => do
        let (host, natives) ← copies e.host inputs ps parts.toNat
        return ({ e with host := host }, natives)
    else single
  | _ => .error (.unsupported operation)

/-- Runs an operation whose result goes into an existing array. -/
def invokeIntoHosted (e : Engine) (operation : String) (inputs outputs : List Handle)
    (ps : Params) : Except EngineError Engine :=
  match e.kind with
  | .host | .recording => do
    let host ← e.host.invokeInto operation inputs outputs ps
    return { e with host := host }
  | _ => .error (.unsupported operation)

/-! ### Answers to calls

The call that is answered is the latest that the engine got. -/

def create (e : Engine) (r : AllocationRequest) : Engine × Except EngineFault NativeArray :=
  match e.kind with
  | .foreign f => (e, (f.create e.calls).map fun x => ⟨x, r.shape, r.dataType, r.device⟩)
  | _ => e.createHosted r

def release (e : Engine) (x : Handle) : Engine × Except EngineFault Unit :=
  match e.kind with
  | .foreign f => (e, f.release e.calls)
  | _ => e.releaseHosted x

def read (e : Engine) (x : Handle) : Except EngineFault (List UInt8) :=
  match e.kind with
  | .foreign f => f.read e.calls
  | _ => (e.host.read x).mapError .error

def invoke (e : Engine) (operation : String) (inputs : List Handle) (ps : Params) :
    Except EngineFault (Engine × List NativeArray) :=
  match e.kind with
  | .foreign f => (f.invoke e.calls).map fun natives => (e, natives)
  | _ => (e.invokeHosted operation inputs ps).mapError .error

def invokeInto (e : Engine) (operation : String) (inputs outputs : List Handle)
    (ps : Params) : Except EngineFault Engine :=
  match e.kind with
  | .foreign f => (f.invokeInto e.calls).map fun _ => e
  | _ => (e.invokeIntoHosted operation inputs outputs ps).mapError .error

end Engine

end ArrayLifetimes
