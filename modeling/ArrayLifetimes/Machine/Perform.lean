/-
What a command does.

Most commands are done at once and answer.  Some start other work, and what they
answer depends on it: a release, the body of a scope, commands of a client that the engine
runs.  An `Action` says which.

A command that fails leaves the world as it was, unless the engine was asked first: then
`refused` tells of the failure and of the world after it.
-/
import ArrayLifetimes.Machine.Answer
import ArrayLifetimes.Machine.Stack

namespace ArrayLifetimes

/-- What is to be done for a command. -/
inductive Action where
  | reply (reply : Reply)
  | release (resource : Resource) (next : AfterRelease)
  /-- Closes managers one after the other and reports all failures together. -/
  | shutdown (roots : List ManagerId)
  /-- Runs the body of a scope, then closes its manager. -/
  | body (parent manager : ManagerId) (commands : List Command) (propagate : Bool)
      (ending : BodyEnd)
  /-- The engine runs commands before it answers. -/
  | callback (callback : Callback) (next : AfterCallback)
  /-- Runs commands on another thread and waits for it. -/
  | join (commands : List Command)
  /-- Closes a manager on several threads and waits for all. -/
  | closeTogether (manager : ManagerId) (threads : Nat)
  /-- Closes a manager on another thread. -/
  | spawnClose (manager : ManagerId)

namespace Action

def answer (a : Answer) : Action := .reply (.answer a)

def fault (f : Fault) : Action := .reply (.fault f)

end Action

/-- The result of a command: a fault, or a world and what is to be done. -/
abbrev Performed := Except Fault (World × Action)

namespace World

/-- The registry has to be there. -/
def requireRegistry (w : World) : Except Fault Unit :=
  if w.registered then .ok () else .error (.unknownName "registry")

/-! ### Managers -/

def performBase (w : World) (name : Name) (device : Option Device) : Performed := do
  w.requireRegistry
  let (w, m) := w.newBase (device.getD w.config.defaultDevice)
  let w := w.nameManager name m
  return (w, .answer (w.overviewOf m))

def performSub (w : World) (manager name : Name) (device : Option Device) : Performed := do
  let m ← w.managerNamed manager
  let (w, child) ← (w.newSub m device).mapError .manager
  let w := w.nameManager name child
  return (w, .answer (w.overviewOf child))

def performClose (w : World) (manager : Name) : Performed := do
  return (w, .release (.manager (← w.managerNamed manager)) .done)

def performShutdown (w : World) : Performed := do
  w.requireRegistry
  let roots := w.sortedRoots
  return (w.beginShutdown.note (.shuttingDown roots.length), .shutdown roots)

def performReleaseManager (w : World) (manager : Name) : Performed := do
  let m ← w.managerNamed manager
  return (w, .release (.manager m) (.releasedBefore m (w.isReleased (.manager m))))

def performForget (w : World) (manager : Name) : World × Action :=
  let known := w.client.managers.contains manager
  ({ w with client := { w.client with managers := w.client.managers.erase manager } },
    .answer (.flag known))

/-- The client lets go of the registry. -/
def performDropRegistry (w : World) : World × Action :=
  ({ w with registered := false }.dropRoots, .answer (.flag w.registered))

/-! ### Owning -/

def performAttach (w : World) (manager : Name) (key : KeyName) (resource : ResourceName)
    (displaced : Option Name) : Performed := do
  let m ← w.managerNamed manager
  let key ← w.keyNamed key
  let (w, resource) ← w.resourceNamed resource
  let (w, old) ← (w.attach m key resource).mapError .manager
  let w := w.nameDisplaced displaced old
  return (w, .answer (w.displacedAnswer old))

def performAttachArray (w : World) (manager array : Name) : Performed := do
  let m ← w.managerNamed manager
  let a ← w.arrayNamed array
  return (← (w.attachArray m a).mapError .manager, .answer .done)

def performDetach (w : World) (manager : Name) (key : KeyName) (name : Option Name) :
    Performed := do
  let m ← w.managerNamed manager
  let key ← w.keyNamed key
  let (w, old) := w.detach m key
  let w := w.nameDisplaced name old
  return (w, .answer (w.displacedAnswer old))

def performDetachArray (w : World) (manager array : Name) : Performed := do
  let m ← w.managerNamed manager
  let a ← w.arrayNamed array
  let (w, found) := w.detachArray m a
  return (w, .answer (.flag found))

def performDetachSub (w : World) (manager child : Name) : Performed := do
  let m ← w.managerNamed manager
  let c ← w.managerNamed child
  let (w, found) := w.detachSub m c
  return (w, .answer (.child found))

def performKeep (w : World) (resource : ResourceName) (name : Name) : Performed := do
  let (w, r) ← w.resourceNamed resource
  return (w.nameResource name r, .answer (w.displacedAnswer (some r)))

def performRelease (w : World) (resource : ResourceName) : Performed := do
  let (w, r) ← w.resourceNamed resource
  return (w, .release r (.releasedNow r))

def performIsReleased (w : World) (resource : ResourceName) : Performed := do
  let (w, r) ← w.resourceNamed resource
  return (w, .answer (.flag (w.isReleased r)))

def performCloseArray (w : World) (array : Name) : Performed := do
  return (w, .release (.array (← w.arrayNamed array)) .done)

/-! ### Scopes -/

def setGuards (w : World) (guards : Keyed Name ManagerId) : World :=
  { w with client := { w.client with guards := guards } }

/-- The manager of a guard. -/
def guardNamed (w : World) (n : Name) : Except Fault ManagerId := named (w.client.guards.get? n) n

/-- Makes a guarded manager.  A guard that had the name before is dropped. -/
def performGuarded (w : World) (manager name : Name) (device : Option Device) : Performed := do
  let m ← w.managerNamed manager
  let (w, child) ← (w.newSub m device).mapError .manager
  let old := w.client.guards.get? name
  let w := (w.nameManager name child).setGuards (w.client.guards.insert name child)
  let answer := w.overviewOf child
  match old with
  | none => return (w, .answer answer)
  | some g => return (w, .release (.manager g) (.droppedGuard g (some m) (.answer answer)))

def performGuardDrop (w : World) (manager : Name) : Performed := do
  let g ← w.guardNamed manager
  return (w.setGuards (w.client.guards.erase manager),
    .release (.manager g) (.droppedGuard g none (.answer .done)))

def performGuardClose (w : World) (manager : Name) : Performed := do
  let g ← w.guardNamed manager
  return (w.setGuards (w.client.guards.erase manager), .release (.manager g) .done)

def performGuardInto (w : World) (manager : Name) : Performed := do
  let g ← w.guardNamed manager
  return (w.setGuards (w.client.guards.erase manager), .answer (.stateOnly (w.stateOf g)))

/-- Opens a scope.  If its manager cannot be made, its body does not run. -/
def performScope (w : World) (manager name : Name) (device : Option Device)
    (body : List Command) (propagate : Bool) (ending : BodyEnd) : Performed := do
  let m ← w.managerNamed manager
  match w.newSub m device with
  | .error e => return (w, .answer (.scope [] (.fault (.manager e))))
  | .ok (w, child) => return (w.nameManager name child, .body m child body propagate ending)

/-! ### Arrays -/

/-- What is done with the engine's answer: after its callbacks, if it has any. -/
def proceed (w : World) : AfterCallback → World × Reply
  | .track m native name check =>
    match w.track m native with
    | (w, .ok a) => (w.nameArray name a).shownArray a check
    | (w, .error f) => (w, .fault f)
  | .trackAll m operation natives name =>
    match (w.note (.invoked m operation natives.length)).trackAll m natives with
    | (w, .ok as) =>
      let (w, items) := (w.nameOutputs name as).shownArrays as
      (w, .ofExcept .arrays items)
    | (w, .error f) => (w, .fault f)
  | .answer reply => (w, reply)

/-- The engine has made an array: it runs the commands that it was told to run then. -/
def afterCreate (w : World) (next : AfterCallback) : World × Action :=
  match w.engine.dueAfterCreate with
  | some c => ({ w with engine := { w.engine with afterCreate := none } }, .callback c next)
  | none =>
    let (w, reply) := w.proceed next
    (w, .reply reply)

/-- The engine has run an operation: it runs the commands that it was told to run then. -/
def afterInvoke (w : World) (next : AfterCallback) : World × Action :=
  match w.engine.dueAfterInvoke with
  | some c => ({ w with engine := { w.engine with afterInvoke := none } }, .callback c next)
  | none =>
    let (w, reply) := w.proceed next
    (w, .reply reply)

def performAllocate (w : World) (manager name : Name) (allocation : Allocation)
    (check : Option Check) : Performed := do
  let m ← w.managerNamed manager
  let d ← allocation.descriptor.mapError fun f => .manager (.invalidArgument f)
  let r ← (w.requestFor m d).mapError .manager
  match w.callCreate .managers r with
  | (w, .error f) => return (w, .fault f.toFault)
  | (w, .ok native) => return w.afterCreate (.track m native name check)

def performInvoke (w : World) (manager : Name) (operation : String) (inputs : List Name)
    (ps : Params) (name : Name) : Performed := do
  let m ← w.managerNamed manager
  let inputs ← inputs.mapM w.arrayNamed
  let handles ← (w.prepareInvoke m operation inputs).mapError .manager
  match w.callInvoke .managers operation handles ps with
  | (w, .error f) => return (w, .fault f.toFault)
  | (w, .ok natives) => return w.afterInvoke (.trackAll m operation natives name)

def performInvokeInto (w : World) (manager : Name) (operation : String)
    (inputs outputs : List Name) (ps : Params) : Performed := do
  let _ ← w.managerNamed manager
  let inputs ← inputs.mapM w.arrayNamed
  let outputs ← outputs.mapM w.arrayNamed
  let (sources, targets) ← (w.prepareInvokeInto operation inputs outputs).mapError .manager
  match w.callInvokeInto .managers operation sources targets ps with
  | (w, .error f) => return (w, .fault f.toFault)
  | (w, .ok ()) =>
    let (w, items) := w.readEach outputs
    return (w, .answer (.outputs items))

/-! ### The engine -/

def modifyEngine (w : World) (f : Engine → Engine) : World := { w with engine := f w.engine }

/-- Makes the releases of an array fail; answers whether that is new. -/
def performFailRelease (w : World) (array : Name) : Performed := do
  let (_, r) ← w.recordNamed array
  if r.handle ∈ w.engine.failing then return (w, .answer (.flag false))
  else
    return (w.modifyEngine fun e => { e with failing := r.handle :: e.failing },
      .answer (.flag true))

def performPanicRelease (w : World) (array : Name) (payload : Payload) : Performed := do
  let (_, r) ← w.recordNamed array
  return (w.modifyEngine fun e => { e with panicking := e.panicking.insert r.handle payload },
    .answer .armed)

def performDirect (w : World) : DirectCall → World × Action
  | .create r =>
    match w.callCreate .client r with
    | (w, .ok native) => w.afterCreate (.answer (.answer (.handle native.handle)))
    | (w, .error f) => (w, .fault f.direct)
  | .release x =>
    match w.callRelease .client x with
    | (w, .ok ()) => (w, .answer .done)
    | (w, .error f) => (w, .fault f.direct)
  | .read x =>
    let (w, result) := w.callRead .client x
    (w, .reply (.ofExcept .bytes (result.mapError EngineFault.direct)))
  | .contains x => (w, .answer (.flag (w.engine.host.contains x)))
  | .supports operation =>
    (w, .answer (.support w.engine.kind.name (w.engine.supports operation)))
  | .invoke operation inputs ps =>
    match w.callInvoke .client operation inputs ps with
    | (w, .ok natives) => w.afterInvoke (.answer (.answer (.natives natives)))
    | (w, .error f) => (w, .fault f.direct)
  | .invokeInto operation inputs outputs ps =>
    match w.callInvokeInto .client operation inputs outputs ps with
    | (w, .ok ()) => (w, .answer .done)
    | (w, .error f) => (w, .fault f.direct)

/-! ### All commands -/

/-- What a command does; `running` are the managers that work in progress holds. -/
def attempt (w : World) (running : List ManagerId) : Command → Performed
  | .base name device => w.performBase name device
  | .sub manager name device => w.performSub manager name device
  | .close manager => w.performClose manager
  | .shutdown => w.performShutdown
  | .releaseManager manager => w.performReleaseManager manager
  | .forget manager => .ok (w.performForget manager)
  | .dropRegistry => .ok w.performDropRegistry
  | .attach manager key resource displaced => w.performAttach manager key resource displaced
  | .attachArray manager array => w.performAttachArray manager array
  | .detach manager key name => w.performDetach manager key name
  | .detachArray manager array => w.performDetachArray manager array
  | .detachSub manager child => w.performDetachSub manager child
  | .keep resource name => w.performKeep resource name
  | .release resource => w.performRelease resource
  | .isReleased resource => w.performIsReleased resource
  | .closeArray array => w.performCloseArray array
  | .guarded manager name device => w.performGuarded manager name device
  | .guardDrop manager => w.performGuardDrop manager
  | .guardClose manager => w.performGuardClose manager
  | .guardInto manager => w.performGuardInto manager
  | .scope manager name device body propagate ending =>
    w.performScope manager name device body propagate ending
  | .allocate manager name allocation check => w.performAllocate manager name allocation check
  | .invoke manager operation inputs ps name => w.performInvoke manager operation inputs ps name
  | .invokeInto manager operation inputs outputs ps =>
    w.performInvokeInto manager operation inputs outputs ps
  | .inThread commands => .ok (w, .join commands)
  | .spawnClose manager => do return (w, .spawnClose (← w.managerNamed manager))
  | .concurrentClose manager threads => do
    return (w, .closeTogether (← w.managerNamed manager) threads)
  | .failRelease array => w.performFailRelease array
  | .panicRelease array payload => w.performPanicRelease array payload
  | .failCreate e => .ok (w.modifyEngine fun g => { g with failCreate := some e }, .answer .armed)
  | .afterCreate label commands =>
    .ok (w.modifyEngine fun g => { g with afterCreate := some ⟨label, commands⟩ }, .answer .armed)
  | .afterInvoke label commands =>
    .ok (w.modifyEngine fun g => { g with afterInvoke := some ⟨label, commands⟩ }, .answer .armed)
  | .direct call => .ok (w.performDirect call)
  | .ask query =>
    let (w, reply) := w.ask running query
    .ok (w, .reply reply)

/-- What a command does, a fault included. -/
def perform (w : World) (running : List ManagerId) (c : Command) : World × Action :=
  match w.attempt running c with
  | .ok performed => performed
  | .error f => (w, .fault f)

end World

end ArrayLifetimes
