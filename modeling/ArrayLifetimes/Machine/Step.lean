/-
One step of a thread.

A close runs its cascade in an order that is not fixed: a `VisitOrder` chooses it for
every manager.  A cascade goes on past every failure.  A close of a manager that closes
already on the same thread is done at once, because the work for it is further down on
the stack; on another thread it waits until the manager is closed.
-/
import ArrayLifetimes.Machine.Perform

namespace ArrayLifetimes

/-- An order in which cascades visit what they have taken over. -/
structure VisitOrder where
  children : ManagerId → List ManagerId → List ManagerId
  resources : ManagerId → List (Label × Resource) → List (Label × Resource)
  children_perm : ∀ m ids, (children m ids).Perm ids
  resources_perm : ∀ m entries, (resources m entries).Perm entries

namespace VisitOrder

/-- What came first is visited first. -/
def byAge : VisitOrder where
  children _ ids := ids
  resources _ entries := entries
  children_perm _ _ := .refl _
  resources_perm _ _ := .refl _

def arrange (order : VisitOrder) (m : ManagerId) (e : Estate) : Estate :=
  ⟨order.children m e.children, order.resources m e.resources⟩

end VisitOrder

/-- A thread and what it does next.  Work that is handed to another thread and waited for is
kept here too: `id` is then that other thread. -/
structure Thread where
  id : ThreadId
  task : Task

/-- The thread has done all its work. -/
def Thread.reply? : Thread → Option Reply
  | ⟨_, .reply r .top⟩ => some r
  | _ => none

/-- What a step of a thread leads to. -/
inductive Step where
  /-- There is nothing left to do. -/
  | ended (reply : Reply)
  /-- A manager is being closed on another thread. -/
  | waits (manager : ManagerId)
  /-- The thread goes on; `started` are threads that it has started. -/
  | next (w : World) (t : Thread) (started : List Thread)

/-- The reply of a thread that has closed a manager. -/
def World.closedReply (w : World) (m : ManagerId) : Outcome → Reply
  | .ok => .answer (.state (w.stateOf m))
  | .error e => .fault (.manager e)
  | .panic p => .fault (.panic p)

/-- What a scope answers when its body ended with a value or fault and its manager is closed. -/
def World.endScope (w : World) (m : ManagerId) (body : List Reply) (outcome : Outcome) :
    BodyResult → World × Reply
  | .value v =>
    let result := match outcome with
      | .ok => .answer (.json v)
      | .error e => .fault (.manager e)
      | .panic p => .fault (.panic p)
    (w, .answer (.scope body result))
  | .fault f =>
    let w := match outcome.error? with
      | some e => w.note (.failedScopeClosedWithErrors e)
      | none => w
    (w, .answer (.scope body (.fault f)))
  | .panic p =>
    let w := match outcome.error? with
      | some e => w.note (.scopeClosedWithErrors m e)
      | none => w
    (w, .answer (.scope body (.fault (.panic p))))

/-- What a command replies after the release that it asked for. -/
def World.afterRelease (w : World) (outcome : Outcome) : AfterRelease → World × Reply
  | .done => (w, .ofExcept (fun _ => .done) outcome.toExcept)
  | .releasedBefore m before =>
    (w, .ofExcept (fun _ => .flags before (w.isReleased (.manager m))) outcome.toExcept)
  | .releasedNow r => (w, .ofExcept (fun _ => .flag (w.isReleased r)) outcome.toExcept)
  | .droppedGuard m _ reply =>
    match outcome with
    | .ok => (w, reply)
    | .error e => (w.note (.scopeClosedWithErrors m e), reply)
    | .panic p => (w, .fault (.panic p))
  | .endedScope _ m body result => w.endScope m body outcome result

/-- A cascade takes note of the outcome of one item. -/
def World.recordItem (w : World) (m : ManagerId) (failures : ReleaseFailures) (outcome : Outcome) :
    Item → World × ReleaseFailures
  | .child id =>
    match outcome.error? with
    | none => (w, failures)
    | some e => (w, failures.record (.manager id) e)
  | .resource key =>
    match outcome.error? with
    | none => (if w.config.logReleases then w.note (.resourceReleased m key) else w, failures)
    | some e => (w.note (.resourceFailed m key e), failures.record key e)

/-- Takes the work out of a release hook. -/
def World.takeHook (w : World) (h : HookId) : World :=
  { w with hooks := w.hooks.modify h.index fun r => { r with work := none } }

/-- The outcome of a release from the failures that were collected. -/
def Outcome.ofFailures (fs : ReleaseFailures) : Outcome :=
  match fs.error? with
  | none => .ok
  | some e => .error e

/-- A cascade has released everything. -/
def World.endCascade (w : World) (m : ManagerId) (failures : ReleaseFailures) : World × Outcome :=
  let w := w.finishClose m
  let w := if failures.isEmpty then w else w.note (.closedWithFailures m failures.length)
  (w, .ofFailures failures)

def HookEnd.outcome : HookEnd → Outcome
  | succeed => .ok
  | fail e => .error (.engine e)
  | panic p => .panic p

/-- How a body has ended whose commands have all run, or one of which has failed it. -/
def BodyEnd.result (ending : BodyEnd) : Option Fault → BodyResult
  | some (.panic p) => .panic p
  | some f => .fault f
  | none =>
    match ending with
    | value v => .value v
    | error reason => .fault (.manager (.invalidArgument (.other reason)))
    | panic p => .panic p

namespace Thread

/-- Starts a release. -/
def release (order : VisitOrder) (w : World) (id : ThreadId) (below : Stack .outcome) :
    Resource → Step
  | .array a =>
    let (w, outcome) := w.releaseArray a
    .next w ⟨id, .settle outcome below⟩ []
  | .hook h =>
    match w.hook? h with
    | some ⟨label, some work⟩ =>
      .next (w.takeHook h)
        ⟨id, .script work.commands [] false (.hook label work.ending below)⟩ []
    | _ => .next w ⟨id, .settle .ok below⟩ []
  | .manager m =>
    match w.manager? m with
    | none => .next w ⟨id, .settle .ok below⟩ []
    | some r =>
      match r.lifecycle with
      | .closed => .next w ⟨id, .settle .ok below⟩ []
      | .closing thread =>
        if thread = id then .next w ⟨id, .settle .ok below⟩ [] else .waits m
      | .opened =>
        let (w, estate) := w.beginClose m r id
        .next w ⟨id, .sweep m (order.arrange m estate) [] below⟩ []

/-- Hands the outcome of a release to what waits for it. -/
def settle (w : World) (id : ThreadId) (outcome : Outcome) : Stack .outcome → Step
  | .closer m => .next w ⟨id, .reply (w.closedReply m outcome) .top⟩ []
  | .cascade m item rest failures below =>
    let (w, failures) := w.recordItem m failures outcome item
    .next w ⟨id, .sweep m rest failures below⟩ []
  | .release next below =>
    let (w, reply) := w.afterRelease outcome next
    .next w ⟨id, .reply reply below⟩ []
  | .shutdown root rest failures below =>
    match outcome with
    | .ok => .next w ⟨id, .shutdown rest failures below⟩ []
    | .error e => .next w ⟨id, .shutdown rest (failures.record (.manager root) e) below⟩ []
    | .panic p => .next w.endShutdown ⟨id, .reply (.fault (.panic p)) below⟩ []
  | .closers m left replies caller below =>
    .next w ⟨id, .closers m left (replies ++ [w.closedReply m outcome]) caller below⟩ []

/-- Goes on with a cascade: children first, then resources, then the end. -/
def sweep (w : World) (id : ThreadId) (m : ManagerId) (rest : Estate) (failures : ReleaseFailures)
    (below : Stack .outcome) : Step :=
  match rest with
  | ⟨c :: children, resources⟩ =>
    .next w ⟨id, .release (.manager c)
      (.cascade m (.child c) ⟨children, resources⟩ failures below)⟩ []
  | ⟨[], (key, r) :: resources⟩ =>
    .next w ⟨id, .release r (.cascade m (.resource key) ⟨[], resources⟩ failures below)⟩ []
  | ⟨[], []⟩ =>
    let (w, outcome) := w.endCascade m failures
    .next w ⟨id, .settle outcome below⟩ []

/-- Goes on with a shutdown. -/
def shutdown (w : World) (id : ThreadId) (failures : ReleaseFailures) (below : Stack .reply) :
    List ManagerId → Step
  | [] =>
    .next w.endShutdown
      ⟨id, .reply (.ofExcept (fun _ => .done) (Outcome.ofFailures failures).toExcept) below⟩ []
  | root :: rest =>
    .next w ⟨id, .release (.manager root) (.shutdown root rest failures below)⟩ []

/-- Goes on with closing one manager on several threads. -/
def closers (w : World) (m : ManagerId) (left : Nat) (replies : List Reply)
    (caller : ThreadId) (below : Stack .reply) : Step :=
  match left with
  | 0 => .next w ⟨caller, .reply (.answer (.replies replies)) below⟩ []
  | left + 1 =>
    let (w, other) := w.newThread
    .next w ⟨other, .release (.manager m) (.closers m left replies caller below)⟩ []

/-- Starts a command. -/
def perform (w : World) (id : ThreadId) (running : List ManagerId) (c : Command)
    (below : Stack .reply) : Step :=
  let (w, action) := w.perform running c
  match action with
  | .reply r => .next w ⟨id, .reply r below⟩ []
  | .release r next => .next w ⟨id, .release r (.release next below)⟩ []
  | .shutdown roots => .next w ⟨id, .shutdown roots [] below⟩ []
  | .body p m commands propagate ending =>
    .next w ⟨id, .script commands [] propagate (.body p m ending below)⟩ []
  | .callback c next => .next w ⟨id, .script c.commands [] false (.callback c.label next below)⟩ []
  | .join commands =>
    let (w, other) := w.newThread
    .next w ⟨other, .script commands [] false (.joined id below)⟩ []
  | .closeTogether m threads => .next w ⟨id, .closers m threads [] id below⟩ []
  | .spawnClose m =>
    let (w, other) := w.newThread
    .next w ⟨id, .reply (.answer .started) below⟩ [⟨other, .release (.manager m) (.closer m)⟩]

/-- Hands the reply of a command to what waits for it. -/
def reply (w : World) (id : ThreadId) (r : Reply) : Stack .reply → Step
  | .top => .ended r
  | .script rest replies propagate below =>
    match propagate, r with
    | true, .fault f => .next w ⟨id, .finish replies (some f) below⟩ []
    | _, _ => .next w ⟨id, .script rest (replies ++ [r]) propagate below⟩ []

/-- Goes on with a list of commands. -/
def script (w : World) (id : ThreadId) (commands : List Command) (replies : List Reply)
    (propagate : Bool) (below : Stack .replies) : Step :=
  match commands with
  | [] => .next w ⟨id, .finish replies none below⟩ []
  | c :: rest => .next w ⟨id, .perform c (.script rest replies propagate below)⟩ []

/-- Hands the replies of a list of commands to what waits for them. -/
def finish (w : World) (id : ThreadId) (replies : List Reply) (fault : Option Fault) :
    Stack .replies → Step
  | .hook label ending below =>
    .next (w.record (.ran label replies)) ⟨id, .settle ending.outcome below⟩ []
  | .callback label next below =>
    let (w, reply) := (w.record (.ran label replies)).proceed next
    .next w ⟨id, .reply reply below⟩ []
  | .body p m ending below =>
    .next w ⟨id, .release (.manager m)
      (.release (.endedScope p m replies (ending.result fault)) below)⟩ []
  | .joined caller below => .next w ⟨caller, .reply (.answer (.replies replies)) below⟩ []

/-- One step of a thread; `running` are the managers that work in progress holds. -/
def step (order : VisitOrder) (w : World) (running : List ManagerId) (t : Thread) : Step :=
  match t.task with
  | .release r below => release order w t.id below r
  | .settle outcome below => settle w t.id outcome below
  | .sweep m rest failures below => sweep w t.id m rest failures below
  | .shutdown roots failures below => shutdown w t.id failures below roots
  | .closers m left replies caller below => closers w m left replies caller below
  | .perform c below => perform w t.id running c below
  | .reply r below => reply w t.id r below
  | .script commands replies propagate below => script w t.id commands replies propagate below
  | .finish replies fault below => finish w t.id replies fault below

end Thread

end ArrayLifetimes
