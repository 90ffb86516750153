/-
Work that waits for other work.

Closing a manager releases resources, a release hook runs commands, and a command closes
managers again.  What still has to be done after the innermost piece of work is kept as a
stack.  A stack waits for one of three things: the outcome of a release, the reply of a
command, or the replies of a list of commands; `Stack w` is a stack that waits for `w`.

A piece of work holds the managers that it is about, the parent of a scope as well as the
manager of the scope itself.
-/
import ArrayLifetimes.World.Closing
import ArrayLifetimes.World.View

namespace ArrayLifetimes

/-- What a stack waits for. -/
inductive Want where
  | outcome
  | reply
  | replies

/-- What a cascade is about to learn the outcome of. -/
inductive Item where
  | child (id : ManagerId)
  | resource (key : Label)
  deriving DecidableEq, Repr

/-- The key under which the failure of an item is reported. -/
def Item.key : Item → Label
  | child id => .manager id
  | resource key => key

/-- How the body of a scope has ended. -/
inductive BodyResult where
  | value (v : Json.Value)
  /-- The fault that the body reports. -/
  | fault (f : Fault)
  | panic (p : Payload)

/-- What a command does with the outcome of the release that it asked for. -/
inductive AfterRelease where
  /-- It answers that it is done. -/
  | done
  /-- It answers whether the manager was released before, and whether it is now. -/
  | releasedBefore (manager : ManagerId) (before : Bool)
  /-- It answers whether the resource is released. -/
  | releasedNow (resource : Resource)
  /-- It reports a failure as an event, and answers something else.  The command may have a
  manager in use. -/
  | droppedGuard (manager : ManagerId) (inUse : Option ManagerId) (reply : Reply)
  /-- The body of a scope has ended, and now the scope has. -/
  | endedScope (parent manager : ManagerId) (body : List Reply) (result : BodyResult)

/-- What the engine and its caller do after the engine has run commands of a client. -/
inductive AfterCallback where
  /-- A new array is attached to its manager, and its contents are shown. -/
  | track (manager : ManagerId) (native : NativeArray) (name : Name) (check : Option Check)
  /-- The outputs of an operation are. -/
  | trackAll (manager : ManagerId) (operation : String) (natives : List NativeArray) (name : Name)
  /-- A direct call is answered. -/
  | answer (reply : Reply)

inductive Stack : Want → Type where
  /-- Nothing is left: the command was the client's own. -/
  | top : Stack .reply
  /-- Nothing is left: a thread has closed its manager. -/
  | closer (manager : ManagerId) : Stack .outcome
  /-- A cascade waits for one item. -/
  | cascade (manager : ManagerId) (item : Item) (rest : Estate) (failures : ReleaseFailures)
      (below : Stack .outcome) : Stack .outcome
  /-- A command waits for a release. -/
  | release (next : AfterRelease) (below : Stack .reply) : Stack .outcome
  /-- The shutdown of the registry waits for a root. -/
  | shutdown (root : ManagerId) (rest : List ManagerId) (failures : ReleaseFailures)
      (below : Stack .reply) : Stack .outcome
  /-- A manager is closed on several threads, and one of them is at it. -/
  | closers (manager : ManagerId) (left : Nat) (replies : List Reply) (caller : ThreadId)
      (below : Stack .reply) : Stack .outcome
  /-- A list of commands waits for one of them. -/
  | script (rest : List Command) (replies : List Reply) (propagate : Bool)
      (below : Stack .replies) : Stack .reply
  /-- A release hook waits for its commands. -/
  | hook (label : String) (ending : HookEnd) (below : Stack .outcome) : Stack .replies
  /-- The engine waits for the commands that it runs before it answers. -/
  | callback (label : String) (next : AfterCallback) (below : Stack .reply) : Stack .replies
  /-- A scope waits for its body. -/
  | body (parent manager : ManagerId) (ending : BodyEnd) (below : Stack .reply) : Stack .replies
  /-- A thread waits for commands that run on another one. -/
  | joined (caller : ThreadId) (below : Stack .reply) : Stack .replies

/-- The managers in an estate. -/
def Estate.managers (e : Estate) : List ManagerId :=
  e.children ++ e.resources.filterMap fun
    | (_, .manager m) => some m
    | _ => none

def AfterRelease.managers : AfterRelease → List ManagerId
  | releasedBefore m _ => [m]
  | droppedGuard m inUse _ => m :: inUse.toList
  | endedScope p m _ _ => [p, m]
  | releasedNow (.manager m) => [m]
  | releasedNow _ | done => []

def AfterCallback.managers : AfterCallback → List ManagerId
  | track m .. | trackAll m .. => [m]
  | answer _ => []

/-- The managers that a stack holds. -/
def Stack.managers {want : Want} : Stack want → List ManagerId
  | .top => []
  | .closer m => [m]
  | .cascade m item rest _ below =>
    m :: (match item with
      | .child c => [c]
      | .resource _ => []) ++ rest.managers ++ below.managers
  | .release next below => next.managers ++ below.managers
  | .shutdown root rest _ below => root :: rest ++ below.managers
  | .closers m _ _ _ below => m :: below.managers
  | .script _ _ _ below => below.managers
  | .hook _ _ below => below.managers
  | .callback _ next below => next.managers ++ below.managers
  | .body p m _ below => p :: m :: below.managers
  | .joined _ below => below.managers

/-- What a thread does next. -/
inductive Task where
  | release (resource : Resource) (below : Stack .outcome)
  | settle (outcome : Outcome) (below : Stack .outcome)
  /-- A cascade goes on to its next item. -/
  | sweep (manager : ManagerId) (rest : Estate) (failures : ReleaseFailures)
      (below : Stack .outcome)
  /-- A shutdown goes on to its next root. -/
  | shutdown (roots : List ManagerId) (failures : ReleaseFailures) (below : Stack .reply)
  /-- Closes go on on the next thread. -/
  | closers (manager : ManagerId) (left : Nat) (replies : List Reply) (caller : ThreadId)
      (below : Stack .reply)
  | perform (command : Command) (below : Stack .reply)
  | reply (reply : Reply) (below : Stack .reply)
  /-- A list of commands goes on to its next one. -/
  | script (commands : List Command) (replies : List Reply) (propagate : Bool)
      (below : Stack .replies)
  /-- A list of commands has ended, early if there is a fault. -/
  | finish (replies : List Reply) (fault : Option Fault) (below : Stack .replies)

def Task.managers : Task → List ManagerId
  | .release (.manager m) below => m :: below.managers
  | .release _ below => below.managers
  | .settle _ below => below.managers
  | .sweep m rest _ below => m :: rest.managers ++ below.managers
  | .shutdown roots _ below => roots ++ below.managers
  | .closers m _ _ _ below => m :: below.managers
  | .perform _ below => below.managers
  | .reply _ below => below.managers
  | .script _ _ _ below => below.managers
  | .finish _ _ below => below.managers

end ArrayLifetimes
