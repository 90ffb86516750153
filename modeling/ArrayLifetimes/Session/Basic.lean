/-
Sessions: commands one after the other, and a report on each.

A command runs until nothing is left to do, threads that it has started included.  The
report tells what it answered and what happened meanwhile: the releases that the engine
was asked for, the commands that release hooks and the engine ran, and all events.
-/
import ArrayLifetimes.Machine.Run
import ArrayLifetimes.Session.Order

namespace ArrayLifetimes

namespace World

/-- The world before the first command. -/
def start (kind : EngineKind) (config : Config) (draws : Draws) : World where
  config := config
  engine := { kind, host := { draws } }

/-- A machine on which a client's command is about to run. -/
def machine (w : World) (c : Command) : Machine := ⟨w, [⟨⟨0⟩, .perform c .top⟩]⟩

end World

/-- A manager as a list of all managers shows it. -/
structure ManagerLine where
  name : Name
  state : ManagerState
  keys : List Label
  children : List ManagerId
  deriving Repr

/-- What a command answered and what happened meanwhile. -/
structure StepReport where
  /-- None if the command waits for ever. -/
  reply : Option Reply
  /-- The replies of threads that the command started. -/
  threads : List (Option Reply)
  /-- The number of live handles. -/
  live : Nat
  /-- The handles whose release the engine was asked for. -/
  released : List Handle
  /-- The commands that release hooks and the engine ran. -/
  ran : List (String × List Reply)
  events : List Event
  managers : List ManagerLine
  /-- The named arrays, and whether they are released. -/
  arrays : List (Name × Bool)
  /-- The texts of identities at the end. -/
  naming : Naming

namespace World

def managerLines (w : World) : List ManagerLine :=
  w.client.managers.entries.filterMap fun (name, m) =>
    (w.manager? m).map fun r => ⟨name, r.state, r.sortedKeys, r.children⟩

def arrayLines (w : World) : List (Name × Bool) :=
  w.client.arrays.entries.map fun (name, a) => (name, w.isReleased (.array a))

/-- The entries of the journal since it had a given length, in order of time. -/
def entriesSince (w : World) (length : Nat) : List Entry :=
  (w.journal.take (w.journal.length - length)).reverse

end World

namespace Entry

def released? : Entry → Option Handle
  | call _ (.release x) => some x
  | _ => none

def ran? : Entry → Option (String × List Reply)
  | ran label replies => some (label, replies)
  | _ => none

def event? : Entry → Option Event
  | event e => some e
  | _ => none

end Entry

namespace World

/-- The report on a run that began when the journal had a given length. -/
def report (w : World) (length : Nat) (replies : List (Option Reply)) : StepReport :=
  let entries := w.entriesSince length
  { reply := replies.head?.join
    threads := replies.tail
    live := w.engine.host.live
    released := entries.filterMap Entry.released?
    ran := entries.filterMap Entry.ran?
    events := entries.filterMap Entry.event?
    managers := w.managerLines
    arrays := w.arrayLines
    naming := w.naming }

/-- Runs a command to its end. -/
def execute (w : World) (order : VisitOrder) (c : Command) : World × StepReport :=
  let after := (w.machine c).run order
  (after.world,
    after.world.report w.journal.length (after.threads.map Thread.reply?))

/-- Runs commands one after the other. -/
def executeAll (w : World) (order : VisitOrder) : List Command → List StepReport
  | [] => []
  | c :: rest =>
    let (w, report) := w.execute order c
    report :: executeAll w order rest

end World

end ArrayLifetimes
