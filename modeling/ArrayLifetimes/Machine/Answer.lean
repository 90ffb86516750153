/-
Answers to questions.

A question changes nothing but the journal, which notes that the engine was asked for the
contents of an array.
-/
import ArrayLifetimes.Machine.Names
import ArrayLifetimes.World.View

namespace ArrayLifetimes

/-- Consecutive groups of `count` items; the last one may be shorter. -/
def groupsOf {α : Type} (count : Nat) : Nat → List α → List (List α)
  | 0, _ => []
  | fuel + 1, xs =>
    if xs.isEmpty then [] else xs.take count :: groupsOf count fuel (xs.drop count)

namespace Facts

/-- An element cut to an integer. -/
def whole (x : Element) : Int := x.toNumber.toIntClamped (-2 ^ 63) (2 ^ 63 - 1)

/-- The bounds that are given hold. -/
def within (low high : Option Binary64) (x : Binary64) : Bool :=
  low.all (·.le x) && high.all fun h => x.le h

/-- What a check says of the contents of an array. -/
def of (check : Check) (xs : List Element) : Facts where
  finite := xs.all fun x => x.toNumber.isFinite
  count := xs.length
  inRange :=
    if check.low.isNone && check.high.isNone then none
    else some (xs.all fun x => within check.low check.high x.toNumber)
  rowSums := check.row.map fun row =>
    (groupsOf row xs.length xs).map fun group => (group.map whole).sum

end Facts

namespace World

def overviewOf (w : World) (m : ManagerId) : Answer :=
  match w.manager? m with
  | some r => .overview ⟨r.device, r.state, r.isRoot⟩
  | none => .done

/-- The state of a manager. -/
def stateOf (w : World) (m : ManagerId) : ManagerState :=
  ((w.manager? m).map Manager.state).getD .closed

def statusOf (w : World) (running : List ManagerId) (m : ManagerId) : Answer :=
  match w.manager? m with
  | some r =>
    .status
      { device := r.device
        state := r.state
        isRoot := r.isRoot
        parent := w.parent? running m
        keys := r.sortedKeys
        children := sortedIds r.children
        engine := w.engine.kind.name }
  | none => .done

/-- Whether a resource that a client got back is released. -/
def displacedAnswer (w : World) (r : Option Resource) : Answer := .displaced (r.map w.isReleased)

/-- An array with its contents, or with facts about them. -/
def shownArray (w : World) (a : ArrayId) (check : Option Check) : World × Reply :=
  match w.array? a, w.arrayElements a none with
  | some r, (w, .ok xs) =>
    let contents := match check with
      | none => .elements xs
      | some c => .facts (Facts.of c xs)
    (w, .answer (.array r (some contents)))
  | _, (w, .error f) => (w, .fault f)
  | none, (w, .ok _) => (w, .answer .done)

/-- Arrays with their contents. -/
def shownArrays (w : World) : List ArrayId → World × Except Fault (List (ArrayRecord × Contents))
  | [] => (w, .ok [])
  | a :: rest =>
    match w.array? a, w.arrayElements a none with
    | some r, (w, .ok xs) =>
      match shownArrays w rest with
      | (w, .ok items) => (w, .ok ((r, .elements xs) :: items))
      | (w, .error f) => (w, .error f)
    | _, (w, .error f) => (w, .error f)
    | none, (w, .ok _) => shownArrays w rest

/-- The contents of arrays, each of which may be unreadable. -/
def readEach (w : World) : List ArrayId → World × List (Except Fault (List Element))
  | [] => (w, [])
  | a :: rest =>
    let (w, result) := w.arrayElements a none
    let (w, items) := readEach w rest
    (w, result :: items)

/-- The places in time at which the release of an array was asked of the engine.  A plain engine
keeps no record of them. -/
def releaseTimes (w : World) (x : Handle) : List Nat :=
  if w.engine.isPlain then [] else w.journal.reverse.zipIdx.filterMap fun
    | (.call _ (.release y), i) => if y = x then some i else none
    | _ => none

/-- An answer from a part of the world that must be there. -/
def answerFrom {α : Type} (w : World) (found : Except Fault α) (f : α → Answer) : World × Reply :=
  (w, .ofExcept f found)

/-- A staging buffer that belongs to no manager; it is no longer than an array may be. -/
def zeroBytes (capacity : Nat) : Except Fault (List UInt8) :=
  if capacity > Shape.byteLimit then .error (.panic (.text "capacity overflow"))
  else .ok (List.replicate capacity 0)

/-- A question that only a registry can answer. -/
def askRegistry (w : World) (a : Answer) : World × Reply :=
  (w, if w.registered then .answer a else .fault (.unknownName "registry"))

/-- The answer to a question; `running` are the managers that work in progress holds. -/
def ask (w : World) (running : List ManagerId) : Query → World × Reply
  | .registry => w.askRegistry (.registry ⟨w.sortedRoots, w.engine.kind.name, w.config⟩)
  | .registryContains n =>
    match w.managerNamed n with
    | .ok m => w.askRegistry (.flag (w.roots.contains m))
    | .error f => (w, .fault f)
  | .registryText => w.askRegistry (.text w.registryText)
  | .snapshot => w.askRegistry (.snapshot w.snapshot)
  | .snapshotText => w.askRegistry (.snapshotText w.snapshot)
  | .managerSnapshot n =>
    w.answerFrom (w.managerNamed n) fun m => .managerSnapshot (w.snapshotOf m)
  | .state n => w.answerFrom (w.managerNamed n) (w.statusOf running)
  | .config n => w.answerFrom (w.managerNamed n) fun _ => .config w.config
  | .sameManager n other =>
    w.answerFrom (do return (← w.managerNamed n, ← w.managerNamed other)) fun p =>
      .flag (p.1 == p.2)
  | .managerText n => w.answerFrom (w.managerNamed n) fun m => .text (w.managerText m)
  | .contains n key =>
    w.answerFrom (do return (← w.managerNamed n, ← w.keyNamed key)) fun p =>
      .flag ((w.manager? p.1).any fun r => r.resources.contains p.2)
  | .info n => w.answerFrom (w.recordNamed n) fun p => .array p.2 none
  | .read n t =>
    match w.arrayNamed n with
    | .error f => (w, .fault f)
    | .ok a =>
      let (w, result) := w.arrayElements a t
      (w, .ofExcept .elements result)
  | .bytes n =>
    match w.arrayNamed n with
    | .error f => (w, .fault f)
    | .ok a =>
      let (w, result) := w.arrayBytes a
      (w, .ofExcept .bytes result)
  | .sameArray n other =>
    w.answerFrom (do return (← w.arrayNamed n, ← w.arrayNamed other)) fun p => .flag (p.1 == p.2)
  | .arrayText n => w.answerFrom (w.arrayNamed n) fun a => .text (w.arrayText a)
  | .list ns => w.answerFrom (ns.mapM w.arrayNamed) fun as => .list ⟨as.head?, as⟩
  | .allocateDirect n capacity =>
    w.answerFrom (do let _ ← w.managerNamed n; zeroBytes capacity) fun bytes =>
      .staging bytes.length (bytes.all (· == 0))
  | .counts => (w, .answer (.counts w.engine.host.allocated w.engine.host.released w.engine.host.live))
  | .before n other =>
    w.answerFrom (do return (← w.recordNamed n, ← w.recordNamed other)) fun p =>
      match (w.releaseTimes p.1.2.handle).head?, (w.releaseTimes p.2.2.handle).head? with
      | some i, some j => .maybeFlag (some (decide (i < j)))
      | _, _ => .maybeFlag none
  | .releaseCalls n =>
    w.answerFrom (w.recordNamed n) fun p => .number (w.releaseTimes p.2.handle).length

end World

end ArrayLifetimes
