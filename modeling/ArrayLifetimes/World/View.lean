/-
What can be seen of a world.

Sets are shown in a fixed order: identities by their number, keys with texts first.  A
snapshot lists a manager with everything below it.

A manager knows its parent only as long as somebody holds the parent: a client by a name,
the registry, another manager that is held itself, or work that is going on, such as a
command that the parent was named in.  Managers that
hold each other in a circle are held for ever.
-/
import ArrayLifetimes.Text.Quoted
import ArrayLifetimes.World.Arrays

namespace ArrayLifetimes

/-- The order in which keys are shown. -/
def Label.le : Label → Label → Bool
  | .text s, .text t => decide (s ≤ t)
  | .text _, _ => true
  | .manager _, .text _ => false
  | .manager a, .manager b => decide (a.index ≤ b.index)
  | .manager _, .array _ => true
  | .array a, .array b => decide (a.index ≤ b.index)
  | .array _, _ => false

/-- Identities by their number. -/
def sortedIds (ids : List ManagerId) : List ManagerId :=
  ids.mergeSort fun a b => decide (a.index ≤ b.index)

namespace Manager

/-- The keys in use, in order. -/
def sortedKeys (m : Manager) : List Label := m.resources.keys.mergeSort Label.le

/-- Whether the manager has another one among what it owns. -/
def owns (m : Manager) (other : ManagerId) : Bool :=
  m.children.contains other || m.resources.values.contains (.manager other)

end Manager

namespace World

/-- The roots of the registry, in order. -/
def sortedRoots (w : World) : List ManagerId := sortedIds w.roots

/-- A manager with what is below it, down to a number of levels. -/
def snapshotAt (w : World) : Nat → ManagerId → ManagerSnapshot
  | levels, m =>
    match w.manager? m with
    | none => .node m .cpu .closed [] []
    | some r =>
      .node m r.device r.state r.sortedKeys
        (match levels with
        | 0 => []
        | n + 1 => (sortedIds r.children).map (snapshotAt w n))

/-- A manager with everything below it.  A child is younger than its parent, so there are fewer
levels than managers. -/
def snapshotOf (w : World) (m : ManagerId) : ManagerSnapshot := w.snapshotAt w.managers.size m

def snapshot (w : World) : RegistrySnapshot := ⟨w.sortedRoots.map w.snapshotOf⟩

/-! ### Who is held -/

/-- Somebody other than a manager holds it.  `running` are those that work in progress holds. -/
def isHeld (w : World) (running : List ManagerId) (m : ManagerId) : Bool :=
  w.client.managers.values.contains m || w.client.guards.values.contains m ||
    w.client.resources.values.contains (.manager m) || w.roots.contains m || running.contains m

/-- The managers that have another one among what they own. -/
def ownersOf (w : World) (m : ManagerId) : List ManagerId :=
  (List.range w.managers.size).filterMap fun i =>
    match w.managers[i]? with
    | some r => if r.owns m then some ⟨i⟩ else none
    | none => none

/-- The managers that are let go in a number of rounds: in each, those that nobody holds but
managers let go before. -/
def letGo (w : World) (running : List ManagerId) : Nat → List ManagerId
  | 0 => []
  | rounds + 1 =>
    let before := letGo w running rounds
    ((List.range w.managers.size).map ManagerId.mk).filter fun m =>
      !w.isHeld running m && (w.ownersOf m).all before.contains

/-- The parent of a manager, if it has one that somebody holds. -/
def parent? (w : World) (running : List ManagerId) (m : ManagerId) : Option ManagerId :=
  match (w.manager? m).map Manager.owner with
  | some (.parent p) =>
    if w.isHeld running p || !(w.letGo running w.managers.size).contains p then some p else none
  | _ => none

/-! ### Texts for diagnostics -/

def managerText (w : World) (m : ManagerId) : Phrase :=
  match w.manager? m with
  | none => []
  | some r =>
    [.text "NDManager \x7b id: ManagerId(", .manager m,
      .text (String.join ["), device: ", r.device.debugText, ", engine: \"", w.engine.kind.name,
        "\", root: ", if r.isRoot then "true" else "false", " \x7d"])]

def arrayText (w : World) (a : ArrayId) : Phrase :=
  match w.array? a with
  | none => []
  | some r =>
    let dims := String.intercalate ", " (r.shape.dims.map fun d => toString d.toNat)
    [.text "NDArray \x7b uid: ArrayId(", .array a,
      .text (String.join ["), handle: NativeHandle(", toString r.handle.number,
        "), shape: Shape([", dims, "]), data_type: ", r.dataType.capitalized, ", device: ",
        r.device.debugText, ", released: ", if r.released then "true" else "false", " \x7d"])]

def hookText (w : World) (h : HookId) : Phrase :=
  match w.hook? h with
  | none => []
  | some r =>
    .ofText (String.join ["ReleaseHook \x7b label: ", Text.diagnosticQuoted r.label,
      ", released: ", if w.isReleased (.hook h) then "true" else "false", " \x7d"])

def registryText (w : World) : Phrase :=
  .ofText (String.join ["ManagerRegistry \x7b engine: \"", w.engine.kind.name, "\", roots: ",
    toString w.roots.length, " \x7d"])

end World

end ArrayLifetimes
