/-
What becomes of the arrays that the engine has made for a call.

Commands of a client may run between the engine's answer and the moment at which managers
get it, and they may close the manager that the arrays are for.  If it is open, all arrays
are attached to it.  If not, managers ask the engine to release them, the first in one
place and the others in another.  They go on past every release that fails, and stop at
one that panics.

Handles are what the arrays are told apart by.  The ledger says that none of them has been
released before, so each request is the only one.
-/
import Mathlib.Data.List.Nodup
import ArrayLifetimes.Proofs.World.Ledger

namespace ArrayLifetimes

/-- The requests to release arrays, the latest first. -/
def releases (ns : List NativeArray) : List EngineCall :=
  (ns.map fun n => EngineCall.release n.handle).reverse

theorem releases_cons (n : NativeArray) (ns : List NativeArray) (calls : List EngineCall) :
    releases (n :: ns) ++ calls = releases ns ++ .release n.handle :: calls := by
  simp [releases]

/-- A manager to which a new array is attached. -/
def Manager.holding (r : Manager) (a : ArrayId) : Manager :=
  { r with resources := r.resources.insert (.array a) (.array a) }

namespace World

variable {w v : World} {m : ManagerId}

/-- The handle of an array. -/
def handle? (w : World) (a : ArrayId) : Option Handle := (w.array? a).map ArrayRecord.handle

/-- The array is attached to an open manager, under its identity. -/
def Attached (w : World) (m : ManagerId) (a : ArrayId) : Prop :=
  ∃ r, w.openManager m = .ok r ∧ r.resources.get? (.array a) = some (.array a)

/-- Managers have asked for the release of new arrays: of all, unless a release panicked.  Then
they have asked for some, up to that one. -/
def Freed (w v : World) (ns : List NativeArray) (panicked : Prop) : Prop :=
  ∃ done left, ns = done ++ left ∧ v.coreCalls = releases done ++ w.coreCalls ∧
    (left ≠ [] → done ≠ [] ∧ panicked)

/-! ### A manager that is not open -/

section Freed

variable {u : World} {n : NativeArray} {ns : List NativeArray} {p q : Prop}

/-- After the release of one more array those of the others are asked for. -/
theorem Freed.cons (h : u.Freed v ns p) (hu : u.coreCalls = .release n.handle :: w.coreCalls) :
    w.Freed v (n :: ns) p := by
  obtain ⟨done, left, rfl, hcalls, hleft⟩ := h
  refine ⟨n :: done, left, rfl, ?_, fun h => ⟨List.cons_ne_nil _ _, (hleft h).2⟩⟩
  rw [hcalls, hu, releases_cons]

theorem Freed.imp (h : w.Freed v ns p) (hpq : p → q) : w.Freed v ns q := by
  obtain ⟨done, left, hns, hcalls, hleft⟩ := h
  exact ⟨done, left, hns, hcalls, fun h => ⟨(hleft h).1, hpq (hleft h).2⟩⟩

end Freed

/-- What attaching new arrays to an open manager leads to. -/
structure Tracked (w : World) (m : ManagerId) (r : Manager) (ns : List NativeArray) (v : World)
    (as : List ArrayId) : Prop where
  handles : as.map v.handle? = ns.map fun n => some n.handle
  attached : ∃ q, v.openManager m = .ok q ∧
    (∀ a ∈ as, q.resources.get? (.array a) = some (.array a)) ∧
    ∀ a, r.resources.get? (.array a) = some (.array a) →
      q.resources.get? (.array a) = some (.array a)
  /-- The arrays that were there have their handles. -/
  kept : ∀ a x, w.handle? a = some x → v.handle? a = some x

theorem track_of_open {r : Manager} (h : w.openManager m = .ok r) (n : NativeArray) :
    w.track m n =
      (((w.adopt n).1.modifyManager m fun r => r.holding (w.adopt n).2).note
        (.arrayAttached m (w.adopt n).2 n.shape), .ok (w.adopt n).2) := by
  have hm : (w.adopt n).1.openManager m = .ok r := h
  simp only [track, hm, Manager.holding]

theorem Tracked.cons {r q : Manager} {n : NativeArray} {ns : List NativeArray} {u : World}
    {a : ArrayId} {as : List ArrayId} (h : w.Tracked m r [n] u [a])
    (hq : u.openManager m = .ok q) (ht : u.Tracked m q ns v as) :
    w.Tracked m r (n :: ns) v (a :: as) := by
  have ha : u.handle? a = some n.handle := (List.cons.inj h.handles).1
  obtain ⟨q', hq', hnew, hold⟩ := h.attached
  rw [hq] at hq'
  cases hq'
  obtain ⟨p, hp, hnews, holds⟩ := ht.attached
  refine ⟨?_, ⟨p, hp, ?_, fun b hb => holds b (hold b hb)⟩, ?_⟩
  · rw [List.map_cons, List.map_cons, ht.handles, ht.kept a _ ha]
  · intro b hb
    rcases List.mem_cons.mp hb with rfl | hb
    · exact holds b (hnew b (List.mem_singleton_self b))
    · exact hnews b hb
  · intro b x hx
    exact ht.kept b x (h.kept b x hx)

theorem Tracked.holds {r : Manager} {ns : List NativeArray} {as : List ArrayId}
    (h : w.Tracked m r ns v as) : ∀ a ∈ as, v.Attached m a := by
  obtain ⟨q, hq, hnew, -⟩ := h.attached
  exact fun a ha => ⟨q, hq, hnew a ha⟩

/-! ### Showing arrays to the client -/

/-- Managers and arrays are as they were, and so is what the engine has. -/
structure Kept (w v : World) : Prop where
  managers : v.managers = w.managers
  arrays : v.arrays = w.arrays
  kind : v.engine.kind = w.engine.kind
  host : v.engine.host = w.engine.host

theorem Kept.refl (w : World) : w.Kept w := ⟨rfl, rfl, rfl, rfl⟩

theorem Kept.trans {u : World} (h : w.Kept v) (h' : v.Kept u) : w.Kept u where
  managers := h'.managers.trans h.managers
  arrays := h'.arrays.trans h.arrays
  kind := h'.kind.trans h.kind
  host := h'.host.trans h.host

theorem Kept.attached {a : ArrayId} (h : w.Kept v) (ha : w.Attached m a) : v.Attached m a := by
  obtain ⟨r, hr, hra⟩ := ha
  refine ⟨r, ?_, hra⟩
  simpa only [openManager, manager?, h.managers] using hr

theorem Kept.handle? (h : w.Kept v) (a : ArrayId) : v.handle? a = w.handle? a := by
  simp only [World.handle?, array?, h.arrays]

theorem kept_arrayBytes (w : World) (a : ArrayId) : w.Kept (w.arrayBytes a).1 := by
  unfold arrayBytes
  split
  · exact .refl w
  · exact ⟨rfl, rfl, rfl, rfl⟩

theorem kept_arrayElements (w : World) (a : ArrayId) (t : Option DataType) :
    w.Kept (w.arrayElements a t).1 := by
  unfold arrayElements
  split
  · exact .refl w
  · simp only
    split
    · exact .refl w
    · exact kept_arrayBytes w a

theorem kept_shownArray (w : World) (a : ArrayId) (check : Option Check) :
    w.Kept (w.shownArray a check).1 := by
  have h := kept_arrayElements w a none
  unfold shownArray
  split <;> rename_i he <;> rw [he] at h <;> exact h

theorem kept_shownArrays (w : World) (as : List ArrayId) : w.Kept (w.shownArrays as).1 := by
  induction as generalizing w with
  | nil => exact .refl w
  | cons a as ih =>
      have h := kept_arrayElements w a none
      unfold shownArrays
      split
      · rename_i u xs _ he
        rw [he] at h
        have hu := ih u
        split <;> rename_i hs <;> rw [hs] at hu <;> exact h.trans hu
      · rename_i he
        rw [he] at h
        exact h
      · rename_i u xs _ he
        rw [he] at h
        exact h.trans (ih u)

theorem kept_nameOutputs (w : World) (name : Name) (as : List ArrayId) :
    w.Kept (w.nameOutputs name as) := by
  unfold nameOutputs
  generalize as.zipIdx = l
  induction l generalizing w with
  | nil => exact .refl w
  | cons p l ih =>
      have hp : w.Kept (w.nameArray (if p.2 = 0 then name else name ++ "." ++ toString p.2) p.1) :=
        ⟨rfl, rfl, rfl, rfl⟩
      exact hp.trans (ih _)

/-! ### No output is forgotten -/

end World

/-- The arrays that the engine has made for a call, and the manager that they are for. -/
inductive AfterCallback.Makes : AfterCallback → ManagerId → List NativeArray → Prop
  | track (m : ManagerId) (n : NativeArray) (name : Name) (check : Option Check) :
      Makes (.track m n name check) m [n]
  | trackAll (m : ManagerId) (operation : String) (ns : List NativeArray) (name : Name) :
      Makes (.trackAll m operation ns name) m ns

/-- The result of the call, when managers get the engine's answer. -/
def AfterCallback.result (w : World) : AfterCallback → Except Fault (List ArrayId)
  | .track m n _ _ => (w.track m n).2.map fun a => [a]
  | .trackAll m operation ns _ => ((w.note (.invoked m operation ns.length)).trackAll m ns).2
  | .answer _ => .ok []

namespace World

variable {w : World} {m : ManagerId} {ns rest : List NativeArray} {next : AfterCallback}

end World

end ArrayLifetimes
