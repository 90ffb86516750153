/-
What a cascade leaves of a world.

However a cascade goes, its effect is told by two lists: the managers that it closes and the
leaves that it releases.  `Cleared` reads the effect off them, place by place, and two lists
that differ in their order only say the same.  What depends on the order is the record of
what was done when: the journal, and the calls that the engine remembers.  `bare` leaves
these out.

The effect of a part of a cascade, followed by that of another part, is the effect of both.
So the effect of a whole cascade is found by taking it apart.
-/
import ArrayLifetimes.Proofs.World.Closing
import Mathlib.Data.List.Basic
import Mathlib.Data.List.Perm.Basic

namespace ArrayLifetimes

/-! ### The engine -/

namespace Engine

/-- The engine without the calls that it remembers. -/
def bare (e : Engine) : Engine := { e with calls := [] }

/-- The engine gives the memory of an array back when it is asked to. -/
def frees (e : Engine) (x : Handle) : Bool :=
  match e.kind with
  | .foreign _ => false
  | _ => (e.duePanic x).isNone && !e.failsAt x && e.host.contains x

/-- The engine after it was asked for some releases. -/
def without (e : Engine) (xs : List Handle) : Engine :=
  { e with
    host := { e.host with
      buffers := ⟨e.host.buffers.entries.filter fun b => b.1 ∉ xs.filter e.frees⟩
      released := e.host.released + (xs.filter e.frees).length }
    calls := [] }

@[simp] theorem bare_without (e : Engine) (xs : List Handle) : (e.without xs).bare = e.without xs :=
  rfl

/-- Nothing changes if the engine gives nothing back. -/
theorem without_eq_bare {e : Engine} {xs : List Handle} (h : ∀ x ∈ xs, e.frees x = false) :
    e.without xs = e.bare := by
  have hnone : xs.filter e.frees = [] := List.filter_eq_nil_iff.mpr fun x hx => by simp [h x hx]
  have hall : e.host.buffers.entries.filter (fun _ => true) = e.host.buffers.entries :=
    List.filter_eq_self.mpr fun _ _ => rfl
  simp [without, bare, hnone, hall]

@[simp] theorem without_nil (e : Engine) : e.without [] = e.bare :=
  without_eq_bare fun _ hx => nomatch hx

theorem without_bare (e : Engine) (xs : List Handle) : e.bare.without xs = e.without xs := rfl

theorem without_perm (e : Engine) {xs ys : List Handle} (h : xs.Perm ys) :
    e.without xs = e.without ys := by
  have hf := h.filter e.frees
  simp only [without, hf.mem_iff, hf.length_eq]

/-- What became of the engine when it has answered to a release. -/
theorem bare_release (e : Engine) (x : Handle) : (e.release x).1.bare = e.without [x] := by
  have nothing : e.frees x = false → e.without [x] = e.bare := fun h =>
    without_eq_bare fun y hy => List.mem_singleton.mp hy ▸ h
  have hosted : (∀ f, e.kind ≠ .foreign f) → (e.releaseHosted x).1.bare = e.without [x] := by
    intro hk
    have hframe : e.frees x = ((e.duePanic x).isNone && !e.failsAt x && e.host.contains x) := by
      unfold frees
      split
      · rename_i f hf
        exact absurd hf (hk f)
      · rfl
    unfold releaseHosted
    split
    · rename_i p hp
      exact (nothing (by simp [hframe, hp])).symm
    · rename_i hp
      split
      · rename_i hfails
        exact (nothing (by simp [hframe, hfails])).symm
      · rename_i hfails
        cases hb : e.host.buffers.get? x with
        | none =>
            simp only [Host.release, hb]
            exact (nothing (by simp [Host.contains, Keyed.contains, hframe, hb])).symm
        | some b =>
            have hfree : e.frees x = true := by
              simp [Host.contains, Keyed.contains, hframe, hb, hp, hfails]
            simp [Host.release, hb, without, bare, hfree, Keyed.erase]
  unfold release
  split
  · rename_i f hf
    exact (nothing (by simp [frees, hf])).symm
  · rename_i hk
    exact hosted hk

theorem find_filter_not_mem {α : Type} (xs : List Handle) (es : List (Handle × α)) (y : Handle) :
    Keyed.find y (es.filter fun b => b.1 ∉ xs) = if y ∈ xs then none else Keyed.find y es := by
  induction es with
  | nil => simp [Keyed.find]
  | cons e es ih => grind [Keyed.find]

theorem frees_without (e : Engine) {xs : List Handle} {y : Handle} (h : y ∉ xs) :
    (e.without xs).frees y = e.frees y := by
  have hy : y ∉ xs.filter e.frees := fun hmem => h (List.mem_filter.mp hmem).1
  have hc : (e.without xs).host.contains y = e.host.contains y := by
    simp only [Host.contains, Keyed.contains, Keyed.get?, without, find_filter_not_mem, if_neg hy]
  simp only [frees, hc]
  rfl

theorem without_append_of_disjoint (e : Engine) {xs ys : List Handle} (h : ∀ y ∈ ys, y ∉ xs) :
    (e.without xs).without ys = e.without (xs ++ ys) := by
  have hf : ys.filter (e.without xs).frees = ys.filter e.frees :=
    List.filter_congr fun y hy => e.frees_without (h y hy)
  simp only [without] at hf ⊢
  simp only [hf, List.filter_append, List.filter_filter, List.length_append, List.mem_append,
    not_or, Bool.decide_and, Nat.add_assoc]
  simp [Bool.and_comm]

/-- An engine that keeps no memory on the host gives nothing back there. -/
theorem without_foreign {e : Engine} {f : Foreign} (h : e.kind = .foreign f) (xs : List Handle) :
    e.without xs = e.bare := by
  refine without_eq_bare fun x _ => ?_
  simp only [frees, h]

theorem without_append (e : Engine) {xs ys : List Handle}
    (h : (∀ f, e.kind ≠ .foreign f) → ∀ y ∈ ys, y ∉ xs) :
    (e.without xs).without ys = e.without (xs ++ ys) := by
  by_cases hosted : ∀ f, e.kind ≠ .foreign f
  · exact e.without_append_of_disjoint (h hosted)
  · obtain ⟨f, hf⟩ := not_forall.mp hosted
    have hk : e.kind = .foreign f := not_not.mp hf
    rw [without_foreign hk xs, without_bare, without_foreign hk ys, without_foreign hk (xs ++ ys)]

end Engine

/-! ### Managers -/

namespace Manager

/-- The manager when its close is over. -/
def shut (r : Manager) : Manager := { r with lifecycle := .closed, resources := {}, children := [] }

/-- The manager when some of its children have taken themselves off its list. -/
def without (r : Manager) (ms : List ManagerId) : Manager :=
  if r.isOpen then { r with children := r.children.diff ms } else r

@[simp] theorem owner_shut (r : Manager) : r.shut.owner = r.owner := rfl

@[simp] theorem owner_without (r : Manager) (ms : List ManagerId) :
    (r.without ms).owner = r.owner := by
  unfold without
  split <;> rfl

@[simp] theorem without_nil (r : Manager) : r.without [] = r := by
  unfold without
  split <;> rfl

@[simp] theorem shut_without (r : Manager) (ms : List ManagerId) : (r.without ms).shut = r.shut := by
  unfold without
  split <;> rfl

theorem without_without (r : Manager) (ms ns : List ManagerId) :
    (r.without ms).without ns = r.without (ms ++ ns) := by
  by_cases h : r.isOpen
  · have h' : ({ r with children := r.children.diff ms } : Manager).isOpen = true := h
    simp [without, h, h', List.diff_append]
  · simp [without, h]

theorem without_perm (r : Manager) {ms ns : List ManagerId} (h : ms.Perm ns) :
    r.without ms = r.without ns := by
  simp only [without, h.diff_left]

theorem without_of_not_open {r : Manager} (h : r.isOpen = false) (ms : List ManagerId) :
    r.without ms = r := by
  simp [without, h]

end Manager

namespace World

/-- The world without the record of what was done when. -/
def bare (w : World) : World := { w with engine := w.engine.bare, journal := [] }

/-- The handle of a resource in native memory. -/
def memory? (w : World) : Resource → Option Handle
  | .array a => (w.array? a).map ArrayRecord.handle
  | _ => none

/-- Those of some managers that an owner keeps track of. -/
def ofOwner (w : World) (o : Owner) (ms : List ManagerId) : List ManagerId :=
  ms.filter fun m => (w.manager? m).any fun r => r.owner == o

/-- No two arrays share memory on the host. -/
def Apart (w : World) : Prop :=
  (∀ f, w.engine.kind ≠ .foreign f) →
    ∀ a b r q, w.array? a = some r → w.array? b = some q → r.handle = q.handle → a = b

theorem Ledger.apart {w : World} {ns : List NativeArray} (h : w.Ledger ns) : w.Apart :=
  fun _ _ _ _ _ => h.eq_of_handle

/-- In `v` the managers `ms` have been closed and the leaves `xs` released. -/
structure Cleared (w : World) (ms : List ManagerId) (xs : List Resource) (v : World) : Prop where
  managers : ∀ n, v.manager? n = (w.manager? n).map fun r =>
    if n ∈ ms then r.shut else r.without (w.ofOwner (.parent n) ms)
  arrays : ∀ a, v.array? a = (w.array? a).map fun r =>
    if .array a ∈ xs then { r with mark := ⟨true⟩ } else r
  hooks : ∀ h, v.hook? h = (w.hook? h).map fun r =>
    if .hook h ∈ xs then { r with work := none } else r
  roots : v.roots = w.roots.diff (w.ofOwner .registry ms)
  engine : v.engine.bare = w.engine.without (xs.filterMap w.memory?)
  config : v.config = w.config
  registered : v.registered = w.registered
  shutdowns : v.shutdowns = w.shutdowns
  client : v.client = w.client
  threads : v.threads = w.threads

section Cleared

variable {w u v : World} {ms ns : List ManagerId} {xs ys : List Resource}

theorem ofOwner_perm (w : World) (o : Owner) (h : ms.Perm ns) :
    (w.ofOwner o ms).Perm (w.ofOwner o ns) := h.filter _

theorem Cleared.refl (w : World) : w.Cleared [] [] w where
  managers n := by
    simp [ofOwner]
  arrays a := by
    simp
  hooks h := by
    simp
  roots := by
    simp [ofOwner]
  engine := by
    simp
  config := rfl
  registered := rfl
  shutdowns := rfl
  client := rfl
  threads := rfl

/-- What is recorded besides does not count. -/
theorem Cleared.of_bare (h : w.Cleared ms xs u) (hv : v.bare = u.bare) : w.Cleared ms xs v := by
  have hm := congrArg World.managers hv
  have ha := congrArg World.arrays hv
  have hh := congrArg World.hooks hv
  refine ⟨?_, ?_, ?_, (congrArg World.roots hv).trans h.roots,
    (congrArg World.engine hv).trans h.engine, (congrArg World.config hv).trans h.config,
    (congrArg World.registered hv).trans h.registered,
    (congrArg World.shutdowns hv).trans h.shutdowns, (congrArg World.client hv).trans h.client,
    (congrArg World.threads hv).trans h.threads⟩
  · intro n
    rw [← h.managers]
    exact congrArg (fun a => a[n.index]?) hm
  · intro a
    rw [← h.arrays]
    exact congrArg (fun as => as[a.index]?) ha
  · intro g
    rw [← h.hooks]
    exact congrArg (fun hs => hs[g.index]?) hh

theorem Cleared.perm (h : w.Cleared ms xs v) (hm : ms.Perm ns) (hx : xs.Perm ys) :
    w.Cleared ns ys v where
  managers n := by
    rw [h.managers]
    simp only [hm.mem_iff, Manager.without_perm _ (w.ofOwner_perm (.parent n) hm)]
  arrays a := by
    simp only [h.arrays, hx.mem_iff]
  hooks g := by
    simp only [h.hooks, hx.mem_iff]
  roots := by
    rw [h.roots, (w.ofOwner_perm .registry hm).diff_left]
  engine := by
    rw [h.engine, w.engine.without_perm (hx.filterMap _)]
  config := h.config
  registered := h.registered
  shutdowns := h.shutdowns
  client := h.client
  threads := h.threads

/-- **Two worlds of which the same has been cleared are equal, but for the record.** -/
theorem Cleared.bare_eq (h : w.Cleared ms xs u) (h' : w.Cleared ns ys v) (hm : ms.Perm ns)
    (hx : xs.Perm ys) : u.bare = v.bare := by
  have h := h.perm hm hx
  have managers : u.managers = v.managers := Array.ext_getElem? fun i => by
    have hu := h.managers ⟨i⟩
    have hv := h'.managers ⟨i⟩
    exact hu.trans hv.symm
  have arrays : u.arrays = v.arrays := Array.ext_getElem? fun i => by
    have hu := h.arrays ⟨i⟩
    have hv := h'.arrays ⟨i⟩
    exact hu.trans hv.symm
  have hooks : u.hooks = v.hooks := Array.ext_getElem? fun i => by
    have hu := h.hooks ⟨i⟩
    have hv := h'.hooks ⟨i⟩
    exact hu.trans hv.symm
  have engine : u.engine.bare = v.engine.bare := h.engine.trans h'.engine.symm
  simp only [bare, managers, arrays, hooks, engine, h.roots, h'.roots, h.config, h'.config,
    h.registered, h'.registered, h.shutdowns, h'.shutdowns, h.client, h'.client, h.threads,
    h'.threads]

/-! ### What stays the same -/

theorem Cleared.ofOwner (h : w.Cleared ms xs v) (o : Owner) (ns : List ManagerId) :
    v.ofOwner o ns = w.ofOwner o ns := by
  refine List.filter_congr fun m _ => ?_
  rw [h.managers]
  cases w.manager? m with
  | none => rfl
  | some r =>
      simp only [Option.map_some, Option.any_some]
      split <;> simp

theorem Cleared.memory? (h : w.Cleared ms xs v) (x : Resource) : v.memory? x = w.memory? x := by
  cases x with
  | array a =>
      simp only [World.memory?, h.arrays, Option.map_map]
      cases w.array? a with
      | none => rfl
      | some r =>
          simp only [Option.map_some, Function.comp_apply]
          split <;> rfl
  | manager m => rfl
  | hook g => rfl

theorem Cleared.kind (h : w.Cleared ms xs v) : v.engine.kind = w.engine.kind := by
  show v.engine.bare.kind = (w.engine.without (xs.filterMap w.memory?)).kind
  rw [h.engine]

theorem Cleared.apart (h : w.Cleared ms xs v) (hw : w.Apart) : v.Apart := by
  have handle : ∀ a r, v.array? a = some r → ∃ q, w.array? a = some q ∧ r.handle = q.handle := by
    intro a r hr
    rw [h.arrays, Option.map_eq_some_iff] at hr
    obtain ⟨q, hq, rfl⟩ := hr
    refine ⟨q, hq, ?_⟩
    split <;> rfl
  intro hosted a b r q hr hq hrq
  obtain ⟨r', hr', hr⟩ := handle a r hr
  obtain ⟨q', hq', hq⟩ := handle b q hq
  exact hw (h.kind ▸ hosted) a b r' q' hr' hq' (hr.symm.trans (hrq.trans hq))

theorem Cleared.has (h : w.Cleared ms xs v) {x : Resource} (hx : w.Has x) : v.Has x := by
  have size : ∀ {α : Type} {as bs : Array α} {i : Nat}, (bs[i]?.isSome = as[i]?.isSome) →
      i < as.size → i < bs.size := by
    intro α as bs i hi hlt
    rw [Array.getElem?_eq_getElem hlt, Option.isSome_some] at hi
    obtain ⟨b, hb⟩ := Option.isSome_iff_exists.mp hi
    exact (Array.getElem?_eq_some_iff.mp hb).1
  cases x with
  | array a =>
      refine size ?_ hx
      have := congrArg Option.isSome (h.arrays a)
      rwa [Option.isSome_map] at this
  | manager m =>
      refine size ?_ hx
      have := congrArg Option.isSome (h.managers m)
      rwa [Option.isSome_map] at this
  | hook g =>
      refine size ?_ hx
      have := congrArg Option.isSome (h.hooks g)
      rwa [Option.isSome_map] at this

/-- The leaves that are released afterwards: those in the list, and what was before. -/
theorem Cleared.isReleased (h : w.Cleared ms xs v) {x : Resource} (hx : w.Has x)
    (leaf : ∀ m, x ≠ .manager m) : v.isReleased x = (w.isReleased x || decide (x ∈ xs)) := by
  cases x with
  | array a =>
      obtain ⟨r, hr⟩ := exists_of_has_array hx
      simp only [World.isReleased, h.arrays, hr, Option.map_some, Option.any_some]
      by_cases ha : Resource.array a ∈ xs <;> simp [ha, ArrayRecord.released]
  | hook g =>
      obtain ⟨r, hr⟩ := exists_of_has_hook hx
      simp only [World.isReleased, h.hooks, hr, Option.map_some, Option.any_some]
      by_cases hg : Resource.hook g ∈ xs <;> simp [hg]
  | manager m => exact absurd rfl (leaf m)

/-- The managers that are closed afterwards. -/
theorem Cleared.isReleased_manager (h : w.Cleared ms xs v) {m : ManagerId}
    (hm : w.Has (.manager m)) :
    v.isReleased (.manager m) = (w.isReleased (.manager m) || decide (m ∈ ms)) := by
  obtain ⟨r, hr⟩ := exists_of_has_manager hm
  simp only [World.isReleased, h.managers, hr, Option.map_some, Option.any_some]
  by_cases hms : m ∈ ms
  · simp [hms, Manager.shut, Manager.state, Lifecycle.state]
  · have hstate : (r.without (w.ofOwner (.parent m) ms)).state = r.state := by
      unfold Manager.without
      split <;> rfl
    simp [hms, hstate]

/-! ### Putting effects together -/

/-- The handles of different leaves are different. -/
theorem Apart.handles (hw : w.Apart) (hosted : ∀ f, w.engine.kind ≠ .foreign f)
    (hxy : ∀ y ∈ ys, y ∉ xs) :
    ∀ y ∈ ys.filterMap w.memory?, y ∉ xs.filterMap w.memory? := by
  have source : ∀ x y, w.memory? x = some y →
      ∃ a r, x = .array a ∧ w.array? a = some r ∧ r.handle = y := by
    intro x y hx
    cases x with
    | array a =>
        obtain ⟨r, hr, hy⟩ := Option.map_eq_some_iff.mp hx
        exact ⟨a, r, rfl, hr, hy⟩
    | manager m => cases hx
    | hook g => cases hx
  intro z hy hx
  obtain ⟨y, hys, hy⟩ := List.mem_filterMap.mp hy
  obtain ⟨x, hxs, hx⟩ := List.mem_filterMap.mp hx
  obtain ⟨a, r, rfl, hr, hrz⟩ := source y z hy
  obtain ⟨b, q, rfl, hq, hqz⟩ := source x z hx
  rw [hw hosted a b r q hr hq (hrz.trans hqz.symm)] at hys
  exact hxy _ hys hxs

/-- **The effect of one part and then of another is the effect of both.** -/
theorem Cleared.trans (h : w.Cleared ms xs u) (h' : u.Cleared ns ys v) (hw : w.Apart)
    (hxy : ∀ y ∈ ys, y ∉ xs) : w.Cleared (ms ++ ns) (xs ++ ys) v where
  managers n := by
    rw [h'.managers, h.managers, Option.map_map]
    refine congrFun (congrArg Option.map (funext fun r => ?_)) _
    have hown : w.ofOwner (.parent n) (ms ++ ns) =
        w.ofOwner (.parent n) ms ++ w.ofOwner (.parent n) ns := List.filter_append ..
    simp only [Function.comp_apply, h.ofOwner, hown, List.mem_append]
    by_cases hns : n ∈ ns
    · by_cases hms : n ∈ ms
      · simp [hns, hms, Manager.shut]
      · simp [hns, hms]
    · by_cases hms : n ∈ ms
      · simp only [hns, hms, or_false, if_true, if_false]
        exact Manager.without_of_not_open rfl _
      · simp only [hns, hms, or_false, if_false]
        exact Manager.without_without ..
  arrays a := by
    rw [h'.arrays, h.arrays, Option.map_map]
    refine congrFun (congrArg Option.map (funext fun r => ?_)) _
    by_cases hx : Resource.array a ∈ xs <;> by_cases hy : Resource.array a ∈ ys <;> simp [hx, hy]
  hooks g := by
    rw [h'.hooks, h.hooks, Option.map_map]
    refine congrFun (congrArg Option.map (funext fun r => ?_)) _
    by_cases hx : Resource.hook g ∈ xs <;> by_cases hy : Resource.hook g ∈ ys <;> simp [hx, hy]
  roots := by
    rw [h'.roots, h.roots, h.ofOwner, ← List.diff_append]
    exact congrArg _ (List.filter_append ..).symm
  engine := by
    have hys : ys.filterMap u.memory? = ys.filterMap w.memory? :=
      List.filterMap_congr fun y _ => h.memory? y
    rw [h'.engine, ← Engine.without_bare, h.engine, hys, List.filterMap_append,
      Engine.without_append _ fun hosted => hw.handles hosted hxy]
  config := h'.config.trans h.config
  registered := h'.registered.trans h.registered
  shutdowns := h'.shutdowns.trans h.shutdowns
  client := h'.client.trans h.client
  threads := h'.threads.trans h.threads

/-! ### Leaves -/

theorem bare_callRelease (w : World) (c : Caller) (x : Handle) :
    (w.callRelease c x).1.bare = { w.bare with engine := w.engine.without [x] } := by
  have h := (w.tell c (.release x)).engine.bare_release x
  unfold callRelease
  simp only
  split <;> rename_i he <;> rw [he] at h <;> simp only [bare, note, record, h] <;> rfl

/-- The first release of an array clears it. -/
theorem cleared_releaseArray {a : ArrayId} (ha : w.Has (.array a))
    (hr : w.isReleased (.array a) = false) :
    w.Cleared [] [.array a] (w.releaseArray a).1 := by
  obtain ⟨r, hw⟩ := exists_of_has_array ha
  have hmark : r.mark.isSet = false := by
    simpa [World.isReleased, hw, ArrayRecord.released] using hr
  have hv : (w.releaseArray a).1.bare =
      { (w.markReleased a).bare with engine := w.engine.without [r.handle] } := by
    simp only [releaseArray, hw, ReleaseMark.begin, hmark, Bool.not_false, if_true]
    exact bare_callRelease ..
  have marked : w.Cleared [] [.array a]
      { w.markReleased a with engine := w.engine.without [r.handle] } := by
    refine { Cleared.refl w with arrays := ?_, engine := ?_ }
    · intro b
      refine (array?_markReleased w a b).trans ?_
      by_cases hab : a = b
      · subst hab
        simp [ReleaseMark.begin]
      · simp [hab, Ne.symm hab]
    · simp [World.memory?, hw]
  exact marked.of_bare hv

/-- The release of a hook clears it. -/
theorem cleared_takeHook (w : World) (g : HookId) : w.Cleared [] [.hook g] (w.takeHook g) := by
  refine { Cleared.refl w with hooks := ?_, engine := ?_ }
  · intro k
    rw [hook?_takeHook]
    by_cases hgk : g = k
    · simp [hgk]
    · simp [hgk, Ne.symm hgk]
  · exact w.engine.without_nil.symm

/-! ### The close of one manager -/

theorem bare_endCascade (w : World) (m : ManagerId) (failures : ReleaseFailures) :
    (w.endCascade m failures).1.bare = (w.finishClose m).bare := by
  unfold endCascade
  split <;> rfl

theorem manager?_unlink (w : World) (m : ManagerId) (o : Owner) (n : ManagerId) :
    (w.unlink m o).manager? n =
      (w.manager? n).map fun q => if o = .parent n then q.without [m] else q := by
  cases o with
  | registry =>
      have hmanagers : (w.unlink m .registry).managers = w.managers := by
        simp only [unlink]
        split <;> rfl
      simp [manager?, hmanagers]
  | parent p =>
      rw [unlink, manager?_modifyManager]
      by_cases hp : p = n
      · subst hp
        simp [Manager.without]
      · simp [hp]

theorem roots_unlink (w : World) (m : ManagerId) (o : Owner) :
    (w.unlink m o).roots = if o = .registry then w.roots.erase m else w.roots := by
  cases o with
  | parent p => simp [unlink, modifyManager]
  | registry =>
      rw [if_pos rfl, unlink]
      by_cases hm : w.roots.contains m
      · rw [if_pos hm]
        rfl
      · rw [if_neg hm, List.erase_of_not_mem (by simpa using hm)]

/-- The end of a close concerns the managers, the registry and the record only. -/
theorem exists_finishClose_eq (w : World) (m : ManagerId) :
    ∃ managers roots journal, w.finishClose m = { w with managers, roots, journal } := by
  unfold finishClose
  split
  · exact ⟨w.managers, w.roots, w.journal, rfl⟩
  · rename_i r _
    cases r.owner with
    | parent p => exact ⟨_, w.roots, w.journal, rfl⟩
    | registry =>
        simp only [unlink]
        split <;> exact ⟨_, _, _, rfl⟩

/-- The end of a close, place by place. -/
theorem manager?_finishClose {m : ManagerId} {r : Manager} (hr : w.manager? m = some r)
    (n : ManagerId) :
    (w.finishClose m).manager? n = (w.manager? n).map fun q =>
      if m = n then { q with lifecycle := .closed }
      else if r.owner = .parent n then q.without [m] else q := by
  simp only [finishClose, hr]
  rw [manager?_unlink, manager?_modifyManager]
  by_cases hmn : m = n
  · subst hmn
    rw [if_pos rfl, Option.map_map]
    refine congrFun (congrArg Option.map (funext fun q => ?_)) _
    simp only [Function.comp_apply, if_true]
    split
    · exact Manager.without_of_not_open rfl _
    · rfl
  · simp only [if_neg hmn]

theorem ofOwner_cons {m : ManagerId} {r : Manager} (hr : w.manager? m = some r) (o : Owner)
    (ms : List ManagerId) :
    w.ofOwner o (m :: ms) = if r.owner = o then m :: w.ofOwner o ms else w.ofOwner o ms := by
  by_cases ho : r.owner = o
  · simp [World.ofOwner, hr, ho]
  · simp [World.ofOwner, hr, ho]

/-- A manager that closes has no list any more that a child could take itself off. -/
theorem Cleared.manager?_of_not_open (h : w.Cleared ms xs v) {m : ManagerId} {r : Manager}
    (hr : w.manager? m = some r) (hm : m ∉ ms) (ho : r.isOpen = false) :
    v.manager? m = some r := by
  rw [h.managers, hr, Option.map_some, if_neg hm, Manager.without_of_not_open ho]

/-- A manager that is not closed has the same resources, and those of its children that are not
closed either. -/
theorem Cleared.openManager (h : w.Cleared ms xs v) {m : ManagerId} {r : Manager}
    (hr : w.openManager m = .ok r) (hm : m ∉ ms) :
    v.openManager m = .ok { r with children := r.children.diff (w.ofOwner (.parent m) ms) } := by
  obtain ⟨hw, ho⟩ := openManager_eq_ok.mp hr
  have hopen : r.isOpen = true := by simp [Manager.isOpen, ho]
  refine openManager_eq_ok.mpr ⟨?_, ho⟩
  rw [h.managers, hw, Option.map_some, if_neg hm, Manager.without, if_pos hopen]

theorem ofOwner_beginClose (w : World) (m : ManagerId) (r : Manager) (k : ThreadId) (o : Owner)
    (ms : List ManagerId) : (w.beginClose m r k).1.ofOwner o ms = w.ofOwner o ms := by
  refine List.filter_congr fun n _ => ?_
  rw [manager?_beginClose]
  by_cases hmn : m = n
  · rw [if_pos hmn]
    cases w.manager? n <;> rfl
  · rw [if_neg hmn]

section Close

variable {m : ManagerId} {r : Manager} {k : ThreadId} (hm : w.openManager m = .ok r)
  (h : (w.beginClose m r k).1.Cleared ms xs v)

include hm h

theorem Cleared.manager?_closing (hms : m ∉ ms) :
    v.manager? m = some { r with lifecycle := .closing k, resources := {}, children := [] } := by
  have hu : (w.beginClose m r k).1.manager? m =
      some { r with lifecycle := .closing k, resources := {}, children := [] } := by
    rw [manager?_beginClose, if_pos rfl, (openManager_eq_ok.mp hm).1]
    rfl
  exact h.manager?_of_not_open hu hms rfl

omit hm in
theorem Cleared.manager?_beside {n : ManagerId} (hmn : m ≠ n) :
    v.manager? n = (w.manager? n).map fun q =>
      if n ∈ ms then q.shut else q.without (w.ofOwner (.parent n) ms) := by
  rw [h.managers, manager?_beginClose, if_neg hmn, ofOwner_beginClose]

theorem Cleared.manager?_close (hms : m ∉ ms) (n : ManagerId) :
    (v.finishClose m).manager? n = (w.manager? n).map fun q =>
      if n ∈ m :: ms then q.shut else q.without (w.ofOwner (.parent n) (m :: ms)) := by
  have hr := (openManager_eq_ok.mp hm).1
  have hv := h.manager?_closing hm hms
  rw [manager?_finishClose hv]
  by_cases hmn : m = n
  · subst hmn
    simp [hv, hr, Manager.shut]
  · rw [h.manager?_beside hmn, Option.map_map]
    refine congrFun (congrArg Option.map (funext fun q => ?_)) _
    simp only [Function.comp_apply, if_neg hmn, ofOwner_cons hr, List.mem_cons, Ne.symm hmn,
      false_or]
    by_cases hn : n ∈ ms
    · simp only [hn, if_true]
      split
      · exact Manager.without_of_not_open rfl _
      · rfl
    · simp only [hn, if_false]
      split
      · rw [Manager.without_without]
        exact Manager.without_perm _ List.perm_append_comm
      · rfl

theorem Cleared.roots_close (hms : m ∉ ms) :
    (v.finishClose m).roots = w.roots.diff (w.ofOwner .registry (m :: ms)) := by
  have roots : v.roots = w.roots.diff (w.ofOwner .registry ms) := by
    rw [h.roots, ofOwner_beginClose]
    rfl
  simp only [finishClose, h.manager?_closing hm hms]
  rw [roots_unlink, ofOwner_cons (openManager_eq_ok.mp hm).1]
  split
  · rw [List.diff_cons_right, ← roots]
    rfl
  · exact roots

/-- **A close clears its manager and what the cascade of it has cleared.** -/
theorem Cleared.close (hms : m ∉ ms) (failures : ReleaseFailures) :
    w.Cleared (m :: ms) xs (v.endCascade m failures).1 := by
  have managers := h.manager?_close hm hms
  have roots := h.roots_close hm hms
  obtain ⟨_, _, _, hfinish⟩ := v.exists_finishClose_eq m
  have hbare := bare_endCascade v m failures
  rw [hfinish] at managers roots hbare
  exact Cleared.of_bare ⟨managers, h.arrays, h.hooks, roots, h.engine, h.config, h.registered,
    h.shutdowns, h.client, h.threads⟩ hbare

end Close

end Cleared

end World

end ArrayLifetimes
