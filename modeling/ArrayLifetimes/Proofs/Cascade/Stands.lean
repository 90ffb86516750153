/-
A world in which a tree of holdings stands.

Every manager of the tree is open and has what the tree says, or it has been closed and
then nothing below it is left.  A child may have been closed on its own: then its parent has
it no longer among its children.  So the same tree stands before a close of one of its
managers and after it, and what changes is only which of its managers are open and which of
its leaves are not released.
-/
import ArrayLifetimes.Proofs.Cascade.Cleared
import ArrayLifetimes.Proofs.Cascade.Holding
import Mathlib.Data.List.Flatten
import Mathlib.Data.List.Perm.Subperm

namespace ArrayLifetimes

/-! ### How a release ends -/

/-- The answer of the engine to the release of an array. -/
def Engine.answer (e : Engine) (x : Handle) : Except EngineFault Unit :=
  ((e.hear (.release x)).release x).2

theorem Engine.answer_foreign {e : Engine} {f : Foreign} (h : e.kind = .foreign f) (x : Handle) :
    e.answer x = f.release (.release x :: e.calls) := by
  have he : (e.hear (.release x)).kind = .foreign f := h
  simp only [answer, release, he]
  rfl

/-- On the host the release of one array does not depend on that of others. -/
theorem Engine.answer_hosted {e g : Engine} {xs : List Handle} (h : g.bare = e.without xs)
    (hosted : ∀ f, e.kind ≠ .foreign f) {x : Handle} (hx : x ∉ xs) : g.answer x = e.answer x := by
  have hkind : (g.hear (.release x)).kind = e.kind := by
    show g.bare.kind = (e.without xs).kind
    rw [h]
  have hpanic : (g.hear (.release x)).duePanic x = (e.hear (.release x)).duePanic x := by
    show g.bare.duePanic x = (e.without xs).duePanic x
    rw [h]
  have hfails : (g.hear (.release x)).failsAt x = (e.hear (.release x)).failsAt x := by
    show g.bare.failsAt x = (e.without xs).failsAt x
    rw [h]
  have hget : (g.hear (.release x)).host.buffers.get? x =
      (e.hear (.release x)).host.buffers.get? x := by
    have hxs : x ∉ xs.filter e.frees := fun hmem => hx (List.mem_filter.mp hmem).1
    show g.bare.host.buffers.get? x = e.host.buffers.get? x
    rw [h]
    simp only [Engine.without, Keyed.get?, Engine.find_filter_not_mem, if_neg hxs]
  have releaseHosted : ((g.hear (.release x)).releaseHosted x).2 =
      ((e.hear (.release x)).releaseHosted x).2 := by
    unfold Engine.releaseHosted
    rw [hpanic]
    split
    · rfl
    · rw [hfails]
      split
      · rfl
      · simp only [Host.release, hget]
        cases (e.hear (.release x)).host.buffers.get? x <;> rfl
  unfold Engine.answer Engine.release
  rw [hkind]
  cases hc : e.kind with
  | foreign f => exact absurd hc (hosted f)
  | host | recording | bare | lying =>
      have he : (e.hear (.release x)).kind = e.kind := rfl
      rw [he, hc]
      exact releaseHosted

namespace World

/-- How the release of a leaf ends. -/
def outcomeOf (w : World) : Resource → Outcome
  | .array a => (w.releaseArray a).2
  | .hook h =>
    match w.hook? h with
    | some ⟨_, some work⟩ => work.ending.outcome
    | _ => .ok
  | .manager _ => .ok

/-- What is reported of the release of a leaf, if it fails: the key that the leaf has, and the code
and text of its error. -/
def failure? (w : World) (e : Label × Resource) : Option ReleaseFailure :=
  (w.outcomeOf e.2).error?.map fun error => ⟨e.1, error.code, error.phrase⟩

theorem outcomeOf_array (w : World) (a : ArrayId) :
    w.outcomeOf (.array a) = match w.array? a with
      | none => .ok
      | some r => if r.released then .ok else .ofEngine (w.engine.answer r.handle) := by
  show (w.releaseArray a).2 = _
  cases hr : w.array? a with
  | none => simp only [releaseArray, hr]
  | some r =>
      cases hm : r.mark.isSet with
      | true => simp [releaseArray, hr, ReleaseMark.begin, ArrayRecord.released, hm]
      | false =>
          have answer : ∀ u : World, (u.callRelease .managers r.handle).2 =
              u.engine.answer r.handle := by
            intro u
            simp only [callRelease]
            split <;> rename_i he <;> exact (congrArg Prod.snd he).symm
          simp only [releaseArray, hr, ReleaseMark.begin, hm, Bool.not_false, if_true,
            ArrayRecord.released, answer]
          rfl

theorem outcomeOf_of_released {w : World} {x : Resource} (h : w.isReleased x = true) :
    w.outcomeOf x = .ok := by
  cases x with
  | array a =>
      obtain ⟨r, hr, hrel⟩ := (Option.any_eq_true ..).mp h
      simp only [outcomeOf_array, hr, hrel, if_true]
  | manager m => rfl
  | hook g =>
      obtain ⟨r, hr, hnone⟩ := (Option.any_eq_true ..).mp h
      obtain ⟨label, work⟩ := r
      cases work with
      | none => simp only [outcomeOf, hr]
      | some work => cases hnone

theorem failure?_of_released {w : World} {e : Label × Resource} (h : w.isReleased e.2 = true) :
    w.failure? e = none := by
  rw [failure?, outcomeOf_of_released h]
  rfl

/-- The entries for the leaves of a tree that are not released yet and whose release fails. -/
def failures (w : World) (t : Holding) : ReleaseFailures :=
  (t.leaves.filter fun e => !w.isReleased e.2).filterMap w.failure?

/-- What is released has no entry anyway. -/
theorem failures_eq (w : World) (t : Holding) : w.failures t = t.leaves.filterMap w.failure? := by
  rw [failures, List.filterMap_filter]
  refine List.filterMap_congr fun e _ => ?_
  cases hreleased : w.isReleased e.2 with
  | true => simp [failure?_of_released hreleased]
  | false => simp

/-! ### What the engine is asked for -/

/-- The calls by which managers ask for the releases of arrays, the latest first. -/
def requests (w : World) (xs : List Resource) : List EngineCall :=
  ((xs.filterMap w.memory?).map .release).reverse

/-- Between two worlds, managers have asked for the releases of these leaves, in this order, and
nobody has asked the engine for anything else. -/
structure Asks (w : World) (xs : List Resource) (v : World) : Prop where
  core : v.coreCalls = w.requests xs ++ w.coreCalls
  engine : v.engine.calls = w.requests xs ++ w.engine.calls

/-- How the release of one of the leaves ends does not depend on which others were released
before.  On the host this is so; of a foreign engine it has to be assumed. -/
def Settled (w : World) (xs : List Resource) : Prop :=
  ∀ f, w.engine.kind = .foreign f → ∀ a earlier, (.array a :: earlier).Subperm xs →
    f.release (w.requests (earlier ++ [.array a]) ++ w.engine.calls) =
      f.release (w.requests [.array a] ++ w.engine.calls)

section Requests

variable {w u v : World} {ms : List ManagerId} {xs ys zs : List Resource}

theorem requests_append (w : World) (xs ys : List Resource) :
    w.requests (xs ++ ys) = w.requests ys ++ w.requests xs := by
  simp [requests]

theorem requests_array {a : ArrayId} {r : ArrayRecord} (hr : w.array? a = some r) :
    w.requests [.array a] = [.release r.handle] := by
  simp [requests, memory?, hr]

theorem Cleared.requests (h : w.Cleared ms xs v) (ys : List Resource) :
    v.requests ys = w.requests ys := by
  have hys : ys.filterMap v.memory? = ys.filterMap w.memory? :=
    List.filterMap_congr fun y _ => h.memory? y
  rw [World.requests, World.requests, hys]

theorem Asks.refl (w : World) : w.Asks [] w where
  core := rfl
  engine := rfl

theorem Asks.trans (h : w.Asks xs u) (h' : u.Asks ys v)
    (same : u.requests ys = w.requests ys) : w.Asks (xs ++ ys) v where
  core := by
    rw [h'.core, same, h.core, requests_append, List.append_assoc]
  engine := by
    rw [h'.engine, same, h.engine, requests_append, List.append_assoc]

theorem Settled.mono (h : w.Settled ys) (hxs : xs.Subperm ys) : w.Settled xs :=
  fun f hf a earlier ha => h f hf a earlier (ha.trans hxs)

/-- What is left when some of the leaves have been released. -/
theorem Settled.after (hs : w.Settled (xs ++ ys)) (h : w.Cleared ms xs v) (ha : w.Asks zs v)
    (hz : zs.Perm xs) : v.Settled ys := by
  intro f hf a earlier hsub
  have later : ∀ done, (.array a :: done).Subperm ys →
      f.release (v.requests (done ++ [.array a]) ++ v.engine.calls) =
        f.release (w.requests [.array a] ++ w.engine.calls) := by
    intro done hdone
    have hmoved : (Resource.array a :: (zs ++ done)).Perm (zs ++ (.array a :: done)) :=
      List.perm_middle.symm
    have hall : (Resource.array a :: (zs ++ done)).Subperm (xs ++ ys) :=
      hmoved.subperm.trans (hz.subperm.append hdone)
    have h' := hs f (h.kind ▸ hf) a (zs ++ done) hall
    rw [List.append_assoc, requests_append, List.append_assoc] at h'
    rw [h.requests, ha.engine]
    exact h'
  have hfirst : [Resource.array a].Subperm ys :=
    List.singleton_subperm_iff.mpr (hsub.subset (List.mem_cons_self ..))
  exact (later earlier hsub).trans (later [] hfirst).symm

/-- What the engine answers to one release does not change when others have been released. -/
theorem Cleared.answer (h : w.Cleared ms xs v) (hw : w.Apart) (ha : w.Asks zs v)
    (hz : zs.Perm xs) (hs : w.Settled (xs ++ ys)) {a : ArrayId} (hx : .array a ∉ xs)
    (hy : .array a ∈ ys) {r : ArrayRecord} (hr : w.array? a = some r) :
    v.engine.answer r.handle = w.engine.answer r.handle := by
  by_cases hosted : ∀ f, w.engine.kind ≠ .foreign f
  · have hdisjoint : ∀ y ∈ [Resource.array a].filterMap w.memory?, y ∉ xs.filterMap w.memory? :=
      hw.handles hosted (by simpa using hx)
    exact Engine.answer_hosted h.engine hosted (hdisjoint _ (by simp [World.memory?, hr]))
  · obtain ⟨f, hf⟩ := not_forall.mp hosted
    have hk : w.engine.kind = .foreign f := not_not.mp hf
    have hall : (Resource.array a :: zs).Subperm (xs ++ ys) :=
      (List.perm_append_singleton _ zs).symm.subperm.trans
        (hz.subperm.append (List.singleton_subperm_iff.mpr hy))
    have hanswer := hs f hk a zs hall
    rw [requests_append, requests_array hr, List.append_assoc] at hanswer
    rw [Engine.answer_foreign (h.kind.trans hk), Engine.answer_foreign hk, ha.engine]
    exact hanswer

/-- What one leaf is reported with does not change when others are released. -/
theorem Cleared.outcomeOf (h : w.Cleared ms xs v) (hw : w.Apart) (ha : w.Asks zs v)
    (hz : zs.Perm xs) (hs : w.Settled (xs ++ ys)) {x : Resource} (hx : x ∉ xs)
    (hy : w.isReleased x = false → x ∈ ys) : v.outcomeOf x = w.outcomeOf x := by
  cases x with
  | array a =>
      have harray : v.array? a = w.array? a := by
        simp [h.arrays, hx]
      rw [outcomeOf_array, outcomeOf_array, harray]
      cases hr : w.array? a with
      | none => rfl
      | some r =>
          cases hreleased : r.released with
          | true => simp only [hreleased, if_true]
          | false =>
              have hpending : w.isReleased (.array a) = false := by
                simpa [World.isReleased, hr] using hreleased
              simp only [hreleased, h.answer hw ha hz hs hx (hy hpending) hr]
  | manager m => rfl
  | hook g =>
      have hhook : v.hook? g = w.hook? g := by
        simp [h.hooks, hx]
      simp only [World.outcomeOf, hhook]

theorem Cleared.failure? (h : w.Cleared ms xs v) (hw : w.Apart) (ha : w.Asks zs v)
    (hz : zs.Perm xs) (hs : w.Settled (xs ++ ys)) {e : Label × Resource} (hx : e.2 ∉ xs)
    (hy : w.isReleased e.2 = false → e.2 ∈ ys) : v.failure? e = w.failure? e := by
  rw [World.failure?, World.failure?, h.outcomeOf hw ha hz hs hx hy]

end Requests

/-! ### The tree in the world -/

/-- One part of a tree is in the world as the tree says. -/
inductive Fits (w : World) : Holding → Prop
  | array (key : Label) (a : ArrayId) (h : w.Has (.array a)) : Fits w (.leaf key (.array a))
  /-- A release hook runs no commands. -/
  | hook (key : Label) (h : HookId) (r : Hook) (hr : w.hook? h = some r)
      (quiet : ∀ work, r.work = some work → work.commands = []) : Fits w (.leaf key (.hook h))
  /-- An open manager has its resources, and all of its children that are not closed. -/
  | opened (key : Label) (m : ManagerId) (r : Manager) {children resources kept : List Holding}
      (hr : w.openManager m = .ok r) (hk : kept.Sublist children)
      (hc : r.children.map some = kept.map Holding.id?)
      (gone : ∀ c ∈ children, c ∈ kept ∨ w.isReleased c.resource = true)
      (hx : r.resources.entries = resources.map fun t => (t.key, t.resource)) :
      Fits w (.manager key m children resources)
  /-- What a closed manager had is released. -/
  | closed (key : Label) (m : ManagerId) {children resources : List Holding}
      (h : w.isReleased (.manager m) = true)
      (below : ∀ t ∈ children ++ resources, w.isReleased t.resource = true) :
      Fits w (.manager key m children resources)

/-- The tree stands: each manager and each leaf is at one place in it only. -/
structure Stands (w : World) (t : Holding) : Prop where
  fits : ∀ s ∈ t.parts, w.Fits s
  ids : t.ids.Nodup
  leaves : (t.leaves.map Prod.snd).Nodup

/-- The managers of a tree that are open. -/
def opens (w : World) (t : Holding) : List ManagerId :=
  t.ids.filter fun m => !w.isReleased (.manager m)

/-- The leaves of a tree that are not released. -/
def pending (w : World) (t : Holding) : List Resource :=
  (t.leaves.map Prod.snd).filter fun x => !w.isReleased x

section Stands

variable {w v : World} {t : Holding}

theorem Stands.part (h : w.Stands t) {s : Holding} (hs : s ∈ t.parts) : w.Stands s where
  fits u hu := h.fits u ((Holding.parts_sublist hs).subset hu)
  ids := h.ids.sublist (Holding.ids_sublist hs)
  leaves := h.leaves.sublist ((Holding.leaves_sublist hs).map _)

theorem Stands.of_mem {key : Label} {m : ManagerId} {children resources : List Holding}
    (h : w.Stands (.manager key m children resources)) {s : Holding}
    (hs : s ∈ children ++ resources) : w.Stands s :=
  h.part ((Holding.parts_sublist_of_mem hs).subset s.mem_parts_self)

section Manager

variable {key : Label} {m : ManagerId} {children resources : List Holding}
  (h : w.Stands (.manager key m children resources))

include h

theorem Stands.not_mem_ids {s : Holding} (hs : s ∈ children ++ resources) : m ∉ s.ids := by
  have hids := h.ids
  rw [Holding.ids_manager, List.nodup_cons] at hids
  exact fun hm => hids.1 (List.mem_flatMap.mpr ⟨s, hs, hm⟩)

theorem Stands.nodup_ids : ((children ++ resources).flatMap Holding.ids).Nodup := by
  have hids := h.ids
  rw [Holding.ids_manager, List.nodup_cons] at hids
  exact hids.2

theorem Stands.nodup_children_ids : (children.flatMap Holding.ids).Nodup := by
  have hids := h.nodup_ids
  rw [List.flatMap_append] at hids
  exact hids.of_append_left

theorem Stands.nodup_leaves :
    (((children ++ resources).flatMap Holding.leaves).map Prod.snd).Nodup := by
  have hleaves := h.leaves
  rwa [Holding.leaves_manager] at hleaves

end Manager

theorem Fits.has (h : w.Fits t) : w.Has t.resource := by
  cases h with
  | array key a ha => exact ha
  | hook key g r hr quiet => exact (Array.getElem?_eq_some_iff.mp hr).1
  | opened key m r hr hk hc gone hx => exact has_manager_of (openManager_eq_ok.mp hr).1
  | closed key m hm below =>
      obtain ⟨r, hr, -⟩ := (Option.any_eq_true ..).mp hm
      exact has_manager_of hr

theorem Fits.leaf_ne (h : w.Fits t) {key : Label} {x : Resource} (ht : t = .leaf key x)
    (m : ManagerId) : x ≠ .manager m := by
  cases h with
  | array key a ha =>
      cases ht
      nofun
  | hook key g r hr quiet =>
      cases ht
      nofun
  | opened key m r hr hk hc gone hx => cases ht
  | closed key m hm below => cases ht

theorem Stands.has_manager (h : w.Stands t) {m : ManagerId} (hm : m ∈ t.ids) :
    w.Has (.manager m) := by
  obtain ⟨key, children, resources, hs⟩ := Holding.mem_ids.mp hm
  exact (h.fits _ hs).has

theorem Stands.has_leaf (h : w.Stands t) {e : Label × Resource} (he : e ∈ t.leaves) :
    w.Has e.2 := (h.fits _ (Holding.mem_leaves.mp he)).has

theorem Stands.leaf_ne (h : w.Stands t) {e : Label × Resource} (he : e ∈ t.leaves)
    (m : ManagerId) : e.2 ≠ .manager m :=
  (h.fits _ (Holding.mem_leaves.mp he)).leaf_ne rfl m

/-- Nothing is left below what is released. -/
theorem Stands.released (h : w.Stands t) (ht : w.isReleased t.resource = true) :
    (∀ m ∈ t.ids, w.isReleased (.manager m) = true) ∧
      ∀ e ∈ t.leaves, w.isReleased e.2 = true := by
  induction t with
  | leaf key x =>
      refine ⟨?_, ?_⟩
      · intro m hm
        cases hm
      intro e he
      rw [Holding.leaves_leaf, List.mem_singleton] at he
      rw [he]
      exact ht
  | manager key m children resources ih =>
      have below : ∀ u ∈ children ++ resources, w.isReleased u.resource = true := by
        cases h.fits _ (Holding.mem_parts_self _) with
        | opened _ _ r hr hk hc gone hx =>
            obtain ⟨hm, ho⟩ := openManager_eq_ok.mp hr
            have hclosed := isReleased_manager.mp ht
            rw [lifecycle?, hm, Option.map_some, ho] at hclosed
            cases hclosed
        | closed _ _ hm below => exact below
      refine ⟨?_, ?_⟩
      · intro n hn
        rw [Holding.ids_manager, List.mem_cons, List.mem_flatMap] at hn
        rcases hn with rfl | ⟨u, hu, hn⟩
        · exact ht
        · exact (ih u hu (h.of_mem hu) (below u hu)).1 n hn
      · intro e he
        rw [Holding.leaves_manager, List.mem_flatMap] at he
        obtain ⟨u, hu, he⟩ := he
        exact (ih u hu (h.of_mem hu) (below u hu)).2 e he

theorem opens_eq_nil (h : w.Stands t) (ht : w.isReleased t.resource = true) :
    w.opens t = [] := by
  refine List.filter_eq_nil_iff.mpr fun m hm => ?_
  rw [(h.released ht).1 m hm]
  nofun

theorem pending_eq_nil (h : w.Stands t) (ht : w.isReleased t.resource = true) :
    w.pending t = [] := by
  refine List.filter_eq_nil_iff.mpr fun x hx => ?_
  obtain ⟨e, he, rfl⟩ := List.mem_map.mp hx
  rw [(h.released ht).2 e he]
  nofun

/-- Children that a manager does not keep are closed. -/
theorem released_of_missing {children kept missing : List Holding} {ms : List ManagerId}
    (hids : (children.flatMap Holding.ids).Nodup) (hp : children.Perm (kept ++ missing))
    (hc : ms.map some = kept.map Holding.id?)
    (gone : ∀ c ∈ children, c ∈ kept ∨ w.isReleased c.resource = true) :
    ∀ c ∈ missing, w.isReleased c.resource = true := by
  intro c hmissing
  refine (gone c (hp.mem_iff.mpr (List.mem_append_right _ hmissing))).resolve_left ?_
  intro hkept
  obtain ⟨m, -, hm⟩ := List.mem_map.mp (hc ▸ List.mem_map_of_mem (f := Holding.id?) hkept)
  have hmc := Holding.mem_ids_of_id? hm.symm
  have hboth := (hp.flatMap_right Holding.ids).nodup_iff.mp hids
  rw [List.flatMap_append, List.nodup_append] at hboth
  exact hboth.2.2 m (List.mem_flatMap.mpr ⟨c, hkept, hmc⟩) m
    (List.mem_flatMap.mpr ⟨c, hmissing, hmc⟩) rfl

theorem opens_manager (w : World) (key : Label) (m : ManagerId)
    (children resources : List Holding) :
    w.opens (.manager key m children resources) =
      [m].filter (fun m => !w.isReleased (.manager m)) ++
        (children ++ resources).flatMap w.opens := by
  rw [World.opens, Holding.ids_manager, ← List.singleton_append, List.filter_append,
    List.filter_flatMap]
  rfl

theorem pending_manager (w : World) (key : Label) (m : ManagerId)
    (children resources : List Holding) :
    w.pending (.manager key m children resources) =
      (children ++ resources).flatMap w.pending := by
  rw [World.pending, Holding.leaves_manager, List.map_flatMap, List.filter_flatMap]
  rfl

/-! ### What a cascade elsewhere does to it -/

theorem Cleared.opens {ms : List ManagerId} {xs : List Resource} (h : w.Cleared ms xs v)
    (ht : w.Stands t) : v.opens t = (w.opens t).filter fun m => m ∉ ms := by
  rw [World.opens, World.opens, List.filter_filter]
  refine List.filter_congr fun m hm => ?_
  rw [h.isReleased_manager (ht.has_manager hm)]
  simp [Bool.and_comm]

theorem Cleared.pending {ms : List ManagerId} {xs : List Resource} (h : w.Cleared ms xs v)
    (ht : w.Stands t) : v.pending t = (w.pending t).filter fun x => x ∉ xs := by
  rw [World.pending, World.pending, List.filter_filter]
  refine List.filter_congr fun x hx => ?_
  obtain ⟨e, he, rfl⟩ := List.mem_map.mp hx
  rw [h.isReleased (ht.has_leaf he) (ht.leaf_ne he)]
  simp [Bool.and_comm]

theorem Cleared.released_mono {ms : List ManagerId} {xs : List Resource} (h : w.Cleared ms xs v)
    {x : Resource} (hw : w.Has x) (hx : w.isReleased x = true) : v.isReleased x = true := by
  cases x with
  | manager m => rw [h.isReleased_manager hw, hx, Bool.true_or]
  | array a => rw [h.isReleased hw (by simp), hx, Bool.true_or]
  | hook g => rw [h.isReleased hw (by simp), hx, Bool.true_or]

/-- The children of a manager are among the managers of the tree, each once. -/
theorem nodup_children {children kept : List Holding} {ms : List ManagerId}
    (hids : (children.flatMap Holding.ids).Nodup) (hk : kept.Sublist children)
    (hc : ms.map some = kept.map Holding.id?) : ms.Nodup := by
  have hsub : ms.Sublist (kept.flatMap Holding.ids) := by
    clear hids hk
    induction kept generalizing ms with
    | nil =>
        rw [List.map_nil, List.map_eq_nil_iff] at hc
        rw [hc]
        exact List.nil_sublist _
    | cons c kept ih =>
        cases ms with
        | nil => exact List.nil_sublist _
        | cons m ms =>
            rw [List.map_cons, List.map_cons, List.cons.injEq] at hc
            obtain ⟨hm, hc⟩ := hc
            have hmem : m ∈ c.ids := Holding.mem_ids_of_id? hm.symm
            exact (List.singleton_sublist.mpr hmem).append (ih hc)
  exact hids.sublist (hsub.trans (hk.flatMap _))

/-- Children that are closed have taken themselves off the list of their parent, and the others
are kept. -/
theorem exists_kept {children kept : List Holding} {ms : List ManagerId} (ns : List ManagerId)
    (hms : ms.Nodup) (hk : kept.Sublist children) (hc : ms.map some = kept.map Holding.id?) :
    ∃ kept' : List Holding, kept'.Sublist children ∧ (ms.diff ns).map some = kept'.map Holding.id? ∧
      ∀ c ∈ kept, c ∈ kept' ∨ ∃ m ∈ ns, c.id? = some m := by
  let stays : Option ManagerId → Bool := fun m? => m?.all fun m => m ∉ ns
  refine ⟨kept.filter fun c => stays c.id?, List.filter_sublist.trans hk, ?_, ?_⟩
  · have hfilter : (ms.diff ns).map some = (ms.map some).filter stays := by
      rw [hms.sdiff_eq_filter, List.filter_map]
      rfl
    rw [hfilter, hc, List.filter_map]
    rfl
  · intro c hck
    by_cases hs : stays c.id? = true
    · exact Or.inl (List.mem_filter.mpr ⟨hck, hs⟩)
    · obtain ⟨m, -, hm⟩ := List.mem_map.mp (hc ▸ List.mem_map_of_mem (f := Holding.id?) hck)
      rw [← hm] at hs
      have hns : m ∈ ns := by simpa [stays] using hs
      exact Or.inr ⟨m, hns, hm.symm⟩

/-- **The tree stands after a cascade that leaves nothing below the managers it closes.** -/
theorem Stands.cleared {ms : List ManagerId} {xs : List Resource} (ht : w.Stands t)
    (h : w.Cleared ms xs v)
    (down : ∀ key m children resources, .manager key m children resources ∈ t.parts → m ∈ ms →
      ∀ u ∈ children ++ resources, v.isReleased u.resource = true) : v.Stands t := by
  refine ⟨?_, ht.ids, ht.leaves⟩
  intro s hs
  have stillReleased : ∀ u ∈ t.parts, w.isReleased u.resource = true →
      v.isReleased u.resource = true := fun u hu => h.released_mono (ht.fits u hu).has
  have isPart : ∀ key m children resources, Holding.manager key m children resources ∈ t.parts →
      ∀ u ∈ children ++ resources, u ∈ t.parts := by
    intro key m children resources hp u hu
    exact (Holding.parts_sublist hp).subset
      ((Holding.parts_sublist_of_mem hu).subset u.mem_parts_self)
  cases ht.fits s hs with
  | array key a ha => exact .array key a (h.has ha)
  | hook key g r hr quiet =>
      have hv := h.hooks g
      rw [hr, Option.map_some] at hv
      by_cases hg : Resource.hook g ∈ xs
      · rw [if_pos hg] at hv
        exact .hook key g _ hv (by simp)
      · rw [if_neg hg] at hv
        exact .hook key g _ hv quiet
  | @closed key m children resources hm below =>
      refine .closed key m (h.released_mono (ht.fits _ hs).has hm) ?_
      intro u hu
      exact stillReleased u (isPart _ _ _ _ hs u hu) (below u hu)
  | @opened key m r children resources kept hr hk hc gone hx =>
      obtain ⟨hw, ho⟩ := openManager_eq_ok.mp hr
      by_cases hms : m ∈ ms
      · have hm : v.isReleased (.manager m) = true := by
          rw [h.isReleased_manager (has_manager_of hw)]
          simp [hms]
        exact .closed key m hm (down _ _ _ _ hs hms)
      · have hnodup := nodup_children (ht.part hs).nodup_children_ids hk hc
        obtain ⟨kept', hk', hc', hgone⟩ :=
          exists_kept (w.ofOwner (.parent m) ms) hnodup hk hc
        refine .opened key m _ (h.openManager hr hms) hk' hc' ?_ hx
        intro c hcc
        have hpart := isPart _ _ _ _ hs c (List.mem_append_left _ hcc)
        rcases gone c hcc with hck | hreleased
        · rcases hgone c hck with hck' | ⟨n, hn, hid⟩
          · exact Or.inl hck'
          · have hnms := (List.mem_filter.mp hn).1
            have hhas := (ht.fits c hpart).has
            rw [Holding.resource_of_id? hid] at hhas ⊢
            refine Or.inr ?_
            rw [h.isReleased_manager hhas]
            simp [hnms]
        · exact Or.inr (stillReleased c hpart hreleased)

/-! ### The begin of a close above it -/

section Begin

variable {m : ManagerId} {r : Manager} (k : ThreadId) (hm : w.openManager m = .ok r)

include hm

/-- A manager that begins to close is not released by that. -/
theorem isReleased_beginClose (x : Resource) :
    (w.beginClose m r k).1.isReleased x = w.isReleased x := by
  cases x with
  | array a => rfl
  | hook g => rfl
  | manager n =>
      obtain ⟨hr, ho⟩ := openManager_eq_ok.mp hm
      by_cases hmn : m = n
      · subst hmn
        simp [World.isReleased, manager?_beginClose, hr, ho, Manager.state, Lifecycle.state]
      · simp [World.isReleased, manager?_beginClose, hmn]

theorem opens_beginClose (t : Holding) : (w.beginClose m r k).1.opens t = w.opens t := by
  simp only [World.opens, isReleased_beginClose k hm]

theorem pending_beginClose (t : Holding) : (w.beginClose m r k).1.pending t = w.pending t := by
  simp only [World.pending, isReleased_beginClose k hm]

theorem Stands.beginClose (ht : w.Stands t) (hmt : m ∉ t.ids) :
    (w.beginClose m r k).1.Stands t := by
  refine ⟨?_, ht.ids, ht.leaves⟩
  intro s hs
  cases ht.fits s hs with
  | array key a ha => exact .array key a ha
  | hook key g q hq quiet => exact .hook key g q hq quiet
  | opened key n q hq hk hc gone hx =>
      have hmn : m ≠ n := by
        rintro rfl
        exact hmt (Holding.mem_ids.mpr ⟨_, _, _, hs⟩)
      have hopen : (w.beginClose m r k).1.openManager n = .ok q := by
        rw [openManager_eq_ok, manager?_beginClose, if_neg hmn]
        exact openManager_eq_ok.mp hq
      refine .opened key n q hopen hk hc ?_ hx
      intro c hcc
      rw [isReleased_beginClose k hm]
      exact gone c hcc
  | closed key n hn below =>
      refine .closed key n ?_ ?_
      · rw [isReleased_beginClose k hm]
        exact hn
      · intro u hu
        rw [isReleased_beginClose k hm]
        exact below u hu

omit hm in
theorem failure?_beginClose (w : World) (m : ManagerId) (r : Manager) (k : ThreadId)
    (e : Label × Resource) : (w.beginClose m r k).1.failure? e = w.failure? e := by
  have houtcome : (w.beginClose m r k).1.outcomeOf e.2 = w.outcomeOf e.2 := by
    cases e.2 with
    | array a =>
        rw [outcomeOf_array, outcomeOf_array]
        rfl
    | hook g => rfl
    | manager n => rfl
  rw [World.failure?, World.failure?, houtcome]

end Begin

/-! ### Work beside it -/

/-- What is done elsewhere makes no difference to the tree. -/
structure Alike (w v : World) (t : Holding) : Prop where
  stands : v.Stands t
  opens : v.opens t = w.opens t
  pending : v.pending t = w.pending t
  released : ∀ e ∈ t.leaves, v.isReleased e.2 = w.isReleased e.2

theorem Stands.alike_cleared {ms : List ManagerId} {xs : List Resource} (ht : w.Stands t)
    (h : w.Cleared ms xs v) (hm : ∀ m ∈ t.ids, m ∉ ms) (hx : ∀ e ∈ t.leaves, e.2 ∉ xs) :
    w.Alike v t where
  stands := ht.cleared h fun key m children resources hp hms =>
    absurd hms (hm m (Holding.mem_ids.mpr ⟨key, children, resources, hp⟩))
  opens := by
    rw [h.opens ht, List.filter_eq_self]
    intro m hmo
    simpa using hm m (List.mem_filter.mp hmo).1
  pending := by
    rw [h.pending ht, List.filter_eq_self]
    intro x hxp
    obtain ⟨e, he, rfl⟩ := List.mem_map.mp (List.mem_filter.mp hxp).1
    simpa using hx e he
  released e he := by
    rw [h.isReleased (ht.has_leaf he) (ht.leaf_ne he)]
    simp [hx e he]

section Beside

variable {ts : List Holding} (hleaves : (((t :: ts).flatMap Holding.leaves).map Prod.snd).Nodup)

include hleaves

/-- The leaves of the other trees are not those of the first. -/
theorem not_mem_pending_beside : ∀ s ∈ ts, ∀ e ∈ s.leaves, e.2 ∉ w.pending t := by
  rw [List.flatMap_cons, List.map_append, List.nodup_append] at hleaves
  intro s hs e he hep
  exact hleaves.2.2 _ (List.mem_filter.mp hep).1 _
    (List.mem_map_of_mem (List.mem_flatMap.mpr ⟨s, hs, he⟩)) rfl

/-- A tree that has been cleared leaves the trees beside it as they were. -/
theorem Cleared.alike_beside (h : w.Cleared (w.opens t) (w.pending t) v)
    (hts : ∀ s ∈ ts, w.Stands s) (hids : ((t :: ts).flatMap Holding.ids).Nodup) :
    ∀ s ∈ ts, w.Alike v s := by
  rw [List.flatMap_cons, List.nodup_append] at hids
  intro s hs
  refine (hts s hs).alike_cleared h ?_ (not_mem_pending_beside hleaves s hs)
  intro n hn hno
  exact hids.2.2 n (List.mem_filter.mp hno).1 n (List.mem_flatMap.mpr ⟨s, hs, hn⟩) rfl

end Beside

end Stands

end World

end ArrayLifetimes
