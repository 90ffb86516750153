/-
What a manager tracks does not get lost.

An operation of an open manager may take a resource away from it, but then the operation hands
the resource to its caller: `attach` returns what it has displaced, `detach` what it has taken
away, and `detachArray` is given the array in person.

There is a gap.  `attachArray` and `detachArray` use the identity of the array as the key, and a
client may have put something else under that key.  Then it is displaced or taken away all the
same, and nobody gets it.  `Dropped` describes the gap, and a session falls into it.

New arrays displace nothing, because a key that is the identity of an array is that of an array
that has been made already.  Every step keeps this.
-/
import ArrayLifetimes.Proofs.Machine.Custody
import ArrayLifetimes.Proofs.Machine.Feats
import ArrayLifetimes.Proofs.Machine.Replay

namespace ArrayLifetimes

/-- The engine runs no commands before it answers. -/
def Engine.Quiet (e : Engine) : Prop := e.dueAfterCreate = none ∧ e.dueAfterInvoke = none

namespace World

variable {w v u : World} {m : ManagerId} {x : Resource}

/-- The manager has the resource under some key. -/
def Tracks (w : World) (m : ManagerId) (x : Resource) : Prop :=
  ∃ r key, w.manager? m = some r ∧ r.resources.get? key = some x

theorem tracks_iff_any : w.Tracks m x ↔
    (w.manager? m).any (fun r => r.resources.keys.any fun key => r.resources.get? key == some x) =
      true := by
  simp only [Option.any_eq_true, List.any_eq_true, beq_iff_eq]
  constructor
  · rintro ⟨r, key, hr, hx⟩
    exact ⟨r, hr, key, Keyed.mem_keys_of_get? hx, hx⟩
  · rintro ⟨r, hr, key, -, hx⟩
    exact ⟨r, key, hr, hx⟩

instance (w : World) (m : ManagerId) (x : Resource) : Decidable (w.Tracks m x) :=
  decidable_of_iff _ tracks_iff_any.symm

theorem Tracks.of_eq (hm : v.managers = w.managers) (h : w.Tracks m x) : v.Tracks m x := by
  obtain ⟨r, key, hr, hx⟩ := h
  refine ⟨r, key, ?_, hx⟩
  simpa only [manager?, hm] using hr

/-- A change of a manager takes away nothing but what it takes from its key. -/
theorem Tracks.modifyManager (h : w.Tracks m x) (k : ManagerId) {f : Manager → Manager}
    (hf : ∀ r key, k = m → w.manager? m = some r → r.resources.get? key = some x →
      (f r).resources.get? key = some x) : (w.modifyManager k f).Tracks m x := by
  obtain ⟨r, key, hr, hx⟩ := h
  by_cases hkm : k = m
  · refine ⟨f r, key, ?_, hf r key hkm hr hx⟩
    rw [manager?_modifyManager, if_pos hkm, hr]
    rfl
  · refine ⟨r, key, ?_, hx⟩
    rw [manager?_modifyManager, if_neg hkm]
    exact hr

/-! ### Keys -/

/-- What is used as a key is the identity of an array that has been made. -/
def KeysMade (w : World) : Prop := ∀ a, w.IsKey a → w.Has (.array a)

theorem KeysMade.aside (hk : w.KeysMade) (h : w.Aside v) : v.KeysMade :=
  fun a ha => h.has _ (hk a (isKey_of_eq h.managers ha))

theorem KeysMade.still (hk : w.KeysMade) (h : w.Still v) : v.KeysMade := by
  intro a ha
  simp only [Has, h.arrays]
  exact hk a (h.keys a ha)

theorem KeysMade.modifyManager (hk : w.KeysMade) (k : ManagerId) {f : Manager → Manager}
    (hf : ∀ r a y, (f r).resources.get? (.array a) = some y →
      (∃ z, r.resources.get? (.array a) = some z) ∨ w.Has (.array a)) :
    (w.modifyManager k f).KeysMade := by
  rintro a ⟨n, r, y, hr, hy⟩
  show w.Has (.array a)
  rw [manager?_modifyManager] at hr
  split at hr
  · obtain ⟨q, hq, rfl⟩ := Option.map_eq_some_iff.mp hr
    rcases hf q a y hy with ⟨z, hz⟩ | ha
    · exact hk a ⟨n, q, z, hq, hz⟩
    · exact ha
  · exact hk a ⟨n, r, y, hr, hy⟩

/-- Something is put under a key of which the array, if it is one, has been made. -/
theorem KeysMade.insert (hk : w.KeysMade) (k : ManagerId) {key : Label}
    (hkey : ∀ a, key = .array a → w.Has (.array a)) (y : Resource) :
    (w.modifyManager k fun r => { r with resources := r.resources.insert key y }).KeysMade := by
  refine hk.modifyManager k fun r a z hz => ?_
  rw [Keyed.get?_insert] at hz
  split at hz
  · rename_i ha
    exact Or.inr (hkey a ha)
  · exact Or.inl ⟨z, hz⟩

theorem KeysMade.attach {key : Label} {y : Resource} {old : Option Resource} (hk : w.KeysMade)
    (hkey : ∀ a, key = .array a → w.Has (.array a)) (h : w.attach m key y = .ok (v, old)) :
    v.KeysMade := by
  obtain ⟨r, u, -, -, hu, rfl⟩ := attach_eq_ok h
  have hwu : w.Aside u := by
    rcases hu with rfl | rfl
    · exact .refl u
    · exact (told_note w _).aside
  exact (hk.aside hwu).insert m (fun a ha => hwu.has _ (hkey a ha)) y

theorem KeysMade.detach (hk : w.KeysMade) (m : ManagerId) (key : Label) :
    (w.detach m key).1.KeysMade := by
  rcases detach_cases w m key with h | ⟨r, y, -, -, h⟩ <;> rw [h]
  · exact hk
  · refine KeysMade.aside (hk.modifyManager m fun r a z hz => ?_) (told_note _ _).aside
    rw [Keyed.get?_erase] at hz
    split at hz
    · cases hz
    · exact Or.inl ⟨z, hz⟩

theorem KeysMade.fill (hk : w.KeysMade) (h : w.Fill v) : v.KeysMade := by
  cases h with
  | aside h => exact hk.aside h
  | @hold n m r h =>
      refine (hk.aside (aside_adopt w n)).insert m ?_ (.array (w.adopt n).2)
      intro a ha
      exact Label.array.inj ha ▸ has_adopt w n

theorem KeysMade.fills (hk : w.KeysMade) (h : w.Fills v) : v.KeysMade := by
  induction h with
  | refl => exact hk
  | tail _ h ih => exact ih.fill h

theorem KeysMade.deed {made : Option (Owner × ManagerId)}
    {parted : Option (ManagerId × ManagerId)} {attached : Option Resource} (hk : w.KeysMade)
    (h : w.Deed made parted attached v) : v.KeysMade := by
  cases h with
  | fills h => exact hk.fills h
  | base d hr h => exact (hk.still (still_newBase w d)).aside h
  | sub hu h => exact (hk.still (still_newSub hu)).aside h
  | attach hu hkey ha h => exact ((hk.aside hu).attach hkey ha).aside h
  | detach m key h => exact (hk.detach m key).aside h
  | detachSub p c h => exact (hk.still (still_detachSub w p c)).aside h
  | shutdown hr h => exact (hk.still (v := w.beginShutdown) (.of_eq rfl rfl rfl rfl)).aside h
  | dropRegistry h => exact (hk.still (still_dropRoots w false w.shutdowns)).aside h

/-- Every step keeps it. -/
theorem KeysMade.feat {t : Thread} (hk : w.KeysMade)
    (hc : ∀ m k, (m, k) ∈ t.cascades → w.lifecycle? m = some (.closing k)) (h : t.Feat w v) :
    v.KeysMade := by
  cases h with
  | deed h => exact hk.deed h
  | releasesArray a below task =>
      intro b hb
      have hm : (w.releaseArray a).1.managers = w.managers := by
        rcases releaseArray_eq_or_told w a with h | ⟨engine, journal, h⟩ <;> rw [h]
        rfl
      exact (steady_releaseArray w a).has _ (hk b (isKey_of_eq hm hb))
  | releasesHook g below task => exact hk.still (.of_eq rfl rfl rfl rfl)
  | begins m r below task isOpen =>
      refine (hk.modifyManager m fun r a y hy => ?_).aside (told_note _ _).aside
      cases hy
  | ends m failures below task =>
      have hm := hc m t.id (Machine.mem_cascades_of_sweep task)
      obtain ⟨r, hr, -⟩ := lifecycle?_eq_some.mp hm
      refine hk.still ((ended_endCascade (has_manager_of hr) failures).still ?_)
      rw [hm]
      simp
  | endsShutdown idle => exact hk.still (Thread.still_endShutdown w)

/-! ### What stays tracked -/

/-- New arrays displace nothing. -/
theorem Tracks.fills (hx : w.Tracks m x) (hk : w.KeysMade) (h : w.Fills v) : v.Tracks m x := by
  induction h with
  | refl => exact hx
  | @tail u v hu h ih =>
      cases h with
      | aside h => exact ih.of_eq h.managers
      | @hold n k r h =>
          refine (ih.of_eq (aside_adopt u n).managers).modifyManager k fun q key hkm hq hkey => ?_
          rw [Manager.holding, Keyed.get?_insert, if_neg ?_]
          · exact hkey
          · -- the key is the identity of an array that has been made before
            rintro rfl
            exact Nat.lt_irrefl _ (hk.fills hu _ ⟨m, q, x, hq, hkey⟩)

/-- What an attach displaces is its answer. -/
theorem Tracks.attach {k : ManagerId} {key : Label} {y : Resource} {old : Option Resource}
    (hx : w.Tracks m x) (h : w.attach k key y = .ok (v, old)) :
    v.Tracks m x ∨ k = m ∧ old = some x := by
  obtain ⟨q, u, hq, rfl, hu, rfl⟩ := attach_eq_ok h
  have hmu : u.managers = w.managers := by rcases hu with rfl | rfl <;> rfl
  by_cases hold : k = m ∧ q.resources.get? key = some x
  · exact Or.inr hold
  · refine Or.inl ((hx.of_eq hmu).modifyManager k fun r key' hkm hr hkey' => ?_)
    rw [Keyed.get?_insert, if_neg ?_]
    · exact hkey'
    · rintro rfl
      simp only [manager?, hmu] at hr
      obtain rfl : q = r := Option.some.inj ((openManager_eq_ok.mp (hkm ▸ hq)).1.symm.trans hr)
      exact hold ⟨hkm, hkey'⟩

theorem tracks_attached {key : Label} {old : Option Resource}
    (h : w.attach m key x = .ok (v, old)) : v.Tracks m x := by
  obtain ⟨r, u, hr, -, hu, rfl⟩ := attach_eq_ok h
  have hmu : u.manager? m = some r := by
    rcases hu with rfl | rfl <;> exact (openManager_eq_ok.mp hr).1
  refine ⟨{ r with resources := r.resources.insert key x }, key, ?_, ?_⟩
  · rw [manager?_modifyManager, if_pos rfl, hmu]
    rfl
  · rw [Keyed.get?_insert, if_pos rfl]

theorem get?_of_detach {key : Label} (h : (w.detach m key).2 = some x) :
    ∃ r, w.openManager m = .ok r ∧ r.resources.get? key = some x := by
  rcases detach_cases w m key with hd | ⟨r, y, hr, hy, hd⟩ <;> rw [hd] at h <;> cases h
  exact ⟨r, hr, hy⟩

/-- What a detach takes away is its answer. -/
theorem Tracks.detach (hx : w.Tracks m x) (k : ManagerId) (key : Label) :
    (w.detach k key).1.Tracks m x ∨ k = m ∧ (w.detach k key).2 = some x := by
  rcases detach_cases w k key with h | ⟨q, y, hq, hy, h⟩ <;> rw [h]
  · exact Or.inl hx
  · by_cases hold : k = m ∧ q.resources.get? key = some x
    · exact Or.inr ⟨hold.1, hy.symm.trans hold.2⟩
    · refine Or.inl ((hx.modifyManager k fun r key' hkm hr hkey' => ?_).of_eq rfl)
      rw [Keyed.get?_erase, if_neg ?_]
      · exact hkey'
      · rintro rfl
        obtain rfl : q = r := Option.some.inj ((openManager_eq_ok.mp (hkm ▸ hq)).1.symm.trans hr)
        exact hold ⟨hkm, hkey'⟩

/-! ### Operations of a manager -/

/-- The command is an operation of the manager that may change what it tracks, and does not close
it. -/
def Operates (w : World) (m : ManagerId) : Command → Prop
  | .attach manager _ _ _ | .attachArray manager _ | .detach manager _ _ | .detachArray manager _
  | .allocate manager _ _ _ | .invoke manager _ _ _ _ => w.managerNamed manager = .ok m
  | _ => False

/-- The caller of the operation gets the resource back; `v` is the world then. -/
inductive Returned (w v : World) (m : ManagerId) (x : Resource) : Command → Reply → Prop
  | attach {manager : Name} {k : KeyName} {resource : ResourceName} {displaced : Option Name}
      {key : Label} {u u' : World} {y : Resource} (hk : w.keyNamed k = .ok key)
      (hy : w.resourceNamed resource = .ok (u, y)) (h : u.attach m key y = .ok (u', some x)) :
      Returned w v m x (.attach manager k resource displaced)
        (.answer (v.displacedAnswer (some x)))
  | detach {manager : Name} {k : KeyName} {name : Option Name} {key : Label}
      (hk : w.keyNamed k = .ok key) (h : (w.detach m key).2 = some x) :
      Returned w v m x (.detach manager k name) (.answer (v.displacedAnswer (some x)))
  /-- The caller has the array already. -/
  | detachArray {manager array : Name} {a : ArrayId} (ha : w.arrayNamed array = .ok a)
      (hx : x = .array a) : Returned w v m x (.detachArray manager array) (.answer (.flag true))

/-- The operation is about an array, and takes away something else that is under the identity of
the array. -/
inductive Dropped (w : World) (m : ManagerId) (x : Resource) : Command → Prop
  | attachArray {manager array : Name} {a : ArrayId} {r : Manager}
      (ha : w.arrayNamed array = .ok a) (hr : w.openManager m = .ok r)
      (h : r.resources.get? (.array a) = some x) (hx : x ≠ .array a) :
      Dropped w m x (.attachArray manager array)
  | detachArray {manager array : Name} {a : ArrayId} {r : Manager}
      (ha : w.arrayNamed array = .ok a) (hr : w.openManager m = .ok r)
      (h : r.resources.get? (.array a) = some x) (hx : x ≠ .array a) :
      Dropped w m x (.detachArray manager array)

/-- The operation answers, and the manager tracks what it did before but for what the operation
returned or dropped. -/
def Accounts (w : World) (m : ManagerId) (c : Command) (p : World × Action) : Prop :=
  ∃ reply, p.2 = .reply reply ∧
    ∀ x, w.Tracks m x → p.1.Tracks m x ∨ w.Returned p.1 m x c reply ∨ w.Dropped m x c

theorem Accounts.of_tracks {c : Command} {p : World × Action} {reply : Reply}
    (hp : p.2 = .reply reply) (h : ∀ x, w.Tracks m x → p.1.Tracks m x) : w.Accounts m c p :=
  ⟨reply, hp, fun x hx => Or.inl (h x hx)⟩

theorem Heard.quiet {caller : Caller} {c : EngineCall} (h : w.Heard caller c v)
    (hq : w.engine.Quiet) : v.engine.Quiet := by
  have hplain : v.engine.isPlain = w.engine.isPlain := by simp only [Engine.isPlain, h.kind]
  simp only [Engine.Quiet, Engine.dueAfterCreate, Engine.dueAfterInvoke, hplain, h.afterCreate,
    h.afterInvoke]
  exact hq

theorem replies_performAllocate (hq : w.engine.Quiet) {manager name : Name} {a : Allocation}
    {check : Option Check} {p : World × Action}
    (h : w.performAllocate manager name a check = .ok p) : ∃ reply, p.2 = .reply reply := by
  simp only [performAllocate, bind_eq_ok] at h
  obtain ⟨m, -, d, -, r, -, h⟩ := h
  split at h <;> rename_i he <;> cases h
  · exact ⟨_, rfl⟩
  · simp only [afterCreate, ((heard_of_callCreate he).quiet hq).1]
    exact ⟨_, rfl⟩

theorem replies_performInvoke (hq : w.engine.Quiet) {manager name : Name} {operation : String}
    {inputs : List Name} {ps : Params} {p : World × Action}
    (h : w.performInvoke manager operation inputs ps name = .ok p) :
    ∃ reply, p.2 = .reply reply := by
  simp only [performInvoke, bind_eq_ok] at h
  obtain ⟨m, -, as, -, hs, -, h⟩ := h
  split at h <;> rename_i he <;> cases h
  · exact ⟨_, rfl⟩
  · simp only [afterInvoke, ((heard_of_callInvoke he).quiet hq).2]
    exact ⟨_, rfl⟩

theorem accounts_attempt (hk : w.KeysMade) (hq : w.engine.Quiet) {running : List ManagerId}
    {c : Command} (hc : w.Operates m c) {p : World × Action} (h : w.attempt running c = .ok p) :
    w.Accounts m c p := by
  cases c <;> try exact hc.elim
  all_goals
    replace hc : w.managerNamed _ = .ok m := hc
    simp only [attempt, performAttach, performAttachArray, World.attachArray, performDetach,
      performDetachArray, World.detachArray, hc, bind_eq_ok, mapError_eq_ok, pure, Except.pure,
      Except.ok.injEq, exists_eq_left'] at h
  case attach manager k resource displaced =>
    obtain ⟨key, hkey, ⟨u, y⟩, hy, ⟨u', old⟩, ha, rfl⟩ := h
    refine ⟨_, rfl, fun x hx => ?_⟩
    rcases (hx.of_eq (aside_resourceNamed hy).managers).attach ha with ht | ⟨-, rfl⟩
    · exact Or.inl (ht.of_eq (aside_nameDisplaced u' displaced old).managers)
    · exact Or.inr (Or.inl (.attach hkey hy ha))
  case attachArray manager array =>
    obtain ⟨a, ha, v, ⟨⟨v', old⟩, hv, rfl⟩, rfl⟩ := h
    refine ⟨_, rfl, fun x hx => ?_⟩
    rcases hx.attach hv with ht | ⟨-, rfl⟩
    · exact Or.inl ht
    · by_cases hxa : x = .array a
      · rw [hxa]
        exact Or.inl (tracks_attached hv)
      · obtain ⟨r, -, hr, hold, -, -⟩ := attach_eq_ok hv
        exact Or.inr (Or.inr (.attachArray ha hr hold.symm hxa))
  case detach manager k name =>
    obtain ⟨key, hkey, rfl⟩ := h
    refine ⟨_, rfl, fun x hx => ?_⟩
    rcases hx.detach m key with ht | ⟨-, hold⟩
    · exact Or.inl (ht.of_eq (aside_nameDisplaced _ name _).managers)
    · rw [hold]
      exact Or.inr (Or.inl (.detach hkey hold))
  case detachArray manager array =>
    obtain ⟨a, ha, rfl⟩ := h
    refine ⟨_, rfl, fun x hx => ?_⟩
    rcases hx.detach m (.array a) with ht | ⟨-, hold⟩
    · exact Or.inl ht
    · by_cases hxa : x = .array a
      · rw [hold]
        exact Or.inr (Or.inl (.detachArray ha hxa))
      · obtain ⟨r, hr, hget⟩ := get?_of_detach hold
        exact Or.inr (Or.inr (.detachArray ha hr hget hxa))
  case allocate =>
    obtain ⟨reply, hp⟩ := replies_performAllocate hq h
    exact .of_tracks hp fun x hx => hx.fills hk (fills_performAllocate h)
  case invoke =>
    obtain ⟨reply, hp⟩ := replies_performInvoke hq h
    exact .of_tracks hp fun x hx => hx.fills hk (fills_performInvoke h)

/-- **What an operation takes away from its manager, it returns or drops.** -/
theorem accounts_perform (hk : w.KeysMade) (hq : w.engine.Quiet) (running : List ManagerId)
    {c : Command} (hc : w.Operates m c) : w.Accounts m c (w.perform running c) := by
  unfold perform
  split
  · rename_i h
    exact accounts_attempt hk hq hc h
  · exact .of_tracks rfl fun x hx => hx

end World

namespace Machine

variable {order : VisitOrder} {kind : EngineKind} {s t : Machine}

theorem Sound.keysMade_next (hs : s.Sound) (hk : s.world.KeysMade) (h : Next order s t) :
    t.world.KeysMade := by
  cases h with
  | command c h => exact hk
  | step i h =>
      obtain ⟨before, t, after, v, u, started, -, hst, rfl⟩ := stepAt_eq_some h
      exact hk.feat (fun m k hk => hs.closing_of_mem hst.mem hk)
        (Thread.feat_of_step order s.running hs.owned hst.step)

theorem Reachable.keysMade (h : Reachable order kind s) : s.world.KeysMade := by
  obtain ⟨config, draws, h⟩ := h
  induction h with
  | refl =>
      rintro a ⟨m, r, x, hr, -⟩
      simp [fresh, World.start, World.manager?] at hr
  | tail h hn ih => exact ((sound_fresh kind config draws).leads h).keysMade_next ih hn

/-- **What a manager tracks does not get lost.**  In every reachable state in which the engine has
no commands to run, an operation of a manager answers in one step.  Whatever the manager
tracked before, it still does, or the caller gets it back, or it was under the identity of the
array that the operation is about without being that array. -/
theorem nothing_lost (hs : Reachable order kind s) (hq : s.world.engine.Quiet) {i : Nat}
    {id : ThreadId} {c : Command} {below : Stack .reply}
    (hi : s.threads[i]? = some ⟨id, .perform c below⟩) {m : ManagerId}
    (hc : s.world.Operates m c) :
    ∃ v reply, s.stepAt order i = some ⟨v, s.threads.set i ⟨id, .reply reply below⟩⟩ ∧
      ∀ x, s.world.Tracks m x →
        v.Tracks m x ∨ s.world.Returned v m x c reply ∨ s.world.Dropped m x c := by
  obtain ⟨reply, hp, hkept⟩ := World.accounts_perform hs.keysMade hq s.running hc
  refine ⟨_, reply, ?_, hkept⟩
  have hp : s.world.perform s.running c = ((s.world.perform s.running c).1, .reply reply) :=
    Prod.ext rfl hp
  simp only [stepAt, hi, Thread.step, Thread.perform]
  rw [hp]
  simp only [List.append_nil]

/-- A manager makes an array, and a release hook is attached under the identity of the array. -/
def underIdentity (rest : List (Command × Nat)) : Machine :=
  replay .byAge
    ([(.base "p" none, 1), (.allocate "p" "a" (.zeros ⟨[2]⟩ none) none, 1)] ++ rest)
    (fresh (.foreign .numbering) {} fun _ => .zero)

/-- A release hook under the identity of the array. -/
def attachHook : Command := .attach "p" (.uid "a") (.hook "h" [] .succeed) none

/-- The hook displaces the array, which is returned. -/
theorem nothing_lost_displaced :
    let s := underIdentity [(attachHook, 0)]
    s.world.Tracks ⟨0⟩ (.array ⟨0⟩) ∧
    ∃ v reply, s.stepAt .byAge 0 = some ⟨v, [⟨⟨0⟩, .reply reply .top⟩]⟩ ∧
      ∀ x, s.world.Tracks ⟨0⟩ x → v.Tracks ⟨0⟩ x ∨ s.world.Returned v ⟨0⟩ x attachHook reply ∨
        s.world.Dropped ⟨0⟩ x attachHook :=
  ⟨by decide, nothing_lost (reachable_replay .byAge _ _ _ _) ⟨rfl, rfl⟩ rfl rfl⟩

/-- The operation takes the hook that is under the identity of the array away from the manager, and
does not release it. -/
def DropsHook (c : Command) : Prop :=
  let s := underIdentity [(attachHook, 1), (c, 0)]
  Reachable .byAge (.foreign .numbering) s ∧ s.world.Operates ⟨0⟩ c ∧
    s.world.Tracks ⟨0⟩ (.hook ⟨0⟩) ∧
    ∃ t, s.stepAt .byAge 0 = some t ∧ ¬ t.world.Tracks ⟨0⟩ (.hook ⟨0⟩) ∧
      t.world.isReleased (.hook ⟨0⟩) = false

/-- **An operation on an array can drop something else**: both of them drop the hook, and neither
returns it. -/
theorem array_operations_drop :
    DropsHook (.attachArray "p" "a") ∧ DropsHook (.detachArray "p" "a") :=
  ⟨⟨reachable_replay .byAge _ _ _ _, rfl, by decide, _, rfl, by decide, by decide⟩,
    reachable_replay .byAge _ _ _ _, rfl, by decide, _, rfl, by decide, by decide⟩

end Machine

end ArrayLifetimes
