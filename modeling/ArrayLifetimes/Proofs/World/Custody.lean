/-
Commands mind the arrays.

Over the host engine every command leaves the arrays and the buffers of the engine tallied, as
long as it does not ask the engine itself to make or free an array.  And it minds the
arrays: one that was a resource of an open manager still is, unless the command released it
or it is among those that the command lets go.  Commands let go what they detach, and what
they displace by attaching something in its place.

The begin of a close takes all arrays of a manager over.
-/
import ArrayLifetimes.Proofs.World.Tally

namespace ArrayLifetimes

/-- The command asks the engine itself to make or free an array. -/
def Command.disturbs : Command → Bool
  | .direct (.create _) | .direct (.release _) | .direct (.invoke _ _ _) => true
  | _ => false

namespace World

/-- The command takes the array away from a manager without releasing it. -/
inductive LetsGo (w : World) : Command → ArrayId → Prop
  /-- It is returned by `detach`. -/
  | detach {manager : Name} {k : KeyName} {name : Option Name} {m : ManagerId} {key : Label}
      {a : ArrayId} (hm : w.managerNamed manager = .ok m) (hk : w.keyNamed k = .ok key)
      (h : (w.detach m key).2 = some (.array a)) : LetsGo w (.detach manager k name) a
  /-- It is removed by `detachArray`. -/
  | detachArray {manager array : Name} {m : ManagerId} {a b : ArrayId}
      (hm : w.managerNamed manager = .ok m) (hb : w.arrayNamed array = .ok b)
      (h : (w.detach m (.array b)).2 = some (.array a)) : LetsGo w (.detachArray manager array) a
  /-- It is displaced by what is attached under its key. -/
  | attach {manager : Name} {k : KeyName} {resource : ResourceName} {displaced : Option Name}
      {m : ManagerId} {key : Label} {u v : World} {x : Resource} {a : ArrayId}
      (hm : w.managerNamed manager = .ok m) (hk : w.keyNamed k = .ok key)
      (hx : w.resourceNamed resource = .ok (u, x))
      (h : u.attach m key x = .ok (v, some (.array a))) :
      LetsGo w (.attach manager k resource displaced) a
  /-- It is displaced by the array that is attached under its key. -/
  | attachArray {manager array : Name} {m : ManagerId} {v : World} {a b : ArrayId}
      (hm : w.managerNamed manager = .ok m) (hb : w.arrayNamed array = .ok b)
      (h : w.attach m (.array b) (.array b) = .ok (v, some (.array a))) :
      LetsGo w (.attachArray manager array) a

variable {w v u : World} {a : ArrayId} {m : ManagerId} {key : Label}

/-! ### Attaching and detaching -/

theorem minds_attach {x : Resource} {old : Option Resource}
    (h : w.attach m key x = .ok (v, old)) : w.Minds v fun a => old = some (.array a) := by
  obtain ⟨r, u, hr, rfl, hu, rfl⟩ := attach_eq_ok h
  have hopen : ∀ k, u.openManager k = w.openManager k := by
    intro k
    rcases hu with rfl | rfl <;> rfl
  have harrays : u.arrays = w.arrays := by
    rcases hu with rfl | rfl <;> rfl
  refine .of_managed ?_ ?_
  · rintro a ⟨q, hq, hrel⟩
    exact ⟨q, by simpa only [array?, modifyManager, harrays] using hq, hrel⟩
  · rintro a ⟨k, q, key', hq, hkey⟩
    have hnew := openManager_modifyManager (m := m)
      (f := fun r => { r with resources := r.resources.insert key x }) (fun _ => rfl)
      ((hopen k).trans hq)
    by_cases hmk : m = k
    · subst hmk
      obtain rfl : r = q := Except.ok.inj (hr.symm.trans hq)
      by_cases hkk : key = key'
      · subst hkk
        exact Or.inr hkey
      · refine Or.inl ⟨m, _, key', hnew, ?_⟩
        rw [if_pos rfl, Keyed.get?_insert, if_neg hkk]
        exact hkey
    · refine Or.inl ⟨k, _, key', hnew, ?_⟩
      rw [if_neg hmk]
      exact hkey

theorem Tallied.attach (ht : w.Tallied []) {x : Resource} {old : Option Resource}
    (hkey : ∀ b, key = .array b → w.Has (.array b)) (h : w.attach m key x = .ok (v, old)) :
    v.Tallied [] := by
  obtain ⟨r, u, -, -, hu, rfl⟩ := attach_eq_ok h
  have htu : u.Tallied [] := by
    rcases hu with rfl | rfl
    · exact ht
    · exact ht.still (still_note w _)
  have hhas : ∀ b, key = .array b → u.Has (.array b) := by
    rcases hu with rfl | rfl <;> exact hkey
  refine ⟨htu.kind, htu.stores, ?_⟩
  rintro b ⟨k, q, y, hq, hy⟩
  rw [manager?_modifyManager] at hq
  split at hq
  · obtain ⟨p, hp, rfl⟩ := Option.map_eq_some_iff.mp hq
    rw [Keyed.get?_insert] at hy
    split at hy
    · rename_i hb
      exact hhas b hb
    · exact htu.keys b ⟨k, p, y, hp, hy⟩
  · exact htu.keys b ⟨k, q, y, hq, hy⟩

theorem minds_detach (w : World) (m : ManagerId) (key : Label) :
    w.Minds (w.detach m key).1 fun a => (w.detach m key).2 = some (.array a) := by
  rcases detach_cases w m key with h | ⟨r, x, hr, hx, h⟩ <;> rw [h]
  · exact .refl w
  · refine .of_managed (fun _ => id) ?_
    rintro a ⟨k, q, key', hq, hkey⟩
    have hnew := openManager_modifyManager (m := m)
      (f := fun r => { r with resources := r.resources.erase key }) (fun _ => rfl) hq
    by_cases hmk : m = k
    · subst hmk
      obtain rfl : r = q := Except.ok.inj (hr.symm.trans hq)
      by_cases hkk : key = key'
      · subst hkk
        exact Or.inr (hx.symm.trans hkey)
      · refine Or.inl ⟨m, _, key', hnew, ?_⟩
        rw [if_pos rfl, Keyed.get?_erase, if_neg hkk]
        exact hkey
    · refine Or.inl ⟨k, _, key', hnew, ?_⟩
      rw [if_neg hmk]
      exact hkey

theorem Tallied.detach (ht : w.Tallied []) (m : ManagerId) (key : Label) :
    (w.detach m key).1.Tallied [] := by
  rcases detach_cases w m key with h | ⟨r, x, -, -, h⟩ <;> rw [h]
  · exact ht
  · refine ⟨ht.kind, ht.stores, ?_⟩
    rintro b ⟨k, q, y, hq, hy⟩
    replace hq : (w.modifyManager m fun r =>
      { r with resources := r.resources.erase key }).manager? k = some q := hq
    rw [manager?_modifyManager] at hq
    split at hq
    · obtain ⟨p, hp, rfl⟩ := Option.map_eq_some_iff.mp hq
      rw [Keyed.get?_erase] at hy
      split at hy
      · cases hy
      · exact ht.keys b ⟨k, p, y, hp, hy⟩
    · exact ht.keys b ⟨k, q, y, hq, hy⟩

/-! ### Closing -/

/-- A close takes over what its manager owned, and nothing else. -/
theorem Tallied.beginClose (ht : w.Tallied []) {r : Manager} (hm : w.openManager m = .ok r)
    (k : ThreadId) : w.Carries (fun a => .array a ∈ r.owned) (w.beginClose m r k).1 := by
  refine ⟨⟨ht.kind, ht.stores, ?_⟩, .of_managed (fun _ => id) ?_⟩
  · rintro b ⟨n, q, y, hq, hy⟩
    rw [manager?_beginClose] at hq
    split at hq
    · obtain ⟨p, -, rfl⟩ := Option.map_eq_some_iff.mp hq
      cases hy
    · exact ht.keys b ⟨n, q, y, hq, hy⟩
  · rintro a ⟨n, q, key, hq, hkey⟩
    by_cases hmn : m = n
    · subst hmn
      obtain rfl : r = q := Except.ok.inj (hm.symm.trans hq)
      exact Or.inr (List.mem_append_right _ (Keyed.mem_values_of_get? hkey))
    · obtain ⟨hq, hl⟩ := openManager_eq_ok.mp hq
      refine Or.inl ⟨n, q, key, openManager_eq_ok.mpr ⟨?_, hl⟩, hkey⟩
      rw [manager?_beginClose, if_neg hmn]
      exact hq

/-! ### The engine's answers -/

section Answers

variable {gone : ArrayId → Prop} {next : AfterCallback}

theorem Tallied.proceed (ht : w.Tallied next.natives) : w.Carries gone (w.proceed next).1 := by
  cases next with
  | track m n name check =>
      obtain ⟨-, htv, hminds⟩ : _ ∧ _ ∧ w.Minds (w.track m n).1 gone := Tallied.track ht m
      simp only [World.proceed]
      split <;> rename_i he <;> rw [he] at htv hminds
      · rename_i v a
        have hnamed : v.Still (v.nameArray name a) := .of_eq rfl rfl rfl rfl
        exact Carries.still ⟨htv, hminds⟩
          (hnamed.trans (kept_shownArray (v.nameArray name a) a check).still)
      · exact ⟨htv, hminds⟩
  | trackAll m operation ns name =>
      have hnote := still_note w (.invoked m operation ns.length)
      have hns : (w.note (.invoked m operation ns.length)).Tallied ns := Tallied.still ht hnote
      have hall : w.Carries gone ((w.note (.invoked m operation ns.length)).trackAll m ns).1 :=
        (hns.trackAll m).after hnote.minds
      simp only [World.proceed]
      split <;> rename_i he <;> rw [he] at hall
      · rename_i v as
        exact hall.still ((kept_nameOutputs v name as).still.trans (kept_shownArrays _ as).still)
      · exact hall
  | answer r => exact ⟨ht, .refl w⟩

/-- The host engine runs no commands before it answers. -/
theorem Tallied.afterCreate (ht : w.Tallied next.natives) :
    w.Carries gone (w.afterCreate next).1 ∧ (w.afterCreate next).2.natives = [] := by
  have hdue : w.engine.dueAfterCreate = none := by
    simp only [Engine.dueAfterCreate, Engine.isPlain, ht.kind, if_true]
  simp only [World.afterCreate, hdue]
  exact ⟨ht.proceed, rfl⟩

theorem Tallied.afterInvoke (ht : w.Tallied next.natives) :
    w.Carries gone (w.afterInvoke next).1 ∧ (w.afterInvoke next).2.natives = [] := by
  have hdue : w.engine.dueAfterInvoke = none := by
    simp only [Engine.dueAfterInvoke, Engine.isPlain, ht.kind, if_true]
  simp only [World.afterInvoke, hdue]
  exact ⟨ht.proceed, rfl⟩

theorem Heard.minds {caller : Caller} {c : EngineCall} (h : w.Heard caller c v) :
    w.Minds v gone := by
  refine .of_managed ?_ fun a ha => Or.inl (managed_of_eq h.managers ha)
  rintro a ⟨r, hr, hrel⟩
  exact ⟨r, by simpa only [array?, h.arrays] using hr, hrel⟩

theorem Tallied.performAllocate (ht : w.Tallied []) {manager name : Name} {d : Allocation}
    {check : Option Check} {p : World × Action}
    (h : w.performAllocate manager name d check = .ok p) :
    w.Carries gone p.1 ∧ p.2.natives = [] := by
  simp only [World.performAllocate, bind_eq_ok] at h
  obtain ⟨m, -, d, -, r, -, h⟩ := h
  split at h <;> rename_i he
  · cases h
    exact ⟨⟨ht.callCreate he, (heard_of_callCreate he).minds⟩, rfl⟩
  · rename_i v n
    cases h
    have htv : v.Tallied (AfterCallback.track m n name check).natives := ht.callCreate he
    obtain ⟨hv, hnatives⟩ := htv.afterCreate
    exact ⟨hv.after (heard_of_callCreate he).minds, hnatives⟩

theorem Tallied.performInvoke (ht : w.Tallied []) {manager name : Name} {operation : String}
    {inputs : List Name} {ps : Params} {p : World × Action}
    (h : w.performInvoke manager operation inputs ps name = .ok p) :
    w.Carries gone p.1 ∧ p.2.natives = [] := by
  simp only [World.performInvoke, bind_eq_ok] at h
  obtain ⟨m, -, as, -, hs, -, h⟩ := h
  split at h <;> rename_i he
  · cases h
    exact ⟨⟨ht.callInvoke he, (heard_of_callInvoke he).minds⟩, rfl⟩
  · rename_i v made
    cases h
    have htv : v.Tallied (made ++ []) := ht.callInvoke he
    rw [List.append_nil] at htv
    have hmade : v.Tallied (AfterCallback.trackAll m operation made name).natives := htv
    obtain ⟨hv, hnatives⟩ := hmade.afterInvoke
    exact ⟨hv.after (heard_of_callInvoke he).minds, hnatives⟩

theorem Tallied.carries_callInvokeInto (ht : w.Tallied []) (caller : Caller) (operation : String)
    (inputs outputs : List Handle) (ps : Params) :
    w.Carries gone (w.callInvokeInto caller operation inputs outputs ps).1 :=
  ⟨ht.callInvokeInto caller operation inputs outputs ps, (heard_callInvokeInto ..).minds⟩

theorem Tallied.performInvokeInto (ht : w.Tallied []) {manager : Name} {operation : String}
    {inputs outputs : List Name} {ps : Params} {p : World × Action}
    (h : w.performInvokeInto manager operation inputs outputs ps = .ok p) :
    w.Carries gone p.1 ∧ p.2.natives = [] := by
  simp only [World.performInvokeInto, bind_eq_ok] at h
  obtain ⟨-, -, as, -, bs, -, ⟨xs, ys⟩, -, h⟩ := h
  have hc : w.Carries gone (w.callInvokeInto .managers operation xs ys ps).1 :=
    ht.carries_callInvokeInto .managers operation xs ys ps
  split at h <;> rename_i he <;> rw [he] at hc <;> cases h
  · exact ⟨hc, rfl⟩
  · exact ⟨hc.still (still_readEach _ bs), rfl⟩

theorem Tallied.performDirect (ht : w.Tallied []) {call : DirectCall}
    (hc : (Command.direct call).disturbs = false) :
    w.Carries gone (w.performDirect call).1 ∧ (w.performDirect call).2.natives = [] := by
  have here : w.Carries gone w := (Still.refl w).carries ht
  cases call with
  | create | release | invoke => cases hc
  | read x => exact ⟨here.still (.of_eq rfl rfl rfl rfl), rfl⟩
  | contains | supports => exact ⟨here, rfl⟩
  | invokeInto operation inputs outputs ps =>
      have hinto : w.Carries gone (w.callInvokeInto .client operation inputs outputs ps).1 :=
        ht.carries_callInvokeInto .client operation inputs outputs ps
      simp only [World.performDirect]
      split <;> rename_i he <;> rw [he] at hinto <;> exact ⟨hinto, rfl⟩

end Answers

/-! ### All commands -/

theorem has_of_keyNamed (hw : w.WellOwned) {k : KeyName} (h : w.keyNamed k = .ok key) :
    ∀ b, key = .array b → w.Has (.array b) := by
  rintro b rfl
  cases k with
  | text s => cases h
  | uid n =>
      simp only [keyNamed, bind_eq_ok, pure, Except.pure, Except.ok.injEq] at h
      obtain ⟨a, ha, hab⟩ := h
      exact Label.array.inj hab ▸ has_of_arrayNamed hw ha

/-- Making a child and naming it concerns no array. -/
theorem still_named_sub {p c : ManagerId} {d : Option Device} (h : w.newSub p d = .ok (v, c))
    (n : Name) : w.Still (v.nameManager n c) :=
  (still_newSub h).trans (.of_eq rfl rfl rfl rfl)

theorem Tallied.attempt (ht : w.Tallied []) (hw : w.WellOwned) {running : List ManagerId}
    {c : Command} (hc : c.disturbs = false) {p : World × Action}
    (h : w.attempt running c = .ok p) : w.Carries (w.LetsGo c) p.1 ∧ p.2.natives = [] := by
  have still : ∀ {v : World}, w.Still v → w.Carries (w.LetsGo c) v := fun hv => hv.carries ht
  cases c <;> simp only [World.attempt, performBase, performSub, performClose, performShutdown,
    performReleaseManager, performAttach, performAttachArray, attachArray, performDetach,
    performDetachArray, detachArray, performDetachSub, performKeep, performRelease,
    performIsReleased, performCloseArray, performGuarded, performGuardDrop, performGuardClose,
    performGuardInto, performScope, performFailRelease, performPanicRelease, bind_eq_ok,
    mapError_eq_ok, pure, Except.pure, Except.ok.injEq] at h
  case base name device =>
    obtain ⟨-, -, rfl⟩ := h
    exact ⟨still ((still_newBase w _).trans (.of_eq rfl rfl rfl rfl)), rfl⟩
  case sub name _ =>
    obtain ⟨_, -, ⟨v, child⟩, hs, rfl⟩ := h
    exact ⟨still (still_named_sub hs name), rfl⟩
  case close | releaseManager | closeArray =>
    obtain ⟨_, -, rfl⟩ := h
    exact ⟨still (.refl w), rfl⟩
  case shutdown =>
    obtain ⟨-, -, rfl⟩ := h
    exact ⟨still (.of_eq rfl rfl rfl rfl), rfl⟩
  case forget =>
    subst h
    exact ⟨still (.of_eq rfl rfl rfl rfl), rfl⟩
  case dropRegistry =>
    subst h
    exact ⟨still (still_dropRoots w false w.shutdowns), rfl⟩
  case attach manager k resource displaced =>
    obtain ⟨m, hm, key, hk, ⟨u, x⟩, hx, ⟨v, old⟩, ha, rfl⟩ := h
    have hu := still_resourceNamed hx
    have hkey : ∀ b, key = .array b → u.Has (.array b) := by
      intro b hb
      have hb := has_of_keyNamed hw hk b hb
      simpa only [Has, hu.arrays] using hb
    have hv : u.Minds v (w.LetsGo (.attach manager k resource displaced)) := by
      refine (minds_attach ha).imp ?_
      rintro a rfl
      exact .attach hm hk hx ha
    have hcarries : w.Carries _ v := ⟨(ht.still hu).attach hkey ha, hu.minds.trans hv⟩
    exact ⟨hcarries.still (still_nameDisplaced v displaced old), rfl⟩
  case attachArray manager array =>
    obtain ⟨m, hm, a, ha, v, ⟨⟨v', old⟩, hv, rfl⟩, rfl⟩ := h
    have hkey : ∀ b, Label.array a = .array b → w.Has (.array b) :=
      fun b hb => Label.array.inj hb ▸ has_of_arrayNamed hw ha
    refine ⟨⟨ht.attach hkey hv, (minds_attach hv).imp ?_⟩, rfl⟩
    rintro b rfl
    exact .attachArray hm ha hv
  case detach manager k name =>
    obtain ⟨m, hm, key, hk, rfl⟩ := h
    have hcarries : w.Carries (w.LetsGo (.detach manager k name)) (w.detach m key).1 := by
      refine ⟨ht.detach m key, (minds_detach w m key).imp ?_⟩
      exact fun b hb => .detach hm hk hb
    exact ⟨hcarries.still (still_nameDisplaced _ name _), rfl⟩
  case detachArray manager array =>
    obtain ⟨m, hm, a, ha, rfl⟩ := h
    refine ⟨⟨ht.detach m _, (minds_detach w m _).imp ?_⟩, rfl⟩
    exact fun b hb => .detachArray hm ha hb
  case detachSub =>
    obtain ⟨m, -, child, -, rfl⟩ := h
    exact ⟨still (still_detachSub w m child), rfl⟩
  case keep =>
    obtain ⟨⟨v, x⟩, hx, rfl⟩ := h
    exact ⟨still ((still_resourceNamed hx).trans (.of_eq rfl rfl rfl rfl)), rfl⟩
  case release | isReleased =>
    obtain ⟨⟨v, x⟩, hx, rfl⟩ := h
    exact ⟨still (still_resourceNamed hx), rfl⟩
  case guarded name _ =>
    obtain ⟨m, -, ⟨v, child⟩, hs, h⟩ := h
    have hg : w.Still ((v.nameManager name child).setGuards (v.client.guards.insert name child)) :=
      (still_named_sub hs name).trans (.of_eq rfl rfl rfl rfl)
    split at h <;> cases h <;> exact ⟨still hg, rfl⟩
  case guardDrop | guardClose | guardInto =>
    obtain ⟨_, -, rfl⟩ := h
    exact ⟨still (.of_eq rfl rfl rfl rfl), rfl⟩
  case scope name _ _ _ _ =>
    obtain ⟨m, -, h⟩ := h
    split at h <;> cases h
    · exact ⟨still (.refl w), rfl⟩
    · rename_i v child hs
      exact ⟨still (still_named_sub hs name), rfl⟩
  case allocate => exact ht.performAllocate h
  case invoke => exact ht.performInvoke h
  case invokeInto => exact ht.performInvokeInto h
  case inThread =>
    subst h
    exact ⟨still (.refl w), rfl⟩
  case spawnClose | concurrentClose =>
    obtain ⟨_, -, rfl⟩ := h
    exact ⟨still (.refl w), rfl⟩
  case failRelease =>
    obtain ⟨⟨_, r⟩, -, h⟩ := h
    split at h <;> cases h
    · exact ⟨still (.refl w), rfl⟩
    · exact ⟨still (.of_eq rfl rfl rfl rfl), rfl⟩
  case panicRelease =>
    obtain ⟨⟨_, r⟩, -, rfl⟩ := h
    exact ⟨still (.of_eq rfl rfl rfl rfl), rfl⟩
  case failCreate | afterCreate | afterInvoke =>
    subst h
    exact ⟨still (.of_eq rfl rfl rfl rfl), rfl⟩
  case direct =>
    subst h
    exact ht.performDirect hc
  case ask =>
    subst h
    exact ⟨still (still_ask w running _), rfl⟩

/-- **Every command minds the arrays** but those that it lets go. -/
theorem Tallied.perform (ht : w.Tallied []) (hw : w.WellOwned) (running : List ManagerId)
    {c : Command} (hc : c.disturbs = false) :
    w.Carries (w.LetsGo c) (w.perform running c).1 ∧ (w.perform running c).2.natives = [] := by
  unfold World.perform
  split
  · rename_i h
    exact ht.attempt hw hc h
  · exact ⟨(Still.refl w).carries ht, rfl⟩

end World

end ArrayLifetimes
