/-
What commands do to the managers.

A command makes one manager, or attaches or detaches one thing, or starts a shutdown, or lets
go of the registry, or else open managers take new arrays at most.  Whatever else it does is
aside.  `Deed` lists these cases, with the manager that is made, the child that is parted from
its parent, and the resource that is attached.

What a command asks to be released is a part of its action.  It is what the client aimed at, or
a root, or a manager that the command has made.
-/
import ArrayLifetimes.Proofs.World.Aside
import ArrayLifetimes.Proofs.World.Custody

namespace ArrayLifetimes

namespace Action

/-- What a client asks to be released in person. -/
def aims : Action → List Resource
  | release x _ => [x]
  | closeTogether m threads => List.replicate threads (.manager m)
  | spawnClose m => [.manager m]
  | _ => []

/-- What is to be released for the action. -/
def due : Action → List Resource
  | shutdown roots => roots.map .manager
  | body _ m _ _ _ => [.manager m]
  | a => a.aims

end Action

namespace World

/-! ### What a command is about -/

/-- The manager that the command makes, and who is to keep track of it. -/
def created? (w : World) : Command → Option (Owner × ManagerId)
  | .base _ device =>
    if w.registered then
      some (.registry, (w.newBase (device.getD w.config.defaultDevice)).2)
    else none
  | .sub manager _ device | .guarded manager _ device | .scope manager _ device _ _ _ => do
    let p ← (w.managerNamed manager).toOption
    let made ← (w.newSub p device).toOption
    return (.parent p, made.2)
  | _ => none

/-- The manager from which the command detaches a child, and the child. -/
def parted? (w : World) : Command → Option (ManagerId × ManagerId)
  | .detachSub manager child => do
    let p ← (w.managerNamed manager).toOption
    let c ← (w.managerNamed child).toOption
    let found ← (w.detachSub p c).2
    return (p, found)
  | _ => none

/-- The resource that the command attaches to a manager. -/
def attached? (w : World) : Command → Option Resource
  | .attach manager k resource _ => do
    let m ← (w.managerNamed manager).toOption
    let key ← (w.keyNamed k).toOption
    let named ← (w.resourceNamed resource).toOption
    let _ ← (named.1.attach m key named.2).toOption
    return named.2
  | .attachArray manager array => do
    let m ← (w.managerNamed manager).toOption
    let a ← (w.arrayNamed array).toOption
    let _ ← (w.attachArray m a).toOption
    return .array a
  | _ => none

/-- The resource that the command takes away from a manager, with the manager and the key. -/
def detached? (w : World) : Command → Option (ManagerId × Label × Resource)
  | .detach manager k _ => do
    let m ← (w.managerNamed manager).toOption
    let key ← (w.keyNamed k).toOption
    let x ← (w.detach m key).2
    return (m, key, x)
  | .detachArray manager array => do
    let m ← (w.managerNamed manager).toOption
    let a ← (w.arrayNamed array).toOption
    let x ← (w.detach m (.array a)).2
    return (m, .array a, x)
  | _ => none

/-! ### Deeds -/

/-- What a command does to managers and registry, when it has made a manager, parted a child
from its parent, or attached a resource. -/
inductive Deed (w : World) :
    Option (Owner × ManagerId) → Option (ManagerId × ManagerId) → Option Resource → World → Prop
  | fills {v : World} (h : w.Fills v) : Deed w none none none v
  | base {v : World} (d : Device) (hr : w.registered = true) (h : (w.newBase d).1.Aside v) :
      Deed w (some (.registry, (w.newBase d).2)) none none v
  | sub {u v : World} {p c : ManagerId} {d : Option Device} (hu : w.newSub p d = .ok (u, c))
      (h : u.Aside v) : Deed w (some (.parent p, c)) none none v
  | attach {u u' v : World} {m : ManagerId} {key : Label} {x : Resource} {old : Option Resource}
      (hu : w.Aside u) (hkey : ∀ a, key = .array a → u.Has (.array a))
      (ha : u.attach m key x = .ok (u', old)) (h : u'.Aside v) : Deed w none none (some x) v
  | detach {v : World} (m : ManagerId) (key : Label) (h : (w.detach m key).1.Aside v) :
      Deed w none none none v
  | detachSub {v : World} (p c : ManagerId) (h : (w.detachSub p c).1.Aside v) :
      Deed w none ((w.detachSub p c).2.map (p, ·)) none v
  | shutdown {v : World} (hr : w.registered = true) (h : w.beginShutdown.Aside v) :
      Deed w none none none v
  | dropRegistry {v : World} (h : { w with registered := false }.dropRoots.Aside v) :
      Deed w none none none v

variable {w v u : World}

theorem Aside.deed (h : w.Aside v) : w.Deed none none none v := .fills h.fills

/-- What is aside may follow. -/
theorem Deed.aside {made : Option (Owner × ManagerId)} {parted : Option (ManagerId × ManagerId)}
    {attached : Option Resource} (h : w.Deed made parted attached v) (hu : v.Aside u) :
    w.Deed made parted attached u := by
  cases h with
  | fills h => exact .fills (h.trans hu.fills)
  | base d hr h => exact .base d hr (h.trans hu)
  | sub hn h => exact .sub hn (h.trans hu)
  | attach hw hkey ha h => exact .attach hw hkey ha (h.trans hu)
  | detach m key h => exact .detach m key (h.trans hu)
  | detachSub p c h => exact .detachSub p c (h.trans hu)
  | shutdown hr h => exact .shutdown hr (h.trans hu)
  | dropRegistry h => exact .dropRegistry (h.trans hu)

/-- What comes of a command, and what is to be released for it. -/
structure Does (w : World) (c : Command) (p : World × Action) : Prop where
  deed : w.Deed (w.created? c) (w.parted? c) (w.attached? c) p.1
  due : ∀ x ∈ p.2.due, x ∈ p.2.aims ∨ (∃ m ∈ w.roots, x = .manager m) ∨
    ∃ o m, w.created? c = some (o, m) ∧ x = .manager m

/-- The command asks for nothing to be released but what it aims at. -/
theorem Does.of_aims {c : Command} {p : World × Action}
    (h : w.Deed (w.created? c) (w.parted? c) (w.attached? c) p.1) (hp : p.2.due = p.2.aims) :
    w.Does c p := ⟨h, fun _ hx => Or.inl (hp ▸ hx)⟩

theorem due_afterCreate (w : World) (next : AfterCallback) :
    (w.afterCreate next).2.due = (w.afterCreate next).2.aims := by
  unfold afterCreate
  split <;> rfl

theorem due_afterInvoke (w : World) (next : AfterCallback) :
    (w.afterInvoke next).2.due = (w.afterInvoke next).2.aims := by
  unfold afterInvoke
  split <;> rfl

theorem due_performAllocate {manager name : Name} {a : Allocation} {check : Option Check}
    {p : World × Action} (h : w.performAllocate manager name a check = .ok p) :
    p.2.due = p.2.aims := by
  simp only [performAllocate, bind_eq_ok] at h
  obtain ⟨m, -, d, -, r, -, h⟩ := h
  split at h <;> cases h
  · rfl
  · exact due_afterCreate _ _

theorem due_performInvoke {manager name : Name} {operation : String} {inputs : List Name}
    {ps : Params} {p : World × Action}
    (h : w.performInvoke manager operation inputs ps name = .ok p) : p.2.due = p.2.aims := by
  simp only [performInvoke, bind_eq_ok] at h
  obtain ⟨m, -, as, -, hs, -, h⟩ := h
  split at h <;> cases h
  · rfl
  · exact due_afterInvoke _ _

theorem due_performInvokeInto {manager : Name} {operation : String} {inputs outputs : List Name}
    {ps : Params} {p : World × Action}
    (h : w.performInvokeInto manager operation inputs outputs ps = .ok p) :
    p.2.due = p.2.aims := by
  simp only [performInvokeInto, bind_eq_ok] at h
  obtain ⟨-, -, as, -, bs, -, ⟨xs, ys⟩, -, h⟩ := h
  split at h <;> cases h <;> rfl

theorem due_performDirect (w : World) (call : DirectCall) :
    (w.performDirect call).2.due = (w.performDirect call).2.aims := by
  cases call with
  | create r =>
      simp only [performDirect]
      split
      · exact due_afterCreate _ _
      · rfl
  | release x =>
      simp only [performDirect]
      split <;> rfl
  | read | contains | supports => rfl
  | invoke operation inputs ps =>
      simp only [performDirect]
      split
      · exact due_afterInvoke _ _
      · rfl
  | invokeInto operation inputs outputs ps =>
      simp only [performDirect]
      split <;> rfl

theorem toOption_eq_some {ε α : Type} {x : Except ε α} {a : α} :
    x.toOption = some a ↔ x = .ok a := by
  cases x <;> simp [Except.toOption]

/-- A manager that a command makes is new. -/
theorem not_has_of_created? {c : Command} {o : Owner} {m : ManagerId}
    (h : w.created? c = some (o, m)) : ¬ w.Has (.manager m) := by
  have child : ∀ {manager : Name} {device : Option Device}, (do
      let p ← (w.managerNamed manager).toOption
      let made ← (w.newSub p device).toOption
      return (Owner.parent p, made.2)) = some (o, m) → ¬ w.Has (.manager m) := by
    intro manager device h
    obtain ⟨p, -, h⟩ := Option.bind_eq_some_iff.mp h
    obtain ⟨⟨v, c⟩, hs, h⟩ := Option.bind_eq_some_iff.mp h
    obtain ⟨r, -, rfl, -⟩ := newSub_eq_ok (toOption_eq_some.mp hs)
    cases h
    exact Nat.lt_irrefl _
  cases c with
  | base name device =>
      simp only [created?] at h
      split at h <;> cases h
      exact Nat.lt_irrefl _
  | sub | guarded | scope => exact child h
  | _ => cases h

theorem registered_of_requireRegistry {x : Unit} (h : w.requireRegistry = .ok x) :
    w.registered = true := by
  unfold requireRegistry at h
  split at h
  · assumption
  · cases h

/-- A child is made and named. -/
theorem deed_named_sub {p c : ManagerId} {d : Option Device} (h : w.newSub p d = .ok (v, c))
    (n : Name) : w.Deed (some (.parent p, c)) none none (v.nameManager n c) :=
  .sub h (.of_eq rfl rfl rfl rfl)

theorem does_attempt (hw : w.WellOwned) {running : List ManagerId} {c : Command}
    {p : World × Action} (h : w.attempt running c = .ok p) : w.Does c p := by
  have aside : ∀ {v : World}, v.managers = w.managers → v.registry = w.registry →
      v.arrays = w.arrays → v.hooks = w.hooks → w.Deed none none none v :=
    fun hm hr ha hh => (Aside.of_eq hm hr ha hh).deed
  cases c <;> simp only [attempt, performBase, performSub, performClose, performShutdown,
    performReleaseManager, performAttach, performAttachArray, performDetach,
    performDetachArray, detachArray, performDetachSub, performKeep, performRelease,
    performIsReleased, performCloseArray, performGuarded, performGuardDrop, performGuardClose,
    performGuardInto, performScope, performFailRelease, performPanicRelease, bind_eq_ok,
    mapError_eq_ok, pure, Except.pure, Except.ok.injEq] at h
  case base name device =>
    obtain ⟨_, hr, rfl⟩ := h
    replace hr := registered_of_requireRegistry hr
    refine .of_aims ?_ rfl
    simp only [created?, hr, if_true]
    exact .base _ hr (.of_eq rfl rfl rfl rfl)
  case sub manager name device =>
    obtain ⟨m, hm, ⟨v, child⟩, hs, rfl⟩ := h
    refine .of_aims ?_ rfl
    have hc : w.created? (.sub manager name device) = some (.parent m, child) := by
      simp [created?, hm, hs, Except.toOption]
    rw [hc]
    exact deed_named_sub hs name
  case close | releaseManager | closeArray =>
    obtain ⟨_, -, rfl⟩ := h
    exact .of_aims (aside rfl rfl rfl rfl) rfl
  case shutdown =>
    obtain ⟨_, hr, rfl⟩ := h
    refine ⟨.shutdown (registered_of_requireRegistry hr) (told_note _ _).aside, ?_⟩
    intro x hx
    obtain ⟨m, hm, rfl⟩ := List.mem_map.mp hx
    refine Or.inr (Or.inl ⟨m, ?_, rfl⟩)
    exact (List.mergeSort_perm w.roots _).subset hm
  case forget =>
    subst h
    exact .of_aims (aside rfl rfl rfl rfl) rfl
  case dropRegistry =>
    subst h
    exact .of_aims (.dropRegistry (.refl _)) rfl
  case attach manager k resource displaced =>
    obtain ⟨m, hm, key, hk, ⟨u, x⟩, hx, ⟨v, old⟩, ha, rfl⟩ := h
    have hu := aside_resourceNamed hx
    have hkey : ∀ a, key = .array a → u.Has (.array a) :=
      fun a ha => hu.has _ (has_of_keyNamed hw hk a ha)
    have hattached : w.attached? (.attach manager k resource displaced) = some x := by
      simp [attached?, hm, hk, hx, ha, Except.toOption]
    refine .of_aims ?_ rfl
    rw [hattached]
    exact .attach hu hkey ha (aside_nameDisplaced v displaced old)
  case attachArray manager array =>
    obtain ⟨m, hm, a, ha, v, hv, rfl⟩ := h
    have hattached : w.attached? (.attachArray manager array) = some (.array a) := by
      simp [attached?, hm, ha, hv, Except.toOption]
    have hkey : ∀ b, Label.array a = .array b → w.Has (.array b) :=
      fun b hb => Label.array.inj hb ▸ has_of_arrayNamed hw ha
    refine .of_aims ?_ rfl
    rw [hattached]
    simp only [World.attachArray, bind_eq_ok, pure, Except.pure, Except.ok.injEq] at hv
    obtain ⟨⟨v', old⟩, hv, rfl⟩ := hv
    exact .attach (.refl w) hkey hv (.refl _)
  case detach manager k name =>
    obtain ⟨m, -, key, -, rfl⟩ := h
    exact .of_aims (.detach m key (aside_nameDisplaced _ name _)) rfl
  case detachArray manager array =>
    obtain ⟨m, -, a, -, rfl⟩ := h
    exact .of_aims (.detach m (.array a) (.refl _)) rfl
  case detachSub manager child =>
    obtain ⟨m, hm, k, hk, rfl⟩ := h
    have hparted : w.parted? (.detachSub manager child) = (w.detachSub m k).2.map (m, ·) := by
      cases hd : (w.detachSub m k).2 <;> simp [parted?, hm, hk, hd, Except.toOption]
    refine .of_aims ?_ rfl
    rw [hparted]
    exact .detachSub m k (.refl _)
  case keep resource name =>
    obtain ⟨⟨v, x⟩, hx, rfl⟩ := h
    have hn : v.Aside (v.nameResource name x) := .of_eq rfl rfl rfl rfl
    exact .of_aims ((aside_resourceNamed hx).trans hn).deed rfl
  case release | isReleased =>
    obtain ⟨⟨v, x⟩, hx, rfl⟩ := h
    exact .of_aims (aside_resourceNamed hx).deed rfl
  case guarded manager name device =>
    obtain ⟨m, hm, ⟨v, child⟩, hs, h⟩ := h
    have hc : w.created? (.guarded manager name device) = some (.parent m, child) := by
      simp [created?, hm, hs, Except.toOption]
    have hd := (deed_named_sub hs name).aside (u := (v.nameManager name child).setGuards
      (v.client.guards.insert name child)) (.of_eq rfl rfl rfl rfl)
    rw [← hc] at hd
    split at h <;> cases h <;> exact .of_aims hd rfl
  case guardDrop | guardClose | guardInto =>
    obtain ⟨_, -, rfl⟩ := h
    exact .of_aims (aside rfl rfl rfl rfl) rfl
  case scope manager name device body propagate ending =>
    obtain ⟨m, hm, h⟩ := h
    split at h <;> cases h <;> rename_i hs
    · refine .of_aims ?_ rfl
      have hc : w.created? (.scope manager name device body propagate ending) = none := by
        simp [created?, hm, hs, Except.toOption]
      rw [hc]
      exact (Aside.refl w).deed
    · rename_i v child
      have hc : w.created? (.scope manager name device body propagate ending) =
          some (.parent m, child) := by
        simp [created?, hm, hs, Except.toOption]
      refine ⟨?_, ?_⟩
      · rw [hc]
        exact deed_named_sub hs name
      · intro x hx
        exact Or.inr (Or.inr ⟨_, _, hc, List.mem_singleton.mp hx⟩)
  case allocate => exact .of_aims (.fills (fills_performAllocate h)) (due_performAllocate h)
  case invoke => exact .of_aims (.fills (fills_performInvoke h)) (due_performInvoke h)
  case invokeInto =>
    exact .of_aims (told_performInvokeInto h).aside.deed (due_performInvokeInto h)
  case inThread =>
    subst h
    exact .of_aims (aside rfl rfl rfl rfl) rfl
  case spawnClose | concurrentClose =>
    obtain ⟨_, -, rfl⟩ := h
    exact .of_aims (aside rfl rfl rfl rfl) rfl
  case failRelease =>
    obtain ⟨⟨_, r⟩, -, h⟩ := h
    split at h <;> cases h <;> exact .of_aims (aside rfl rfl rfl rfl) rfl
  case panicRelease =>
    obtain ⟨⟨_, r⟩, -, rfl⟩ := h
    exact .of_aims (aside rfl rfl rfl rfl) rfl
  case failCreate | afterCreate | afterInvoke =>
    subst h
    exact .of_aims (aside rfl rfl rfl rfl) rfl
  case direct call =>
    subst h
    exact .of_aims (.fills (fills_performDirect w call)) (due_performDirect w call)
  case ask =>
    subst h
    exact .of_aims (told_ask w running _).aside.deed rfl

/-! ### Commands that fail

A command that would make, part or attach something does not fail. -/

section Refused

variable {running : List ManagerId} {c : Command} {f : Fault}

theorem created?_eq_none (h : w.attempt running c = .error f) : w.created? c = none := by
  cases c with
  | base name device =>
      by_cases hr : w.registered = true
      · simp only [attempt, performBase, requireRegistry, hr, if_true] at h
        cases h
      · simp only [created?, if_neg hr]
  | sub manager name device | guarded manager name device
  | scope manager name device body propagate ending =>
      cases hm : w.managerNamed manager with
      | error e => simp [created?, hm, Except.toOption]
      | ok m =>
          cases hs : w.newSub m device with
          | error e => simp [created?, hm, hs, Except.toOption]
          | ok made =>
              simp only [attempt, performSub, performGuarded, performScope, hm, hs, mapError_ok,
                bind, Except.bind, pure, Except.pure] at h
              first | cases h | (split at h <;> cases h)
  | _ => rfl

theorem parted?_eq_none (h : w.attempt running c = .error f) : w.parted? c = none := by
  cases c with
  | detachSub manager child =>
      cases hm : w.managerNamed manager with
      | error e => simp [parted?, hm, Except.toOption]
      | ok m =>
          cases hk : w.managerNamed child with
          | error e => simp [parted?, hm, hk, Except.toOption]
          | ok k =>
              simp only [attempt, performDetachSub, hm, hk, bind, Except.bind] at h
              cases h
  | _ => rfl

theorem attached?_eq_none (h : w.attempt running c = .error f) : w.attached? c = none := by
  cases c with
  | attach manager k resource displaced =>
      cases hm : w.managerNamed manager with
      | error e => simp [attached?, hm, Except.toOption]
      | ok m =>
          cases hk : w.keyNamed k with
          | error e => simp [attached?, hm, hk, Except.toOption]
          | ok key =>
              cases hx : w.resourceNamed resource with
              | error e => simp [attached?, hm, hk, hx, Except.toOption]
              | ok named =>
                  cases ha : named.1.attach m key named.2 with
                  | error e => simp [attached?, hm, hk, hx, ha, Except.toOption]
                  | ok p =>
                      simp only [attempt, performAttach, hm, hk, hx, ha, mapError_ok, bind,
                        Except.bind] at h
                      cases h
  | attachArray manager array =>
      cases hm : w.managerNamed manager with
      | error e => simp [attached?, hm, Except.toOption]
      | ok m =>
          cases ha : w.arrayNamed array with
          | error e => simp [attached?, hm, ha, Except.toOption]
          | ok a =>
              cases hv : w.attachArray m a with
              | error e => simp [attached?, hm, ha, hv, Except.toOption]
              | ok v =>
                  simp only [attempt, performAttachArray, hm, ha, hv, mapError_ok, bind,
                    Except.bind] at h
                  cases h
  | _ => rfl

end Refused

/-- **What a command does to the managers, and what is to be released for it.** -/
theorem does_perform (hw : w.WellOwned) (running : List ManagerId) (c : Command) :
    w.Does c (w.perform running c) := by
  unfold perform
  split
  · rename_i h
    exact does_attempt hw h
  · rename_i h
    refine .of_aims ?_ rfl
    rw [created?_eq_none h, parted?_eq_none h, attached?_eq_none h]
    exact (Aside.refl w).deed

end World

end ArrayLifetimes
