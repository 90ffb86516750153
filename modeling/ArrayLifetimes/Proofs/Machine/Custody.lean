/-
Where the arrays are that are not released, along a run.

Every one of them is a resource of an open manager, or a cascade has taken it over and has
yet to release it, or some step of the run has let it go.  A step that lets an array go is the
begin of a command that detaches it or displaces it.  Whatever else a step does, it keeps
arrays in one of the first two places: the begin of a close takes them from the first to the
second, and there they stay until they are released.

This is about runs over the host engine in which nobody asks the engine itself to make or
free an array.  Then the arrays and the buffers of the engine are tallied after every step.
-/
import ArrayLifetimes.Proofs.Machine.Accounted
import ArrayLifetimes.Proofs.Machine.Debts
import ArrayLifetimes.Proofs.World.Custody

namespace ArrayLifetimes

namespace Thread

/-- The thread is about to let the array go. -/
def LetsGo (w : World) (t : Thread) (a : ArrayId) : Prop :=
  ∃ c below, t.task = .perform c below ∧ w.LetsGo c a

/-- The thread is about to ask the engine itself to make or free an array. -/
def disturbs (t : Thread) : Bool :=
  match t.task with
  | .perform c _ => c.disturbs
  | _ => false

/-! ### One step of a thread -/

section Step

variable {w v : World} {t u : Thread} {started : List Thread}

/-- The step leaves the world tallied, has minded its arrays, and leaves none of the engine's
without a manager. -/
structure Careful (w : World) (t : Thread) (v : World) (u : Thread) : Prop where
  carries : w.Carries (fun a => t.LetsGo w a ∨ ∃ m, (m, .array a) ∈ u.owed) v
  natives : u.natives = []

theorem Careful.of_still (ht : w.Tallied []) (h : w.Still v) (hu : u.natives = []) :
    t.Careful w v u := ⟨h.carries ht, hu⟩

theorem careful_release (ht : w.Tallied []) (order : VisitOrder) (id : ThreadId)
    (below : Stack .outcome) (hb : below.natives = []) (x : Resource)
    (h : release order w id below x = .next v u started) :
    Careful w ⟨id, .release x below⟩ v u := by
  cases x with
  | array a =>
      simp only [release, Step.next.injEq] at h
      obtain ⟨rfl, rfl, -⟩ := h
      exact ⟨ht.carries_releaseArray a, hb⟩
  | hook g =>
      simp only [release] at h
      split at h <;> simp only [Step.next.injEq] at h <;> obtain ⟨rfl, rfl, -⟩ := h
      · exact .of_still ht (.of_eq rfl rfl rfl rfl) hb
      · exact .of_still ht (.refl w) hb
  | manager m =>
      simp only [release] at h
      split at h
      · cases h
        exact .of_still ht (.refl w) hb
      · rename_i r hr
        split at h
        · cases h
          exact .of_still ht (.refl w) hb
        · split at h <;> cases h
          exact .of_still ht (.refl w) hb
        · rename_i hl
          cases h
          have hc := ht.beginClose (World.openManager_eq_ok.mpr ⟨hr, hl⟩) id
          refine ⟨⟨hc.tallied, hc.minds.imp ?_⟩, hb⟩
          intro a ha
          have hitem := (order.items_arrange m ⟨r.children, r.resources.entries⟩).symm.subset ha
          exact Or.inr ⟨m, List.mem_append_left _ (List.mem_map.mpr ⟨_, hitem, rfl⟩)⟩

theorem still_recordItem (w : World) (m : ManagerId) (failures : ReleaseFailures)
    (outcome : Outcome) (item : Item) : w.Still (w.recordItem m failures outcome item).1 := by
  cases item with
  | child id =>
      simp only [World.recordItem]
      split <;> exact .refl w
  | resource key =>
      simp only [World.recordItem]
      split
      · split
        · exact World.still_note w _
        · exact .refl w
      · exact World.still_note w _

theorem still_afterRelease (w : World) (outcome : Outcome) (next : AfterRelease) :
    w.Still (w.afterRelease outcome next).1 := by
  cases next with
  | done | releasedBefore | releasedNow => exact .refl w
  | droppedGuard m inUse r =>
      simp only [World.afterRelease]
      split
      · exact .refl w
      · exact World.still_note w _
      · exact .refl w
  | endedScope p m body result =>
      cases result with
      | value j => exact .refl w
      | fault | panic =>
          simp only [World.afterRelease, World.endScope]
          split
          · exact World.still_note w _
          · exact .refl w

theorem still_endShutdown (w : World) : w.Still w.endShutdown :=
  World.still_dropRoots w w.registered (w.shutdowns - 1)

theorem careful_settle (ht : w.Tallied []) (id : ThreadId) (outcome : Outcome)
    (below : Stack .outcome) (hb : below.natives = [])
    (h : settle w id outcome below = .next v u started) :
    Careful w ⟨id, .settle outcome below⟩ v u := by
  cases below with
  | closer m =>
      cases h
      exact .of_still ht (.refl w) rfl
  | cascade m item rest failures below =>
      cases h
      exact .of_still ht (still_recordItem w m failures outcome item) hb
  | release next below =>
      cases h
      exact .of_still ht (still_afterRelease w outcome next) hb
  | shutdown root rest failures below =>
      simp only [settle] at h
      split at h <;> cases h
      · exact .of_still ht (.refl w) hb
      · exact .of_still ht (.refl w) hb
      · exact .of_still ht (still_endShutdown w) hb
  | closers m left replies caller below =>
      cases h
      exact .of_still ht (.refl w) hb

theorem careful_sweep (ht : w.Tallied []) (id : ThreadId) (m : ManagerId) (rest : Estate)
    (failures : ReleaseFailures) (below : Stack .outcome) (hb : below.natives = [])
    (hm : w.lifecycle? m = some (.closing id))
    (h : sweep w id m rest failures below = .next v u started) :
    Careful w ⟨id, .sweep m rest failures below⟩ v u := by
  obtain ⟨children, resources⟩ := rest
  cases children with
  | cons c children =>
      cases h
      exact .of_still ht (.refl w) hb
  | nil =>
      cases resources with
      | cons e resources =>
          cases h
          exact .of_still ht (.refl w) hb
      | nil =>
          cases h
          obtain ⟨r, hr, -⟩ := World.lifecycle?_eq_some.mp hm
          have hended := World.ended_endCascade (World.has_manager_of hr) failures
          refine .of_still ht (hended.still ?_) hb
          rw [hm]
          simp

theorem careful_perform (ht : w.Tallied []) (hw : w.WellOwned) (id : ThreadId)
    (running : List ManagerId) {c : Command} (hc : c.disturbs = false) (below : Stack .reply)
    (hb : below.natives = []) (h : perform w id running c below = .next v u started) :
    Careful w ⟨id, .perform c below⟩ v u := by
  obtain ⟨hcarries, hnatives⟩ := ht.perform hw running hc
  replace hcarries : ∀ {u : Thread}, w.Carries (fun a =>
      LetsGo w ⟨id, .perform c below⟩ a ∨ ∃ m, (m, .array a) ∈ u.owed) (w.perform running c).1 :=
    fun {u} => ⟨hcarries.tallied, hcarries.minds.imp fun a ha => Or.inl ⟨c, below, rfl, ha⟩⟩
  simp only [perform] at h
  split at h <;> rename_i ha <;> rw [ha] at hnatives <;> cases h
  case h_5 _ next =>
    replace hnatives : next.natives = [] := hnatives
    refine ⟨hcarries, ?_⟩
    show next.natives ++ below.natives = []
    rw [hnatives, hb]
    rfl
  case h_6 | h_8 => exact ⟨hcarries.still (.of_eq rfl rfl rfl rfl), hb⟩
  all_goals exact ⟨hcarries, hb⟩

theorem careful_finish (ht : w.Tallied []) (id : ThreadId) (replies : List Reply)
    (fault : Option Fault) (below : Stack .replies) (hb : below.natives = [])
    (h : finish w id replies fault below = .next v u started) :
    Careful w ⟨id, .finish replies fault below⟩ v u := by
  cases below with
  | hook label ending below =>
      cases h
      exact .of_still ht (.of_eq rfl rfl rfl rfl) hb
  | callback label next below =>
      cases h
      obtain ⟨hnext, hbelow⟩ := List.append_eq_nil_iff.mp hb
      have hran : w.Still (w.record (.ran label replies)) := .of_eq rfl rfl rfl rfl
      have hnatives : (w.record (.ran label replies)).Tallied next.natives :=
        hnext ▸ ht.still hran
      exact ⟨hnatives.proceed.after hran.minds, hbelow⟩
  | body p m ending below =>
      cases h
      exact .of_still ht (.refl w) hb
  | joined caller below =>
      cases h
      exact .of_still ht (.refl w) hb

/-- **Every step is careful.** -/
theorem careful_of_step (order : VisitOrder) (running : List ManagerId) (ht : w.Tallied [])
    (hw : w.WellOwned) (hc : ∀ m k, (m, k) ∈ t.cascades → w.lifecycle? m = some (.closing k))
    (hn : t.natives = []) (hd : t.disturbs = false)
    (h : t.step order w running = .next v u started) : t.Careful w v u := by
  obtain ⟨id, task⟩ := t
  cases task with
  | release x below => exact careful_release ht order id below hn x h
  | settle outcome below => exact careful_settle ht id outcome below hn h
  | sweep m rest failures below =>
      have hm := hc m id (List.mem_cons_self ..)
      exact careful_sweep ht id m rest failures below hn hm h
  | shutdown roots failures below =>
      cases roots <;> cases h
      · exact .of_still ht (still_endShutdown w) hn
      · exact .of_still ht (.refl w) hn
  | closers m left replies caller below =>
      cases left <;> cases h
      · exact .of_still ht (.refl w) hn
      · exact .of_still ht (.of_eq rfl rfl rfl rfl) hn
  | perform c below => exact careful_perform ht hw id running hd below hn h
  | reply r below =>
      cases below with
      | top => cases h
      | script rest replies propagate below =>
          simp only [step, reply] at h
          split at h <;> cases h <;> exact .of_still ht (.refl w) hn
  | script commands replies propagate below =>
      cases commands <;> cases h <;> exact .of_still ht (.refl w) hn
  | finish replies fault below => exact careful_finish ht id replies fault below hn h

/-- What a cascade has yet to release stays so until it is released. -/
theorem owed_of_turn {P : List Command → Prop} (h : t.Turn P w v u started) {m : ManagerId}
    {a : ArrayId} (hw : w.Unreleased a) (hv : v.Unreleased a) (ho : (m, .array a) ∈ t.owed) :
    (m, .array a) ∈ u.owed := by
  cases h with
  | begins n r rest below task isOpen items =>
      rw [owed, task, Task.owed] at ho
      rcases List.mem_append.mp ho with ho | ho
      · cases (Stack.eq_of_mem_claim ho t.id).1
      · exact List.mem_append_right _ ho
  | ends n failures below task =>
      rw [owed, task] at ho
      exact ho
  | serves _ _ x below hserves =>
      rw [hserves.owed] at ho
      rcases List.mem_append.mp ho with ho | ho
      · obtain ⟨rfl, -⟩ := Stack.eq_of_mem_claim ho t.id
        rcases hserves.served with hr | hx | ⟨n, hn, -⟩
        · rw [hv.not_released] at hr
          cases hr
        · exact absurd hw.has hx
        · cases hn
      · exact ho
  | goes _ _ _ hgoes =>
      rw [hgoes.owed]
      exact ho

end Step

end Thread

namespace Machine

variable {order : VisitOrder}

/-- In the step of the thread at a place, the array is let go. -/
def LetsGo (s : Machine) (i : Nat) (a : ArrayId) : Prop :=
  ∃ t, s.threads[i]? = some t ∧ t.LetsGo s.world a

/-- In the step of the thread at a place, the engine itself is asked to make or free an array. -/
def disturbs (s : Machine) (i : Nat) : Bool := (s.threads[i]?).any Thread.disturbs

/-- Where the arrays are that are not released, but for those that were let go. -/
structure Minded (gone : ArrayId → Prop) (s : Machine) : Prop where
  tallied : s.world.Tallied []
  natives : s.natives = []
  minded : ∀ a, s.world.Unreleased a →
    s.world.Managed a ∨ (∃ t ∈ s.threads, ∃ m, (m, .array a) ∈ t.owed) ∨ gone a

variable {s : Machine} {gone : ArrayId → Prop}

theorem Minded.imp {more : ArrayId → Prop} (hm : s.Minded gone) (h : ∀ a, gone a → more a) :
    s.Minded more :=
  ⟨hm.tallied, hm.natives, fun a ha => (hm.minded a ha).imp_right (Or.imp_right (h a))⟩

/-- **Every step keeps it.** -/
theorem Minded.step {s' : Machine} {i : Nat} (hm : s.Minded gone) (hs : s.Sound)
    (h : s.stepAt order i = some s') (hd : s.disturbs i = false) :
    s'.Minded fun a => gone a ∨ s.LetsGo i a := by
  obtain ⟨before, t, after, v, u, started, hlen, hst, rfl⟩ := stepAt_eq_some h
  have hi : s.threads[i]? = some t := by
    rw [hst.threads, ← hlen]
    simp
  have hturn := hst.turn hs.owned
  have hnatives := List.flatMap_eq_nil_iff.mp hm.natives
  have hcareful := Thread.careful_of_step order s.running hm.tallied hs.owned
    (fun m k hk => hs.closing_of_mem hst.mem hk) (hnatives t hst.mem)
    (by simpa only [disturbs, hi, Option.any_some] using hd) hst.step
  have hstarted : ∀ c ∈ started, c.natives = [] := by
    intro c hc
    cases hturn with
    | begins | ends | serves => cases hc
    | goes _ _ _ hgoes =>
        exact List.flatMap_eq_nil_iff.mp (flatMap_started hgoes fun _ _ => rfl) c hc
  refine ⟨hcareful.carries.tallied, ?_, ?_⟩
  · refine List.flatMap_eq_nil_iff.mpr fun c hc => ?_
    rcases hst.came hc with hc | rfl | hc
    · exact hnatives c hc
    · exact hcareful.natives
    · exact hstarted c hc
  · intro a ha
    rcases hcareful.carries.minds a ha with hmanaged | (hgo | ⟨m, ho⟩) | ⟨hw, hnot⟩
    · exact Or.inl hmanaged
    · exact Or.inr (Or.inr (Or.inr ⟨t, hi, hgo⟩))
    · exact Or.inr (Or.inl ⟨u, mem_stepped, m, ho⟩)
    · rcases (hm.minded a hw).resolve_left hnot with ⟨c, hc, m, ho⟩ | hgone
      · rcases hst.stays hc with rfl | hc
        · exact Or.inr (Or.inl ⟨u, mem_stepped, m, Thread.owed_of_turn hturn hw ha ho⟩)
        · exact Or.inr (Or.inl ⟨c, hc, m, ho⟩)
      · exact Or.inr (Or.inr (Or.inl hgone))

/-- When nothing is going on, no cascade has anything to release. -/
theorem Minded.managed_of_idle (hm : s.Minded gone) (hi : s.Idle) {a : ArrayId}
    (ha : s.world.Unreleased a) : s.world.Managed a ∨ gone a := by
  rcases hm.minded a ha with h | ⟨t, ht, m, ho⟩ | h
  · exact Or.inl h
  · rw [owed_of_idle hi ht] at ho
    cases ho
  · exact Or.inr h

theorem Minded.command (hm : s.Minded gone) (hi : s.Idle) (c : Command) :
    (s.world.machine c).Minded gone := by
  refine ⟨hm.tallied, rfl, ?_⟩
  intro a ha
  rcases hm.managed_of_idle hi ha with h | h
  · exact Or.inl h
  · exact Or.inr (Or.inr h)

theorem minded_fresh (config : Config) (draws : Draws) :
    (fresh .host config draws).Minded gone := by
  refine ⟨⟨rfl, Host.stores_nil draws, ?_⟩, rfl, ?_⟩
  · rintro a ⟨m, r, x, hr, -⟩
    simp [fresh, World.start, World.manager?] at hr
  · rintro a ⟨r, hr, -⟩
    simp [fresh, World.start, World.array?] at hr

end Machine

end ArrayLifetimes
