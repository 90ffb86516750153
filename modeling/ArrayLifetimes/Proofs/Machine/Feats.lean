/-
What one step of a thread does to the managers, and what it leaves to be released.

A step runs a command, releases an array or a hook, begins or ends a close, or ends a shutdown;
what else it does is aside.  `Feat` lists these cases in terms of the managers, as `Turn` does
in terms of the stack.

What is due is all that work in progress will release unless something stops it: the rest of
cascades and shutdowns, and the managers of scopes and of closes that have been asked for.
Only four things become due: what a command aims at, a root when a shutdown starts, what a
manager owns when it starts to close, and the manager of a scope when the scope opens.
-/
import ArrayLifetimes.Proofs.Machine.Debts
import ArrayLifetimes.Proofs.World.Deeds

namespace ArrayLifetimes

/-! ### What is due -/

/-- What the work on a stack has yet to release. -/
def Stack.due {want : Want} : Stack want → List Resource
  | .top | .closer _ => []
  | .cascade _ _ rest _ below => rest.items ++ below.due
  | .release _ below => below.due
  | .shutdown _ rest _ below => rest.map .manager ++ below.due
  | .closers m left _ _ below => List.replicate left (.manager m) ++ below.due
  | .script _ _ _ below | .hook _ _ below | .callback _ _ below => below.due
  | .body _ m _ below => .manager m :: below.due
  | .joined _ below => below.due

namespace Task

def due : Task → List Resource
  | .release x below => x :: below.due
  | .sweep _ rest _ below => rest.items ++ below.due
  | .shutdown roots _ below => roots.map .manager ++ below.due
  | .closers m left _ _ below => List.replicate left (.manager m) ++ below.due
  | .settle _ below | .perform _ below | .reply _ below => below.due
  | .script _ _ _ below | .finish _ _ below => below.due

/-- The command that comes next. -/
def command? : Task → Option Command
  | .perform c _ => some c
  | _ => none

end Task

namespace Thread

def due (t : Thread) : List Resource := t.task.due

section

variable (w : World) (t : Thread)

/-- The manager that the step makes, and who is to keep track of it. -/
def created? : Option (Owner × ManagerId) := t.task.command?.bind w.created?

/-- The manager from which the step detaches a child, and the child. -/
def parted? : Option (ManagerId × ManagerId) := t.task.command?.bind w.parted?

/-- The resource that the step attaches to a manager. -/
def attached? : Option Resource := t.task.command?.bind w.attached?

/-- The resource that the step takes away from a manager, with the manager and the key. -/
def detached? : Option (ManagerId × Label × Resource) := t.task.command?.bind w.detached?

/-- What a client asks to be released in person, in the step. -/
def aims (running : List ManagerId) : List Resource :=
  match t.task.command? with
  | some c => (w.perform running c).2.aims
  | none => []

/-- Where it comes from that something is due after the step. -/
inductive Leaves (running : List ManagerId) (x : Resource) : Prop
  | due (h : x ∈ t.due)
  | owned {m : ManagerId} {r : Manager} (hm : .manager m ∈ t.due) (isOpen : w.openManager m = .ok r)
      (h : x ∈ r.owned)
  | aimed (h : x ∈ t.aims w running)
  | root {m : ManagerId} (h : m ∈ w.roots) (hx : x = .manager m)
  | made {o : Owner} {m : ManagerId} (h : t.created? w = some (o, m)) (hx : x = .manager m)

/-- What a step does to the managers. -/
inductive Feat : World → Prop
  | deed {v : World} (h : w.Deed (t.created? w) (t.parted? w) (t.attached? w) v) : Feat v
  | releasesArray (a : ArrayId) (below : Stack .outcome)
      (task : t.task = .release (.array a) below) : Feat (w.releaseArray a).1
  | releasesHook (g : HookId) (below : Stack .outcome) (task : t.task = .release (.hook g) below) :
      Feat (w.takeHook g)
  | begins (m : ManagerId) (r : Manager) (below : Stack .outcome)
      (task : t.task = .release (.manager m) below) (isOpen : w.openManager m = .ok r) :
      Feat (w.beginClose m r t.id).1
  | ends (m : ManagerId) (failures : ReleaseFailures) (below : Stack .outcome)
      (task : t.task = .sweep m ⟨[], []⟩ failures below) : Feat (w.endCascade m failures).1
  | endsShutdown (idle : t.task.command? = none) : Feat w.endShutdown

end

section Step

variable {w v : World} {t u : Thread} {started : List Thread}

/-- A step that is aside. -/
theorem Feat.of_aside (hc : t.task.command? = none) (h : w.Aside v) : t.Feat w v := by
  refine .deed ?_
  simp only [created?, parted?, attached?, hc, Option.bind_none]
  exact h.deed

theorem feat_release (order : VisitOrder) (id : ThreadId) (below : Stack .outcome) (x : Resource)
    (h : release order w id below x = .next v u started) : Feat w ⟨id, .release x below⟩ v := by
  cases x with
  | array a =>
      simp only [release, Step.next.injEq] at h
      obtain ⟨rfl, -, -⟩ := h
      exact .releasesArray a below rfl
  | hook g =>
      simp only [release] at h
      split at h <;> cases h
      · exact .releasesHook g below rfl
      · exact .of_aside rfl (.refl w)
  | manager m =>
      simp only [release] at h
      split at h
      · cases h
        exact .of_aside rfl (.refl w)
      · rename_i r hr
        split at h
        · cases h
          exact .of_aside rfl (.refl w)
        · split at h <;> cases h
          exact .of_aside rfl (.refl w)
        · rename_i hl
          cases h
          exact .begins m r below rfl (World.openManager_eq_ok.mpr ⟨hr, hl⟩)

theorem feat_settle (id : ThreadId) (outcome : Outcome) (below : Stack .outcome)
    (h : settle w id outcome below = .next v u started) :
    Feat w ⟨id, .settle outcome below⟩ v := by
  cases below with
  | closer | closers =>
      cases h
      exact .of_aside rfl (.refl w)
  | cascade m item rest failures below =>
      cases h
      exact .of_aside rfl (World.told_recordItem w m failures outcome item).aside
  | release next below =>
      cases h
      exact .of_aside rfl (World.told_afterRelease w outcome next).aside
  | shutdown root rest failures below =>
      simp only [settle] at h
      split at h <;> cases h
      · exact .of_aside rfl (.refl w)
      · exact .of_aside rfl (.refl w)
      · exact .endsShutdown rfl

theorem feat_sweep (id : ThreadId) (m : ManagerId) (rest : Estate) (failures : ReleaseFailures)
    (below : Stack .outcome) (h : sweep w id m rest failures below = .next v u started) :
    Feat w ⟨id, .sweep m rest failures below⟩ v := by
  obtain ⟨children, resources⟩ := rest
  cases children with
  | cons c children =>
      cases h
      exact .of_aside rfl (.refl w)
  | nil =>
      cases resources with
      | cons e resources =>
          cases h
          exact .of_aside rfl (.refl w)
      | nil =>
          cases h
          exact .ends m failures below rfl

theorem feat_perform (hw : w.WellOwned) (id : ThreadId) (running : List ManagerId) (c : Command)
    (below : Stack .reply) (h : perform w id running c below = .next v u started) :
    Feat w ⟨id, .perform c below⟩ v := by
  have hd := (World.does_perform hw running c).deed
  have hthread : (w.perform running c).1.Aside (w.perform running c).1.newThread.1 :=
    .of_eq rfl rfl rfl rfl
  simp only [perform] at h
  split at h <;> cases h
  case h_6 | h_8 => exact .deed (hd.aside hthread)
  all_goals exact .deed hd

theorem feat_finish (id : ThreadId) (replies : List Reply) (fault : Option Fault)
    (below : Stack .replies) (h : finish w id replies fault below = .next v u started) :
    Feat w ⟨id, .finish replies fault below⟩ v := by
  cases below with
  | hook label ending below =>
      cases h
      exact .of_aside rfl (World.told_record w _).aside
  | callback label next below =>
      cases h
      exact .deed (.fills ((World.told_record w _).aside.fills.trans (World.fills_proceed _ next)))
  | body | joined =>
      cases h
      exact .of_aside rfl (.refl w)

/-- **What a step does to the managers.** -/
theorem feat_of_step (order : VisitOrder) (running : List ManagerId) (hw : w.WellOwned)
    (h : t.step order w running = .next v u started) : t.Feat w v := by
  obtain ⟨id, task⟩ := t
  cases task with
  | release x below => exact feat_release order id below x h
  | settle outcome below => exact feat_settle id outcome below h
  | sweep m rest failures below => exact feat_sweep id m rest failures below h
  | shutdown roots failures below =>
      cases roots <;> cases h
      · exact .endsShutdown rfl
      · exact .of_aside rfl (.refl w)
  | closers m left replies caller below =>
      cases left <;> cases h
      · exact .of_aside rfl (.refl w)
      · exact .of_aside rfl (.of_eq rfl rfl rfl rfl)
  | perform c below => exact feat_perform hw id running c below h
  | reply r below =>
      cases below with
      | top => cases h
      | script rest replies propagate below =>
          simp only [step, reply] at h
          split at h <;> cases h <;> exact .of_aside rfl (.refl w)
  | script commands replies propagate below =>
      cases commands <;> cases h <;> exact .of_aside rfl (.refl w)
  | finish replies fault below => exact feat_finish id replies fault below h

/-! ### What becomes due -/

section Due

variable {running : List ManagerId} {x : Resource}

/-- Something is due after the step, on the thread or on one that it has started. -/
def DueAfter (u : Thread) (started : List Thread) (x : Resource) : Prop :=
  x ∈ u.due ∨ ∃ c ∈ started, x ∈ c.due

theorem DueAfter.mem (h : u.DueAfter [] x) : x ∈ u.due := by
  rcases h with h | ⟨c, hc, -⟩
  · exact h
  · cases hc

/-- What is due is what was before. -/
theorem Leaves.of_subset (h : u.DueAfter [] x) (hs : u.due ⊆ t.due) : t.Leaves w running x :=
  .due (hs h.mem)

theorem leaves_release (order : VisitOrder) (id : ThreadId) (below : Stack .outcome)
    (y : Resource) (h : release order w id below y = .next v u started)
    (hx : u.DueAfter started x) : Leaves w ⟨id, .release y below⟩ running x := by
  have stays : below.due ⊆ (⟨id, .release y below⟩ : Thread).due := List.subset_cons_self _ _
  cases y with
  | array a =>
      simp only [release, Step.next.injEq] at h
      obtain ⟨-, rfl, rfl⟩ := h
      exact .of_subset hx stays
  | hook g =>
      simp only [release] at h
      split at h <;> cases h <;> exact .of_subset hx stays
  | manager m =>
      simp only [release] at h
      split at h
      · cases h
        exact .of_subset hx stays
      · rename_i r hr
        split at h
        · cases h
          exact .of_subset hx stays
        · split at h <;> cases h
          exact .of_subset hx stays
        · rename_i hl
          cases h
          rcases List.mem_append.mp hx.mem with hitem | hbelow
          · refine .owned (List.mem_cons_self ..) (World.openManager_eq_ok.mpr ⟨hr, hl⟩) ?_
            exact (order.items_arrange m ⟨r.children, r.resources.entries⟩).subset hitem
          · exact .due (stays hbelow)

theorem leaves_settle (id : ThreadId) (outcome : Outcome) (below : Stack .outcome)
    (h : settle w id outcome below = .next v u started) (hx : u.DueAfter started x) :
    Leaves w ⟨id, .settle outcome below⟩ running x := by
  cases below with
  | shutdown root rest failures below =>
      simp only [settle] at h
      split at h <;> cases h
      · exact .of_subset hx (List.Subset.refl _)
      · exact .of_subset hx (List.Subset.refl _)
      · exact .of_subset hx (List.subset_append_right _ _)
  | _ =>
      cases h
      exact .of_subset hx (List.Subset.refl _)

theorem leaves_sweep (id : ThreadId) (m : ManagerId) (rest : Estate) (failures : ReleaseFailures)
    (below : Stack .outcome) (h : sweep w id m rest failures below = .next v u started)
    (hx : u.DueAfter started x) : Leaves w ⟨id, .sweep m rest failures below⟩ running x := by
  obtain ⟨children, resources⟩ := rest
  cases children with
  | cons c children =>
      cases h
      exact .of_subset hx (List.Subset.refl _)
  | nil => cases resources <;> cases h <;> exact .of_subset hx (List.Subset.refl _)

theorem leaves_perform (hw : w.WellOwned) (id : ThreadId) (c : Command) (below : Stack .reply)
    (h : perform w id running c below = .next v u started) (hx : u.DueAfter started x) :
    Leaves w ⟨id, .perform c below⟩ running x := by
  have stays : below.due ⊆ (⟨id, .perform c below⟩ : Thread).due := List.Subset.refl _
  have new : x ∈ (w.perform running c).2.due → Leaves w ⟨id, .perform c below⟩ running x := by
    intro hx
    rcases (World.does_perform hw running c).due x hx with haim | ⟨m, hm, rfl⟩ | ⟨o, m, hc, rfl⟩
    · exact .aimed haim
    · exact .root hm rfl
    · exact .made hc rfl
  simp only [perform] at h
  split at h <;> rename_i ha <;> rw [ha] at new <;> cases h
  case h_2 =>
    rcases List.mem_cons.mp hx.mem with rfl | hbelow
    · exact new (List.mem_singleton_self _)
    · exact .due (stays hbelow)
  case h_3 | h_7 =>
    rcases List.mem_append.mp hx.mem with hnew | hbelow
    · exact new hnew
    · exact .due (stays hbelow)
  case h_4 =>
    rcases List.mem_cons.mp hx.mem with rfl | hbelow
    · exact new (List.mem_singleton_self _)
    · exact .due (stays hbelow)
  case h_8 =>
    rcases hx with hbelow | ⟨c, hc, hx⟩
    · exact .due (stays hbelow)
    · rw [List.mem_singleton.mp hc] at hx
      exact new hx
  all_goals exact .of_subset hx stays

/-- **Where it comes from that something is due after a step.** -/
theorem leaves_of_step (order : VisitOrder) (hw : w.WellOwned)
    (h : t.step order w running = .next v u started) (hx : u.DueAfter started x) :
    t.Leaves w running x := by
  obtain ⟨id, task⟩ := t
  cases task with
  | release y below => exact leaves_release order id below y h hx
  | settle outcome below => exact leaves_settle id outcome below h hx
  | sweep m rest failures below => exact leaves_sweep id m rest failures below h hx
  | shutdown roots failures below =>
      cases roots <;> cases h <;> exact .of_subset hx (List.Subset.refl _)
  | closers m left replies caller below =>
      cases left <;> cases h <;> exact .of_subset hx (List.Subset.refl _)
  | perform c below => exact leaves_perform hw id c below h hx
  | reply r below =>
      cases below with
      | top => cases h
      | script rest replies propagate below =>
          simp only [step, reply] at h
          split at h <;> cases h <;> exact .of_subset hx (List.Subset.refl _)
  | script commands replies propagate below =>
      cases commands <;> cases h <;> exact .of_subset hx (List.Subset.refl _)
  | finish replies fault below =>
      cases below <;> cases h <;> exact .of_subset hx (List.Subset.refl _)

end Due

end Step

end Thread

namespace Machine

/-! ### The step of the thread at a place -/

variable (s : Machine) (i : Nat)

/-- The manager that the step makes, and who is to keep track of it. -/
def created? : Option (Owner × ManagerId) := (s.threads[i]?).bind (Thread.created? s.world)

/-- The manager from which the step detaches a child, and the child. -/
def parted? : Option (ManagerId × ManagerId) := (s.threads[i]?).bind (Thread.parted? s.world)

/-- The resource that the step attaches to a manager. -/
def attached? : Option Resource := (s.threads[i]?).bind (Thread.attached? s.world)

/-- The resource that the step takes away from a manager, with the manager and the key. -/
def detached? : Option (ManagerId × Label × Resource) :=
  (s.threads[i]?).bind (Thread.detached? s.world)

/-- What a client asks to be released in person, in the step. -/
def aims : List Resource :=
  match s.threads[i]? with
  | some t => t.aims s.world s.running
  | none => []

end Machine

end ArrayLifetimes
