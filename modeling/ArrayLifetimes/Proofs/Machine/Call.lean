/-
A close from its call to its return.

A thread that closes a manager works above the stack that waits for the close.  As long as
nothing on the agenda starts a thread, all that is above is work of that thread: the frame
of the manager's own cascade at the bottom, and whatever release hooks have started above
it.  `During` says so of the task, and a step of the thread keeps it until the stack below
gets its outcome.

Such a step is always there, because no other thread closes anything.  By the rank of
machines there are finitely many, so the close returns.
-/
import ArrayLifetimes.Proofs.Machine.Reach
import ArrayLifetimes.Proofs.Machine.Solo

namespace ArrayLifetimes

/-- The stack is work of one thread, above the cascade of a manager. -/
inductive Above (m : ManagerId) (bottom : Stack .outcome) : {want : Want} → Stack want → Prop
  | base (item : Item) (rest : Estate) (failures : ReleaseFailures) :
      Above m bottom (.cascade m item rest failures bottom)
  | cascade (n : ManagerId) (item : Item) (rest : Estate) (failures : ReleaseFailures)
      {σ : Stack .outcome} (h : Above m bottom σ) : Above m bottom (.cascade n item rest failures σ)
  | release (next : AfterRelease) {σ : Stack .reply} (h : Above m bottom σ) :
      Above m bottom (.release next σ)
  | shutdown (root : ManagerId) (rest : List ManagerId) (failures : ReleaseFailures)
      {σ : Stack .reply} (h : Above m bottom σ) : Above m bottom (.shutdown root rest failures σ)
  | script (rest : List Command) (replies : List Reply) (propagate : Bool) {σ : Stack .replies}
      (hr : Solo rest) (h : Above m bottom σ) : Above m bottom (.script rest replies propagate σ)
  | hook (label : String) (ending : HookEnd) {σ : Stack .outcome} (h : Above m bottom σ) :
      Above m bottom (.hook label ending σ)
  | callback (label : String) (next : AfterCallback) {σ : Stack .reply} (h : Above m bottom σ) :
      Above m bottom (.callback label next σ)
  | body (p n : ManagerId) (ending : BodyEnd) {σ : Stack .reply} (h : Above m bottom σ) :
      Above m bottom (.body p n ending σ)

/-- The task belongs to the cascade of a manager that the stack waits for. -/
inductive Task.During (m : ManagerId) (bottom : Stack .outcome) : Task → Prop
  | own (rest : Estate) (failures : ReleaseFailures) :
      During m bottom (.sweep m rest failures bottom)
  | release (x : Resource) {σ : Stack .outcome} (h : Above m bottom σ) :
      During m bottom (.release x σ)
  | settle (o : Outcome) {σ : Stack .outcome} (h : Above m bottom σ) : During m bottom (.settle o σ)
  | sweep (n : ManagerId) (rest : Estate) (failures : ReleaseFailures) {σ : Stack .outcome}
      (h : Above m bottom σ) : During m bottom (.sweep n rest failures σ)
  | shutdown (roots : List ManagerId) (failures : ReleaseFailures) {σ : Stack .reply}
      (h : Above m bottom σ) : During m bottom (.shutdown roots failures σ)
  | perform (c : Command) {σ : Stack .reply} (hc : c.solo = true) (h : Above m bottom σ) :
      During m bottom (.perform c σ)
  | reply (r : Reply) {σ : Stack .reply} (h : Above m bottom σ) : During m bottom (.reply r σ)
  | script (commands : List Command) (replies : List Reply) (propagate : Bool) {σ : Stack .replies}
      (hc : Solo commands) (h : Above m bottom σ) :
      During m bottom (.script commands replies propagate σ)
  | finish (replies : List Reply) (fault : Option Fault) {σ : Stack .replies}
      (h : Above m bottom σ) : During m bottom (.finish replies fault σ)

/-- What is above a stack is larger. -/
theorem Above.sizeOf_lt {m : ManagerId} {bottom : Stack .outcome} {want : Want}
    {σ : Stack want} (h : Above m bottom σ) : sizeOf bottom < sizeOf σ := by
  induction h with
  | base item rest failures =>
      simp only [Stack.cascade.sizeOf_spec]
      omega
  | cascade | release | shutdown | script | hook | callback | body =>
      rename_i ih
      refine Nat.lt_trans ih ?_
      simp only [Stack.cascade.sizeOf_spec, Stack.release.sizeOf_spec, Stack.shutdown.sizeOf_spec,
        Stack.script.sizeOf_spec, Stack.hook.sizeOf_spec, Stack.callback.sizeOf_spec,
        Stack.body.sizeOf_spec]
      omega

/-- Only the thread itself runs a cascade up there. -/
theorem Above.cascades {m n : ManagerId} {bottom : Stack .outcome} {want : Want} {σ : Stack want}
    (h : Above m bottom σ) {id k : ThreadId} (hk : (n, k) ∈ σ.cascades id) :
    k = id ∨ (n, k) ∈ bottom.cascades id := by
  induction h with
  | base item rest failures =>
      rcases List.mem_cons.mp hk with hk | hk
      · exact Or.inl (Prod.mk.inj hk).2
      · exact Or.inr hk
  | cascade p item rest failures h ih =>
      rcases List.mem_cons.mp hk with hk | hk
      · exact Or.inl (Prod.mk.inj hk).2
      · exact ih hk
  | release | shutdown | script | hook | callback | body =>
      rename_i ih
      exact ih hk

theorem Task.During.cascades {m n : ManagerId} {bottom : Stack .outcome} {task : Task}
    (h : task.During m bottom) {id k : ThreadId} (hk : (n, k) ∈ task.cascades id) :
    k = id ∨ (n, k) ∈ bottom.cascades id := by
  cases h with
  | own rest failures =>
      rcases List.mem_cons.mp hk with hk | hk
      · exact Or.inl (Prod.mk.inj hk).2
      · exact Or.inr hk
  | sweep p rest failures hσ =>
      rcases List.mem_cons.mp hk with hk | hk
      · exact Or.inl (Prod.mk.inj hk).2
      · exact hσ.cascades hk
  | release x hσ => exact hσ.cascades hk
  | settle o hσ => exact hσ.cascades hk
  | shutdown roots failures hσ => exact hσ.cascades hk
  | perform c hc hσ => exact hσ.cascades hk
  | reply r hσ => exact hσ.cascades hk
  | script commands replies propagate hc hσ => exact hσ.cascades hk
  | finish replies fault hσ => exact hσ.cascades hk

/-- The stack below has not got its outcome yet. -/
theorem Task.During.ne_settle {m : ManagerId} {bottom : Stack .outcome} {task : Task}
    (h : task.During m bottom) (o : Outcome) : task ≠ .settle o bottom := by
  rintro rfl
  cases h with
  | settle _ hσ => exact Nat.lt_irrefl _ hσ.sizeOf_lt

/-- A command that is performed starts no thread. -/
theorem Task.During.solo {m : ManagerId} {bottom : Stack .outcome} {c : Command}
    {below : Stack .reply} (h : (Task.perform c below).During m bottom) : c.solo = true := by
  cases h with
  | perform _ hc _ => exact hc

namespace Thread

variable {w v : World} {m : ManagerId} {bottom : Stack .outcome} {t u : Thread}
  {started : List Thread}

theorem during_release (hw : w.Agreed Solo) {x : Resource} {σ : Stack .outcome}
    (hσ : Above m bottom σ) {order : VisitOrder} {id : ThreadId}
    (h : release order w id σ x = .next v u started) :
    u.id = id ∧ started = [] ∧ u.task.During m bottom := by
  cases x with
  | array a =>
      cases h
      exact ⟨rfl, rfl, .settle _ hσ⟩
  | hook g =>
      simp only [release] at h
      split at h
      · rename_i label work hg
        cases h
        exact ⟨rfl, rfl, .script _ _ _ (hw.hooks g _ work hg rfl) (.hook _ _ hσ)⟩
      · cases h
        exact ⟨rfl, rfl, .settle _ hσ⟩
  | manager n =>
      simp only [release] at h
      split at h
      · cases h
        exact ⟨rfl, rfl, .settle _ hσ⟩
      · split at h
        · cases h
          exact ⟨rfl, rfl, .settle _ hσ⟩
        · split at h <;> cases h
          exact ⟨rfl, rfl, .settle _ hσ⟩
        · cases h
          exact ⟨rfl, rfl, .sweep _ _ _ hσ⟩

theorem during_perform (hw : w.Agreed Solo) {running : List ManagerId} {c : Command}
    (hc : c.solo = true) {σ : Stack .reply} (hσ : Above m bottom σ) {id : ThreadId}
    (h : perform w id running c σ = .next v u started) :
    u.id = id ∧ started = [] ∧ u.task.During m bottom := by
  have ha := World.solo_perform hw running hc
  unfold perform at h
  simp only at h
  split at h <;> rename_i he <;> rw [he] at ha <;> cases h
  · exact ⟨rfl, rfl, .reply _ hσ⟩
  · exact ⟨rfl, rfl, .release _ (.release _ hσ)⟩
  · exact ⟨rfl, rfl, .shutdown _ _ hσ⟩
  · exact ⟨rfl, rfl, .script _ _ _ ha (.body _ _ _ hσ)⟩
  · exact ⟨rfl, rfl, .script _ _ _ ha (.callback _ _ hσ)⟩
  · exact ha.elim
  · exact ha.elim
  · exact ha.elim

/-- **A cascade goes on with work of its own thread until it ends.** -/
theorem during_step {order : VisitOrder} {running : List ManagerId} (hw : w.Agreed Solo)
    (hd : t.task.During m bottom) (h : t.step order w running = .next v u started) :
    u.id = t.id ∧ started = [] ∧ (u.task.During m bottom ∨
      ∃ failures, t.task = .sweep m ⟨[], []⟩ failures bottom ∧
        v = (w.endCascade m failures).1 ∧ u.task = .settle (.ofFailures failures) bottom) := by
  have goesOn : u.id = t.id ∧ started = [] ∧ u.task.During m bottom →
      u.id = t.id ∧ started = [] ∧ (u.task.During m bottom ∨
        ∃ failures, t.task = .sweep m ⟨[], []⟩ failures bottom ∧
          v = (w.endCascade m failures).1 ∧ u.task = .settle (.ofFailures failures) bottom) :=
    fun ⟨hi, hs, hu⟩ => ⟨hi, hs, Or.inl hu⟩
  obtain ⟨id, task⟩ := t
  cases hd with
  | own rest failures =>
      obtain ⟨children, resources⟩ := rest
      cases children with
      | cons c children =>
          cases h
          exact ⟨rfl, rfl, Or.inl (.release _ (.base _ _ _))⟩
      | nil =>
          cases resources with
          | cons e resources =>
              cases h
              exact ⟨rfl, rfl, Or.inl (.release _ (.base _ _ _))⟩
          | nil =>
              cases h
              exact ⟨rfl, rfl, Or.inr ⟨failures, rfl, rfl, rfl⟩⟩
  | release x hσ => exact goesOn (during_release hw hσ h)
  | settle o hσ =>
      refine goesOn ?_
      cases hσ with
      | base item rest failures =>
          cases h
          exact ⟨rfl, rfl, .own _ _⟩
      | cascade n item rest failures hσ =>
          cases h
          exact ⟨rfl, rfl, .sweep _ _ _ hσ⟩
      | release next hσ =>
          cases h
          exact ⟨rfl, rfl, .reply _ hσ⟩
      | shutdown root rest failures hσ =>
          simp only [step, Thread.settle] at h
          split at h <;> cases h
          · exact ⟨rfl, rfl, .shutdown _ _ hσ⟩
          · exact ⟨rfl, rfl, .shutdown _ _ hσ⟩
          · exact ⟨rfl, rfl, .reply _ hσ⟩
  | sweep n rest failures hσ =>
      refine goesOn ?_
      obtain ⟨children, resources⟩ := rest
      cases children with
      | cons c children =>
          cases h
          exact ⟨rfl, rfl, .release _ (.cascade _ _ _ _ hσ)⟩
      | nil =>
          cases resources with
          | cons e resources =>
              cases h
              exact ⟨rfl, rfl, .release _ (.cascade _ _ _ _ hσ)⟩
          | nil =>
              cases h
              exact ⟨rfl, rfl, .settle _ hσ⟩
  | shutdown roots failures hσ =>
      refine goesOn ?_
      cases roots <;> cases h
      · exact ⟨rfl, rfl, .reply _ hσ⟩
      · exact ⟨rfl, rfl, .release _ (.shutdown _ _ _ hσ)⟩
  | perform c hc hσ => exact goesOn (during_perform hw hc hσ h)
  | reply r hσ =>
      refine goesOn ?_
      cases hσ with
      | script rest replies propagate hr hσ =>
          simp only [step, Thread.reply] at h
          split at h <;> cases h
          · exact ⟨rfl, rfl, .finish _ _ hσ⟩
          · exact ⟨rfl, rfl, .script _ _ _ hr hσ⟩
  | script commands replies propagate hc hσ =>
      refine goesOn ?_
      cases commands with
      | nil =>
          cases h
          exact ⟨rfl, rfl, .finish _ _ hσ⟩
      | cons c rest =>
          obtain ⟨hc, hrest⟩ := solo_cons.mp hc
          cases h
          exact ⟨rfl, rfl, .perform _ hc (.script _ _ _ hrest hσ)⟩
  | finish replies fault hσ =>
      refine goesOn ?_
      cases hσ with
      | hook label ending hσ =>
          cases h
          exact ⟨rfl, rfl, .settle _ hσ⟩
      | callback label next hσ =>
          cases h
          exact ⟨rfl, rfl, .reply _ hσ⟩
      | body p n ending hσ =>
          cases h
          exact ⟨rfl, rfl, .release _ (.release _ hσ)⟩

/-- A cascade never waits where no other thread closes a manager. -/
theorem during_progress (order : VisitOrder) (running : List ManagerId)
    (hd : t.task.During m bottom)
    (alone : ∀ n k, w.lifecycle? n = some (.closing k) → k = t.id) :
    ∃ v u started, t.step order w running = .next v u started := by
  rcases t.progress order w running with hnext | ⟨n, hn⟩ | hr
  · exact hnext
  · obtain ⟨-, k, hk, hne⟩ := awaits?_eq_some.mp hn
    exact absurd (alone n k hk) hne
  · obtain ⟨r, hr⟩ := Machine.eq_of_reply? hr
    rw [hr] at hd
    cases hd with
    | reply r hσ => cases hσ

end Thread

end ArrayLifetimes
