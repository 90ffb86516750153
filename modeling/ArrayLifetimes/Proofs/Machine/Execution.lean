/-
A command on one thread, until it has its reply.

`Calls` follows a thread up to the outcome of a release.  A command may ask for many of
them, one after the other, and gets its reply later.  As long as the frame of a release is on
the stack the reply does not come, so the calls on the way are parts of the execution.  As the
steps of one thread are determined, so are the reply and the state at it.

The close of a manager is at work on its thread from the begin of the cascade to its end,
whatever happens meanwhile: the thread is about to visit the next item, or the frame of the
cascade is on its stack.  So a close that is waited for never ends with a panic.
-/
import ArrayLifetimes.Proofs.Cascade.Closes
import ArrayLifetimes.Proofs.Machine.Answers

namespace ArrayLifetimes

namespace Machine

/-- A thread takes a step, and the stack of its command has not got the reply before. -/
structure CommandStep (order : VisitOrder) (i : Nat) (below : Stack .reply) (s t : Machine) :
    Prop where
  waiting : ∀ r, ¬ s.Replied i below r
  step : s.stepAt order i = some t

/-- A thread goes on with a command, and with nothing after it. -/
abbrev Executes (order : VisitOrder) (i : Nat) (below : Stack .reply) :
    Machine → Machine → Prop := Relation.ReflTransGen (CommandStep order i below)

section Executes

variable {order : VisitOrder} {i : Nat} {below : Stack .reply} {s t u : Machine}

theorem rightUnique_commandStep : Relator.RightUnique (CommandStep order i below) := by
  intro a b c hb hc
  exact Option.some.inj (hb.step.symm.trans hc.step)

/-- A command that has its reply has got it in one way. -/
theorem Executes.eq_of_replied (h : Executes order i below s t) (h' : Executes order i below s u)
    {r q : Reply} (ht : t.Replied i below r) (hu : u.Replied i below q) : u = t := by
  rcases h.total_of_right_unique rightUnique_commandStep h' with h | h
  · rcases h.cases_head with rfl | ⟨a, ha, -⟩
    · rfl
    · exact absurd ht (ha.waiting r)
  · rcases h.cases_head with rfl | ⟨a, ha, -⟩
    · rfl
    · exact absurd hu (ha.waiting q)

theorem replied_set {id : ThreadId} {task : Task} (hi : s.threads[i]? = some ⟨id, task⟩)
    (v : World) (r : Reply) :
    (⟨v, s.threads.set i ⟨id, .reply r below⟩⟩ : Machine).Replied i below r :=
  ⟨id, List.getElem?_set_self (List.getElem?_eq_some_iff.mp hi).1⟩

/-- One step of a thread that has nothing to reply yet. -/
theorem Executes.single {id : ThreadId} {task next : Task} {v : World}
    (hi : s.threads[i]? = some ⟨id, task⟩) (hne : ∀ r, task ≠ .reply r below)
    (h : ∀ running, (⟨id, task⟩ : Thread).step order s.world running = .next v ⟨id, next⟩ []) :
    Executes order i below s ⟨v, s.threads.set i ⟨id, next⟩⟩ := by
  refine Relation.ReflTransGen.single ⟨?_, ?_⟩
  · rintro r ⟨k, hk⟩
    rw [hi, Option.some.injEq, Thread.mk.injEq] at hk
    exact hne r hk.2
  · refine (stepAt_eq_some_iff hi).mpr ⟨v, _, [], h _, ?_⟩
    rw [List.append_nil]

/-- A release on the way is part of the execution. -/
theorem Calls.executes {bottom : Stack .outcome} (h : Calls order i bottom s t)
    (hs : s.Holds i ⟨_, bottom⟩) (hlt : sizeOf below < sizeOf bottom) :
    Executes order i below s t := by
  induction h using Relation.ReflTransGen.head_induction_on with
  | refl => exact .refl
  | head hst _ ih =>
      refine .head ⟨hs.not_replied hlt, hst.step⟩ (ih ?_)
      rcases hs.of_stepAt hst.step with ha | ⟨-, ⟨k, task⟩, hk, hpops⟩
      · exact ha
      · obtain ⟨o, rfl⟩ := Task.eq_settle_of_pops hpops
        exact absurd ⟨k, o, hk⟩ hst.running

/-- The thread of the command takes one more step. -/
theorem Executes.step {id : ThreadId} {task next : Task} {v w : World}
    (hlt : i < s.threads.length)
    (h : Executes order i below s ⟨w, s.threads.set i ⟨id, task⟩⟩)
    (hne : ∀ r, task ≠ .reply r below)
    (hstep : ∀ running, (⟨id, task⟩ : Thread).step order w running = .next v ⟨id, next⟩ []) :
    Executes order i below s ⟨v, s.threads.set i ⟨id, next⟩⟩ := by
  have hlast := Executes.single (s := ⟨w, s.threads.set i ⟨id, task⟩⟩)
    (List.getElem?_set_self hlt) hne hstep
  rw [List.set_set] at hlast
  exact h.trans hlast

/-- The thread of the command closes a manager on the way. -/
theorem Executes.close {id : ThreadId} {v w : World} {m : ManagerId} {bottom : Stack .outcome}
    {o : Outcome} (hlt : i < s.threads.length)
    (h : Executes order i below s ⟨w, s.threads.set i ⟨id, .release (.manager m) bottom⟩⟩)
    (hsize : sizeOf below < sizeOf bottom) (hclose : w.Closes order id m o v) :
    Executes order i below s ⟨v, s.threads.set i ⟨id, .settle o bottom⟩⟩ := by
  have hi := List.getElem?_set_self (a := (⟨id, .release (.manager m) bottom⟩ : Thread)) hlt
  have hcall := hclose ⟨w, s.threads.set i ⟨id, .release (.manager m) bottom⟩⟩ i bottom rfl hi
  rw [List.set_set] at hcall
  exact h.trans (hcall.executes ⟨_, hi, bottom.self_mem_parts⟩ hsize)

end Executes

/-! ### The close of a manager at work -/

/-- The thread at a place is at work on the close of a manager, whose outcome a stack waits for. -/
inductive Tends (s : Machine) (i : Nat) (m : ManagerId) (bottom : Stack .outcome) : Prop
  | sweep (k : ThreadId) (rest : Estate) (failures : ReleaseFailures)
      (h : s.threads[i]? = some ⟨k, .sweep m rest failures bottom⟩)
  | visit (item : Item) (rest : Estate) (failures : ReleaseFailures)
      (h : s.Holds i ⟨_, .cascade m item rest failures bottom⟩)

/-- The close has come to its end in a step from one machine to another. -/
structure Tended (s : Machine) (i : Nat) (m : ManagerId) (bottom : Stack .outcome)
    (id : ThreadId) (failures : ReleaseFailures) (t : Machine) : Prop where
  last : s.threads[i]? = some ⟨id, .sweep m ⟨[], []⟩ failures bottom⟩
  world : t.world = (s.world.endCascade m failures).1
  settled : t.threads[i]? = some ⟨id, .settle (.ofFailures failures) bottom⟩

section Tends

variable {order : VisitOrder} {s t : Machine} {i : Nat} {m : ManagerId} {bottom : Stack .outcome}
  {id : ThreadId}

theorem ne_idle {task : Task} (hi : s.threads[i]? = some ⟨id, task⟩)
    (hne : ∀ r, task ≠ .reply r .top) : ¬ s.Idle := by
  intro hidle
  obtain ⟨r, hr⟩ := eq_of_reply? (hidle _ (List.mem_of_getElem? hi))
  exact hne r hr

/-- A thread that has not finished stays where it is, or the step is its own. -/
theorem stays_or_stepAt {task : Task} (hi : s.threads[i]? = some ⟨id, task⟩)
    (hne : ∀ r, task ≠ .reply r .top) (hn : Next order s t) :
    t.threads[i]? = some ⟨id, task⟩ ∨ s.stepAt order i = some t := by
  cases hn with
  | command c hidle => exact absurd hidle (ne_idle hi hne)
  | step j hst =>
      by_cases hji : j = i
      · subst hji
        exact Or.inr hst
      · obtain ⟨d, hd⟩ := exists_of_stepAt hst
        obtain ⟨v, u, started, -, rfl⟩ := (stepAt_eq_some_iff hd).mp hst
        refine Or.inl ?_
        rw [getElem?_stepped hi, if_neg hji]

/-- What its own step leads to. -/
theorem thread_of_next {task : Task} (hi : s.threads[i]? = some ⟨id, task⟩)
    (hne : ∀ r, task ≠ .reply r .top) (hn : Next order s t) :
    t.threads[i]? = some ⟨id, task⟩ ∨ ∃ v u started,
      (⟨id, task⟩ : Thread).step order s.world s.running = .next v u started ∧
        t.world = v ∧ t.threads[i]? = some u := by
  rcases stays_or_stepAt hi hne hn with ht | hst
  · exact Or.inl ht
  · obtain ⟨u, started, hstep, ht⟩ := thread_of_stepAt hi hst
    exact Or.inr ⟨_, u, started, hstep, rfl, ht⟩

/-- A close that is at work has not returned. -/
theorem Tends.not_returned (h : s.Tends i m bottom) : ¬ s.Returned i bottom := by
  rintro ⟨k, o, hk⟩
  cases h with
  | sweep k' rest failures h =>
      rw [hk] at h
      cases h
  | visit item rest failures h =>
      obtain ⟨c, hc, hmem⟩ := h
      rw [hk, Option.some.injEq] at hc
      subst hc
      have hle := Stack.sizeOf_le_of_mem_parts hmem
      simp only [Stack.cascade.sizeOf_spec] at hle
      omega

/-- A close that is at work has not replied to anything below it. -/
theorem Tends.not_replied (h : s.Tends i m bottom) {below : Stack .reply}
    (hlt : sizeOf below < sizeOf bottom) (r : Reply) : ¬ s.Replied i below r := by
  cases h with
  | sweep k rest failures h =>
      rintro ⟨k', hk⟩
      rw [hk] at h
      cases h
  | visit item rest failures h =>
      refine h.not_replied ?_ r
      simp only [Stack.cascade.sizeOf_spec]
      omega

/-- **A close stays at work until its cascade has ended**, whatever else happens. -/
theorem Tends.of_next (h : s.Tends i m bottom) (hn : Next order s t) :
    t.Tends i m bottom ∨ ∃ id failures, s.Tended i m bottom id failures t := by
  cases h with
  | sweep k rest failures h =>
      rcases thread_of_next h (fun r => nofun) hn with ht | ⟨v, u, started, hstep, hv, ht⟩
      · exact Or.inl (.sweep k rest failures ht)
      · obtain ⟨children, resources⟩ := rest
        cases children with
        | cons c children =>
            cases hstep
            exact Or.inl (.visit _ _ _ ⟨_, ht, List.mem_cons_self ..⟩)
        | nil =>
            cases resources with
            | cons e resources =>
                cases hstep
                exact Or.inl (.visit _ _ _ ⟨_, ht, List.mem_cons_self ..⟩)
            | nil =>
                cases hstep
                exact Or.inr ⟨k, failures, h, hv, ht⟩
  | visit item rest failures h =>
      rcases h.of_next (by simp) hn with ht | ⟨⟨k, task⟩, hc, hpops, hst⟩
      · exact Or.inl (.visit item rest failures ht)
      · obtain ⟨o, rfl⟩ := Task.eq_settle_of_pops hpops
        obtain ⟨u, started, hstep, ht⟩ := thread_of_stepAt hc hst
        simp only [Thread.step, Thread.settle, Step.next.injEq] at hstep
        obtain ⟨-, rfl, -⟩ := hstep
        exact Or.inl (.sweep k rest _ ht)

/-- The begin of the release of a manager: the thread has not moved, or the close is at work, or
there was nothing to be done. -/
theorem release_of_next (hi : s.threads[i]? = some ⟨id, .release (.manager m) bottom⟩)
    (hn : Next order s t) :
    t.threads[i]? = some ⟨id, .release (.manager m) bottom⟩ ∨ t.Tends i m bottom ∨
      (t.threads[i]? = some ⟨id, .settle .ok bottom⟩ ∧ t.world = s.world ∧
        ∀ l, s.world.lifecycle? m = some l → l = .closed ∨ l = .closing id) := by
  rcases thread_of_next hi (fun r => nofun) hn with ht | ⟨v, u, started, hstep, hv, ht⟩
  · exact Or.inl ht
  · refine Or.inr ?_
    simp only [Thread.step, Thread.release] at hstep
    split at hstep
    · rename_i hm
      cases hstep
      refine Or.inr ⟨ht, hv, fun l hl => ?_⟩
      rw [World.lifecycle?, hm] at hl
      cases hl
    · rename_i r hm
      have hlife : ∀ l, s.world.lifecycle? m = some l → l = r.lifecycle := by
        intro l hl
        rw [World.lifecycle?, hm, Option.map_some, Option.some.injEq] at hl
        exact hl.symm
      split at hstep
      · rename_i hl
        cases hstep
        exact Or.inr ⟨ht, hv, fun l h => Or.inl ((hlife l h).trans hl)⟩
      · rename_i k hl
        split at hstep <;> cases hstep
        rename_i hk
        exact Or.inr ⟨ht, hv, fun l h => Or.inr ((hlife l h).trans (hk ▸ hl))⟩
      · cases hstep
        exact Or.inl (.sweep _ _ _ ht)

/-- How far the close is that a thread has asked for. -/
inductive ClosePhase (s : Machine) (i : Nat) (m : ManagerId) (id : ThreadId)
    (bottom : Stack .outcome) : Prop
  | asked (h : s.threads[i]? = some ⟨id, .release (.manager m) bottom⟩)
  | tended (h : s.Tends i m bottom)
  | ended (k : ThreadId) (failures : ReleaseFailures)
      (h : s.threads[i]? = some ⟨k, .settle (.ofFailures failures) bottom⟩)
      (closed : s.world.lifecycle? m = some .closed)

/-- The close ends with the manager closed, unless it is a part of a close of that manager. -/
theorem ClosePhase.of_next (h : s.ClosePhase i m id bottom) (hs : s.Sound)
    (hm : s.world.Has (.manager m)) (hnot : (m, id) ∉ bottom.cascades id)
    (hn : Next order s t) :
    t.ClosePhase i m id bottom ∨ ∃ k failures,
      s.threads[i]? = some ⟨k, .settle (.ofFailures failures) bottom⟩ ∧
        s.world.lifecycle? m = some .closed ∧ s.stepAt order i = some t := by
  cases h with
  | asked h =>
      rcases release_of_next h hn with ht | htends | ⟨ht, hv, hl⟩
      · exact Or.inl (.asked ht)
      · exact Or.inl (.tended htends)
      · refine Or.inl (.ended id [] ht ?_)
        obtain ⟨r, hr⟩ := World.exists_of_has_manager hm
        have hlife : s.world.lifecycle? m = some r.lifecycle :=
          World.lifecycle?_eq_some.mpr ⟨r, hr, rfl⟩
        rw [hv, hlife]
        rcases hl _ hlife with hclosed | hclosing
        · exact congrArg some hclosed
        · -- the cascade would be on the stack below
          rw [hclosing] at hlife
          obtain ⟨u, hu, hmem⟩ := hs.exists_of_closing hlife
          have hsame := hs.eq_of_mem_ids hu (List.mem_of_getElem? h)
            (Thread.mem_ids_of_cascades hmem) (List.mem_cons_self ..)
          subst hsame
          exact absurd hmem hnot
  | tended h =>
      rcases h.of_next hn with ht | ⟨k, failures, ht⟩
      · exact Or.inl (.tended ht)
      · refine Or.inl (.ended k failures ht.settled ?_)
        rw [ht.world, (World.ended_endCascade hm failures).lifecycle? hm, if_pos rfl]
  | ended k failures h closed =>
      rcases stays_or_stepAt h (fun r => nofun) hn with ht | hst
      · refine Or.inl (.ended k failures ht ?_)
        obtain ⟨l, hl, rfl⟩ := (hs.later (.single hn)).lifecycle m _ closed
        exact hl
      · exact Or.inr ⟨k, failures, h, closed, hst⟩

/-- **A command that asks for the close of a manager goes on when the manager is closed**, with the
failures of its cascade, unless that is a part of a close of the manager itself. -/
theorem closed_of_replied {next : AfterRelease} {below : Stack .reply} (hs : s.Sound)
    (hm : s.world.Has (.manager m)) (hnot : (m, id) ∉ below.cascades id)
    (h : s.ClosePhase i m id (.release next below)) (hw : Waits order i below s t) {r : Reply}
    (hr : t.Replied i below r) :
    ∃ a k failures, Leads order s a ∧
      a.threads[i]? = some ⟨k, .settle (.ofFailures failures) (.release next below)⟩ ∧
      a.world.afterRelease (.ofFailures failures) next = (t.world, r) ∧
      t.world.lifecycle? m = some .closed := by
  have hlt : sizeOf below < sizeOf (Stack.release next below) := by
    simp only [Stack.release.sizeOf_spec]
    omega
  induction hw using Relation.ReflTransGen.head_induction_on with
  | refl =>
      obtain ⟨k, hk⟩ := hr
      cases h with
      | asked h =>
          rw [hk] at h
          cases h
      | tended h => exact absurd ⟨k, hk⟩ (h.not_replied hlt r)
      | ended k' failures h closed =>
          rw [hk] at h
          cases h
  | @head s b hst hbt ih =>
      rcases h.of_next hs hm hnot hst.next with hb | ⟨k, failures, hk, hclosed, hstep⟩
      · obtain ⟨a, k, failures, hlead, hrest⟩ := ih (hs.leads (.single hst.next))
          ((hs.later (.single hst.next)).has _ hm) hb
        exact ⟨a, k, failures, .head hst.next hlead, hrest⟩
      · obtain ⟨u, started, hu, hb⟩ := thread_of_stepAt hk hstep
        simp only [Thread.step, Thread.settle, Step.next.injEq] at hu
        obtain ⟨hv, rfl, -⟩ := hu
        obtain rfl := Waits.eq_of_replied hbt ⟨k, hb⟩
        obtain ⟨k', hk'⟩ := hr
        rw [hb] at hk'
        cases hk'
        obtain ⟨_, ht, rfl⟩ := (hs.later_step hstep).lifecycle m _ hclosed
        refine ⟨s, k, failures, .refl, hk, ?_, ht⟩
        rw [← hv]

/-- A release of a manager that is called ends with the failures that its cascade has collected. -/
theorem Calls.exists_failures
    (h : Calls order i bottom s t) (hr : t.Returned i bottom)
    (hs : s.threads[i]? = some ⟨id, .release (.manager m) bottom⟩ ∨ s.Tends i m bottom) :
    ∃ k failures, t.threads[i]? = some ⟨k, .settle (.ofFailures failures) bottom⟩ := by
  -- The call may be over with a step, and goes no further then.
  have ends : ∀ {a : Machine} {k : ThreadId} {fs : ReleaseFailures}, Calls order i bottom a t →
      a.threads[i]? = some ⟨k, .settle (.ofFailures fs) bottom⟩ →
      ∃ k failures, t.threads[i]? = some ⟨k, .settle (.ofFailures failures) bottom⟩ := by
    intro a k fs hat ha
    rcases hat.cases_head with rfl | ⟨b, hb, -⟩
    · exact ⟨k, fs, ha⟩
    · exact absurd ⟨k, _, ha⟩ hb.running
  induction h using Relation.ReflTransGen.head_induction_on with
  | refl =>
      rcases hs with hi | htends
      · exact absurd hr (not_returned_of_release hi)
      · exact absurd hr htends.not_returned
  | head hst hrest ih =>
      rcases hs with hi | htends
      · rcases release_of_next hi (.step i hst.step) with hi | htends | ⟨hsettled, -, -⟩
        · exact ih (Or.inl hi)
        · exact ih (Or.inr htends)
        · have hnone : Outcome.ofFailures [] = .ok := rfl
          exact ends hrest (hnone ▸ hsettled)
      · rcases htends.of_next (.step i hst.step) with htends | ⟨k, fs, htended⟩
        · exact ih (Or.inr htends)
        · exact ends hrest htended.settled

end Tends

end Machine

/-- A close reports failures, and never ends with a panic. -/
theorem World.Closes.exists_failures {order : VisitOrder} {id : ThreadId} {w v : World}
    {m : ManagerId} {o : Outcome} (h : w.Closes order id m o v) : ∃ fs, o = .ofFailures fs := by
  let s : Machine := ⟨w, [⟨id, .release (.manager m) (.closer m)⟩]⟩
  have hcalls := h s 0 (.closer m) rfl rfl
  obtain ⟨k, fs, hfs⟩ := hcalls.exists_failures ⟨id, o, rfl⟩ (Or.inl rfl)
  cases hfs
  exact ⟨fs, rfl⟩

end ArrayLifetimes
