/-
A call that the engine has answered, until its client gets the reply.

Managers get the answer of the engine at once, unless the engine runs commands of a client
first.  Then a frame on the stack keeps the answer.  Whatever runs meanwhile, on this thread
or another, is work above the frame or work elsewhere.  The frame is taken away by one step
only, and that is the one in which managers get the answer.
-/
import ArrayLifetimes.Proofs.Machine.Accounted
import ArrayLifetimes.Proofs.World.Outputs

namespace ArrayLifetimes

/-! ### The engine's answer -/

/-- The engine answers a call that makes arrays for a manager.  The call is that of the command,
the arrays are listed, and then come the world after the answer and what is to be done with it. -/
inductive World.Answers (w : World) :
    Command → ManagerId → List NativeArray → World → AfterCallback → Prop
  | create {manager name : Name} {allocation : Allocation} {check : Option Check} {m : ManagerId}
      {d : Descriptor} {r : AllocationRequest} {v : World} {n : NativeArray}
      (hm : w.managerNamed manager = .ok m) (hd : allocation.descriptor = .ok d)
      (hr : w.requestFor m d = .ok r) (h : w.callCreate .managers r = (v, .ok n)) :
      Answers w (.allocate manager name allocation check) m [n] v (.track m n name check)
  | invoke {manager name : Name} {operation : String} {inputs : List Name} {ps : Params}
      {m : ManagerId} {as : List ArrayId} {handles : List Handle} {v : World}
      {ns : List NativeArray} (hm : w.managerNamed manager = .ok m)
      (ha : inputs.mapM w.arrayNamed = .ok as)
      (hp : w.prepareInvoke m operation as = .ok handles)
      (h : w.callInvoke .managers operation handles ps = (v, .ok ns)) :
      Answers w (.invoke manager operation inputs ps name) m ns v
        (.trackAll m operation ns name)

section Answers

variable {w v : World} {c : Command} {m : ManagerId} {ns rest : List NativeArray}
  {next : AfterCallback}

theorem AfterCallback.Makes.natives (h : next.Makes m ns) : next.natives = ns := by
  cases h <;> rfl

theorem World.Answers.ledger (h : w.Answers c m ns v next) (hf : w.engine.kind.Fresh)
    (hl : w.Ledger rest) : v.Ledger (ns ++ rest) := by
  cases h with
  | create hm hd hr h =>
      exact (Move.create (P := fun _ => True) w v rest .managers _ _ h).ledger hf hl
  | invoke hm ha hp h =>
      simp only [prepareInvoke, bind_eq_ok] at hp
      obtain ⟨-, -, -, -, hlive⟩ := hp
      exact (Move.invoke (P := fun _ => True) w v rest .managers _ _ _ ns
        (fun _ => live_of_liveHandles hlive) h).ledger hf hl

/-- Managers get the answer at once, or the engine runs commands first. -/
theorem World.Answers.perform (h : w.Answers c m ns v next) (running : List ManagerId) :
    w.perform running c = ((v.proceed next).1, .reply (v.proceed next).2) ∨
      ∃ u callback, w.perform running c = (u, .callback callback next) := by
  cases h with
  | @create manager name allocation check m d r v n hm hd hr h =>
      have hperform : w.perform running (.allocate manager name allocation check) =
          v.afterCreate (.track m n name check) := by
        simp only [World.perform, attempt, performAllocate, hm, hd, hr, h, mapError_ok, bind,
          Except.bind, pure, Except.pure]
      rw [hperform, afterCreate]
      split
      · exact Or.inr ⟨_, _, rfl⟩
      · exact Or.inl rfl
  | @invoke manager name operation inputs ps m as handles v ns hm ha hp h =>
      have hperform : w.perform running (.invoke manager operation inputs ps name) =
          v.afterInvoke (.trackAll m operation ns name) := by
        simp only [World.perform, attempt, performInvoke, hm, ha, hp, h, mapError_ok, bind,
          Except.bind, pure, Except.pure]
      rw [hperform, afterInvoke]
      split
      · exact Or.inr ⟨_, _, rfl⟩
      · exact Or.inl rfl

end Answers

/-! ### The frame that keeps it -/

theorem Stack.sizeOf_le_of_mem_parts {want : Want} {σ : Stack want} {p : Sigma Stack}
    (h : p ∈ σ.parts) : sizeOf p.2 ≤ sizeOf σ := by
  induction σ with
  | top | closer =>
      obtain rfl := List.mem_singleton.mp h
      exact Nat.le_refl _
  | _ =>
      rename_i ih
      rcases List.mem_cons.mp h with rfl | h
      · exact Nat.le_refl _
      · have := ih h
        simp only [Stack.cascade.sizeOf_spec, Stack.release.sizeOf_spec,
          Stack.shutdown.sizeOf_spec, Stack.closers.sizeOf_spec, Stack.script.sizeOf_spec,
          Stack.hook.sizeOf_spec, Stack.callback.sizeOf_spec, Stack.body.sizeOf_spec,
          Stack.joined.sizeOf_spec]
        omega

namespace Task

/-- What waits for the outcome of a release gets it from a thread that has one. -/
theorem eq_settle_of_pops {task : Task} {σ : Stack .outcome} (h : task.pops = some ⟨_, σ⟩) :
    ∃ o, task = .settle o σ := by
  cases task with
  | settle o τ =>
      simp only [Task.pops, Option.some.injEq, Sigma.mk.injEq] at h
      exact ⟨o, by rw [eq_of_heq h.2]⟩
  | reply r τ | finish replies fault τ =>
      simp only [Task.pops, Option.some.injEq, Sigma.mk.injEq] at h
      cases h.1
  | _ => cases h

/-- What waits for a list of commands gets their replies from a thread that has them. -/
theorem eq_finish_of_pops {task : Task} {σ : Stack .replies} (h : task.pops = some ⟨_, σ⟩) :
    ∃ replies fault, task = .finish replies fault σ := by
  cases task with
  | finish replies fault τ =>
      simp only [Task.pops, Option.some.injEq, Sigma.mk.injEq] at h
      exact ⟨replies, fault, by rw [eq_of_heq h.2]⟩
  | settle o τ | reply r τ =>
      simp only [Task.pops, Option.some.injEq, Sigma.mk.injEq] at h
      cases h.1
  | _ => cases h

end Task

namespace Machine

/-- The stack of a thread has got its reply. -/
def Replied (s : Machine) (i : Nat) (below : Stack .reply) (r : Reply) : Prop :=
  ∃ k, s.threads[i]? = some ⟨k, .reply r below⟩

theorem Replied.unique {s : Machine} {i : Nat} {below : Stack .reply} {r q : Reply}
    (h : s.Replied i below r) (h' : s.Replied i below q) : r = q := by
  obtain ⟨k, hk⟩ := h
  obtain ⟨k', hk'⟩ := h'
  rw [hk] at hk'
  cases hk'
  rfl

/-- Something happens, and a stack has not got its reply before. -/
structure WaitStep (order : VisitOrder) (i : Nat) (below : Stack .reply) (s t : Machine) :
    Prop where
  waiting : ∀ r, ¬ s.Replied i below r
  next : Next order s t

/-- Anything may happen until a stack gets its reply, and nothing after it. -/
abbrev Waits (order : VisitOrder) (i : Nat) (below : Stack .reply) : Machine → Machine → Prop :=
  Relation.ReflTransGen (WaitStep order i below)

/-- The thread at a place has the frame on its stack. -/
def Holds (s : Machine) (i : Nat) (p : Sigma Stack) : Prop :=
  ∃ c, s.threads[i]? = some c ∧ p ∈ c.task.parts

section Holds

variable {order : VisitOrder} {s t : Machine} {i : Nat} {p : Sigma Stack}

theorem exists_of_stepAt {j : Nat} (h : s.stepAt order j = some t) :
    ∃ c, s.threads[j]? = some c := by
  unfold stepAt at h
  split at h
  · cases h
  · rename_i c hc
    exact ⟨c, hc⟩

/-- A step changes the thread at its place, and leaves the others where they are. -/
theorem getElem?_stepped {j : Nat} {c u : Thread} {v : World} {started : List Thread}
    (hc : s.threads[i]? = some c) :
    (⟨v, s.threads.set j u ++ started⟩ : Machine).threads[i]? = some (if j = i then u else c) := by
  have hi := (List.getElem?_eq_some_iff.mp hc).1
  show (s.threads.set j u ++ started)[i]? = _
  rw [List.getElem?_append_left (by rwa [List.length_set])]
  by_cases hji : j = i
  · subst hji
    rw [if_pos rfl, List.getElem?_set_self hi]
  · rw [if_neg hji, List.getElem?_set_ne hji, hc]

theorem thread_of_stepAt {c : Thread} (hc : s.threads[i]? = some c)
    (h : s.stepAt order i = some t) : ∃ u started,
      c.step order s.world s.running = .next t.world u started ∧ t.threads[i]? = some u := by
  obtain ⟨v, u, started, hstep, rfl⟩ := (stepAt_eq_some_iff hc).mp h
  refine ⟨u, started, hstep, ?_⟩
  rw [getElem?_stepped hc, if_pos rfl]

/-- A reply to what is below the frame does not come as long as the frame is there. -/
theorem Holds.not_replied (h : s.Holds i p) {below : Stack .reply}
    (hlt : sizeOf below < sizeOf p.2) (r : Reply) : ¬ s.Replied i below r := by
  rintro ⟨k, hk⟩
  obtain ⟨c, hc, hmem⟩ := h
  rw [hk, Option.some.injEq] at hc
  subst hc
  exact Nat.not_le.mpr hlt (Stack.sizeOf_le_of_mem_parts hmem)

/-- A client waits as long as there is a frame. -/
theorem Holds.not_idle (h : s.Holds i p) (hp : p ≠ ⟨_, .top⟩) : ¬ s.Idle := by
  intro hidle
  obtain ⟨c, hc, hmem⟩ := h
  obtain ⟨r, hr⟩ := eq_of_reply? (hidle c (List.mem_of_getElem? hc))
  rw [hr, Task.parts, Stack.parts, List.mem_singleton] at hmem
  exact hp hmem

/-- A frame stays until its thread hands it what it waits for. -/
theorem Holds.of_stepAt {j : Nat} (h : s.Holds i p) (hst : s.stepAt order j = some t) :
    t.Holds i p ∨ j = i ∧ ∃ c, s.threads[i]? = some c ∧ c.task.pops = some p := by
  obtain ⟨c, hc, hmem⟩ := h
  by_cases hji : j = i
  · subst hji
    obtain ⟨u, started, hstep, ht⟩ := thread_of_stepAt hc hst
    rcases Thread.parts_of_step order s.running hstep hmem with hmem | hpops
    · exact Or.inl ⟨u, ht, hmem⟩
    · exact Or.inr ⟨rfl, c, hc, hpops⟩
  · obtain ⟨d, hd⟩ := exists_of_stepAt hst
    obtain ⟨v, u, started, -, rfl⟩ := (stepAt_eq_some_iff hd).mp hst
    refine Or.inl ⟨c, ?_, hmem⟩
    rw [getElem?_stepped hc, if_neg hji]

/-- So it does in a run. -/
theorem Holds.of_next (h : s.Holds i p) (hp : p ≠ ⟨_, .top⟩) (hn : Next order s t) :
    t.Holds i p ∨
      ∃ c, s.threads[i]? = some c ∧ c.task.pops = some p ∧ s.stepAt order i = some t := by
  cases hn with
  | command c hidle => exact absurd hidle (h.not_idle hp)
  | step j hst =>
      rcases h.of_stepAt hst with hp | ⟨rfl, c, hc, hpops⟩
      · exact Or.inl hp
      · exact Or.inr ⟨c, hc, hpops, hst⟩

theorem Waits.leads {below : Stack .reply} (h : Waits order i below s t) : Leads order s t :=
  Relation.ReflTransGen.mono (fun _ _ hst => hst.next) _ _ h

/-- **Before there is a reply below a frame, the frame is handed what it waits for**, in one step of
its thread. -/
theorem Holds.handed (h : s.Holds i p) (hp : p ≠ ⟨_, .top⟩) {below : Stack .reply}
    (hlt : sizeOf below < sizeOf p.2) (hw : Waits order i below s t) {r : Reply}
    (hr : t.Replied i below r) :
    ∃ a b c, Leads order s a ∧ a.threads[i]? = some c ∧ c.task.pops = some p ∧
      a.stepAt order i = some b ∧ Waits order i below b t := by
  induction hw using Relation.ReflTransGen.head_induction_on with
  | refl => exact absurd hr (h.not_replied hlt r)
  | @head s b hst hbt ih =>
      rcases h.of_next hp hst.next with hb | ⟨c, hc, hpops, hstep⟩
      · obtain ⟨a, b, c, hlead, hrest⟩ := ih hb
        exact ⟨a, b, c, .head hst.next hlead, hrest⟩
      · exact ⟨s, b, c, .refl, hc, hpops, hstep, hbt⟩

/-- There is nothing to wait for once there is a reply. -/
theorem Waits.eq_of_replied {below : Stack .reply} (h : Waits order i below s t) {r : Reply}
    (hr : s.Replied i below r) : t = s := by
  rcases h.cases_head with rfl | ⟨a, ha, -⟩
  · rfl
  · exact absurd hr (ha.waiting r)

end Holds

section Pending

variable {order : VisitOrder} {s t : Machine} {i : Nat} {label : String}
  {next : AfterCallback} {below : Stack .reply}

end Pending

end Machine

end ArrayLifetimes
