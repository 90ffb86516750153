/-
A manager that is not open refuses everything, and nothing else happens.

Every operation that would give something to a manager, or take something from it, looks at its
lifecycle before it does anything else that shows.  So for a manager that is closing or closed the
answer is the whole effect: the step of the thread leaves the world as it was, with its journal
and its engine, and the body of a scope is not started.

`Refuses` lists the operations with their answers.  One that makes something answers with the error
that names the manager, unless it has found fault with its arguments before; one that takes
something away answers that there was nothing.
-/
import ArrayLifetimes.Proofs.Machine.Replay

namespace ArrayLifetimes

namespace World

variable {w : World} {m : ManagerId}

/-- The reply of an operation that a manager refuses. -/
def closedReplyOf (m : ManagerId) : Reply := .fault (.manager (closedError m))

/-- The command is an operation of the manager, and this is the answer if it is not open. -/
inductive Refuses (w : World) (m : ManagerId) : Command → Reply → Prop
  | sub {manager name : Name} {device : Option Device} (hm : w.managerNamed manager = .ok m) :
      Refuses w m (.sub manager name device) (closedReplyOf m)
  | guarded {manager name : Name} {device : Option Device} (hm : w.managerNamed manager = .ok m) :
      Refuses w m (.guarded manager name device) (closedReplyOf m)
  /-- None of the body's commands has run. -/
  | scope {manager name : Name} {device : Option Device} {body : List Command} {propagate : Bool}
      {ending : BodyEnd} (hm : w.managerNamed manager = .ok m) :
      Refuses w m (.scope manager name device body propagate ending)
        (.answer (.scope [] (closedReplyOf m)))
  | attach {manager : Name} {k : KeyName} {resource : ResourceName} {displaced : Option Name}
      {key : Label} {u : World} {x : Resource} (hm : w.managerNamed manager = .ok m)
      (hk : w.keyNamed k = .ok key) (hx : w.resourceNamed resource = .ok (u, x)) :
      Refuses w m (.attach manager k resource displaced) (closedReplyOf m)
  | attachArray {manager array : Name} {a : ArrayId} (hm : w.managerNamed manager = .ok m)
      (ha : w.arrayNamed array = .ok a) :
      Refuses w m (.attachArray manager array) (closedReplyOf m)
  | allocate {manager name : Name} {allocation : Allocation} {check : Option Check}
      {d : Descriptor} (hm : w.managerNamed manager = .ok m) (hd : allocation.descriptor = .ok d) :
      Refuses w m (.allocate manager name allocation check) (closedReplyOf m)
  /-- The arguments are wrong already. -/
  | misallocate {manager name : Name} {allocation : Allocation} {check : Option Check}
      {f : ArgumentFault} (hm : w.managerNamed manager = .ok m)
      (hd : allocation.descriptor = .error f) :
      Refuses w m (.allocate manager name allocation check)
        (.fault (.manager (.invalidArgument f)))
  | invoke {manager name : Name} {operation : String} {inputs : List Name} {ps : Params}
      {as : List ArrayId} (hm : w.managerNamed manager = .ok m)
      (hi : inputs.mapM w.arrayNamed = .ok as) :
      Refuses w m (.invoke manager operation inputs ps name) (closedReplyOf m)
  | detach {manager : Name} {k : KeyName} {name : Option Name} {key : Label}
      (hm : w.managerNamed manager = .ok m) (hk : w.keyNamed k = .ok key) :
      Refuses w m (.detach manager k name) (.answer (.displaced none))
  | detachArray {manager array : Name} {a : ArrayId} (hm : w.managerNamed manager = .ok m)
      (ha : w.arrayNamed array = .ok a) :
      Refuses w m (.detachArray manager array) (.answer (.flag false))
  | detachSub {manager child : Name} {c : ManagerId} (hm : w.managerNamed manager = .ok m)
      (hc : w.managerNamed child = .ok c) :
      Refuses w m (.detachSub manager child) (.answer (.child none))

/-! ### What a manager refuses -/

theorem openManager_eq_error (h : w.lifecycle? m ≠ some .opened) :
    w.openManager m = .error (closedError m) := by
  cases hm : w.openManager m with
  | ok r =>
      obtain ⟨hr, hl⟩ := openManager_eq_ok.mp hm
      exact absurd (lifecycle?_eq_some.mpr ⟨r, hr, hl⟩) h
  | error e =>
      unfold openManager at hm
      split at hm
      · split at hm
        · cases hm
        · exact hm.symm
      · exact hm.symm

section Refused

variable (h : w.openManager m = .error (closedError m))
include h

theorem newSub_refused (d : Option Device) : w.newSub m d = .error (closedError m) := by
  simp only [newSub, h, bind, Except.bind]

theorem attach_refused (key : Label) (x : Resource) :
    w.attach m key x = .error (closedError m) := by
  simp only [attach, h, bind, Except.bind]

theorem attachArray_refused (a : ArrayId) : w.attachArray m a = .error (closedError m) := by
  simp only [attachArray, attach_refused h, bind, Except.bind]

theorem detach_refused (key : Label) : w.detach m key = (w, none) := by
  simp only [detach, h]

theorem detachSub_refused (c : ManagerId) : w.detachSub m c = (w, none) := by
  simp only [detachSub, h]

theorem requestFor_refused (d : Descriptor) : w.requestFor m d = .error (closedError m) := by
  simp only [requestFor, h, bind, Except.bind]

theorem prepareInvoke_refused (operation : String) (inputs : List ArrayId) :
    w.prepareInvoke m operation inputs = .error (closedError m) := by
  simp only [prepareInvoke, h, bind, Except.bind]

end Refused

theorem openManager_resourceNamed {r : ResourceName} {u : World} {x : Resource}
    (h : w.resourceNamed r = .ok (u, x)) : u.openManager m = w.openManager m := by
  cases r <;> simp only [resourceNamed, bind_eq_ok, pure, Except.pure, Except.ok.injEq,
    Prod.mk.injEq] at h
  case hook label work ending =>
    obtain ⟨rfl, -⟩ := h
    rfl
  all_goals
    obtain ⟨-, -, rfl, -⟩ := h
    rfl

/-- A manager that is not open answers, and the world stays as it is. -/
theorem Refuses.perform {c : Command} {reply : Reply} (h : w.Refuses m c reply)
    (hm : w.lifecycle? m ≠ some .opened) (running : List ManagerId) :
    w.perform running c = (w, .reply reply) := by
  have hclosed := openManager_eq_error hm
  cases h with
  | sub hn | guarded hn =>
      simp only [World.perform, attempt, performSub, performGuarded, hn, newSub_refused hclosed,
        bind, Except.bind]
      rfl
  | scope hn =>
      simp only [World.perform, attempt, performScope, hn, newSub_refused hclosed, bind,
        Except.bind, pure, Except.pure]
      rfl
  | attach hn hk hx =>
      have hu := (openManager_resourceNamed hx).trans hclosed
      simp only [World.perform, attempt, performAttach, hn, hk, hx, attach_refused hu, bind,
        Except.bind]
      rfl
  | attachArray hn ha =>
      simp only [World.perform, attempt, performAttachArray, hn, ha, attachArray_refused hclosed,
        bind, Except.bind]
      rfl
  | allocate hn hd =>
      simp only [World.perform, attempt, performAllocate, hn, hd, requestFor_refused hclosed,
        bind, Except.bind]
      rfl
  | misallocate hn hd =>
      simp only [World.perform, attempt, performAllocate, hn, hd, bind, Except.bind]
      rfl
  | invoke hn hi =>
      simp only [World.perform, attempt, performInvoke, hn, hi, prepareInvoke_refused hclosed,
        bind, Except.bind]
      rfl
  | detach hn hk =>
      simp only [World.perform, attempt, performDetach, hn, hk, detach_refused hclosed, bind,
        Except.bind, pure, Except.pure, nameDisplaced]
      rfl
  | detachArray hn ha =>
      simp only [World.perform, attempt, performDetachArray, hn, ha, World.detachArray,
        detach_refused hclosed, bind, Except.bind, pure, Except.pure]
      rfl
  | detachSub hn hc =>
      simp only [World.perform, attempt, performDetachSub, hn, hc, detachSub_refused hclosed, bind,
        Except.bind, pure, Except.pure]
      rfl

end World

namespace Machine

/-- **A manager that is not open refuses every operation without effect.**  In any state, also in
the middle of a close, the thread that asks goes on with the answer, and nothing else of the
machine changes. -/
theorem refused_without_effect (order : VisitOrder) {s : Machine} {i : Nat} {id : ThreadId}
    {c : Command} {below : Stack .reply} {m : ManagerId} {reply : Reply}
    (hi : s.threads[i]? = some ⟨id, .perform c below⟩)
    (hm : s.world.lifecycle? m ≠ some .opened) (hr : s.world.Refuses m c reply) :
    s.stepAt order i = some ⟨s.world, s.threads.set i ⟨id, .reply reply below⟩⟩ := by
  have hp := hr.perform hm s.running
  simp only [stepAt, hi, Thread.step, Thread.perform, hp, List.append_nil]

/-- A release hook asks for a new array of the manager whose close runs it. -/
def refusing : Machine :=
  replay .byAge
    [(.base "p" none, 1),
      (.attach "p" (.text "k")
        (.hook "h" [.allocate "p" "x" (.zeros ⟨[2]⟩ none) none] .succeed) none, 1),
      (.close "p", 5)]
    (fresh (.foreign .numbering) {} fun _ => .zero)

/-- The manager is closing, and the hook gets the error. -/
theorem refused_without_effect_closing :
    refusing.world.lifecycle? ⟨0⟩ = some (.closing ⟨0⟩) ∧
    ∃ below, refusing.threads[0]? =
        some ⟨⟨0⟩, .perform (.allocate "p" "x" (.zeros ⟨[2]⟩ none) none) below⟩ ∧
      refusing.stepAt .byAge 0 = some ⟨refusing.world,
        refusing.threads.set 0 ⟨⟨0⟩, .reply (World.closedReplyOf ⟨0⟩) below⟩⟩ := by
  refine ⟨by decide, _, rfl, ?_⟩
  exact refused_without_effect .byAge rfl (by decide) (.allocate rfl rfl)

end Machine

end ArrayLifetimes
