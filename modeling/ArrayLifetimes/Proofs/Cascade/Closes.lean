/-
A close of a manager as a call.

A thread that closes a manager goes on until its stack has got an outcome.  `Tries` is that
with the leaves whose release begins on the way, in order.  As the steps of one thread are
determined, so are the leaves and the state in which the call returns.

What a close does depends on nothing but the world and the thread it is called on: the stack
below it and the other threads stay as they are.  So `Closes` speaks of worlds only.
-/
import ArrayLifetimes.Proofs.Cascade.Runs
import ArrayLifetimes.Proofs.Machine.Accounted
import ArrayLifetimes.Proofs.Machine.Replay
import ArrayLifetimes.Proofs.CloseComplete

namespace ArrayLifetimes

namespace Machine

/-- The leaf whose release the thread at a place is about to begin. -/
def attempted (s : Machine) (i : Nat) : List Resource :=
  match s.threads[i]? with
  | some t => s.world.attempted t.task
  | none => []

/-- A thread goes on with a release, and begins the releases of some leaves in this order. -/
inductive Tries (order : VisitOrder) (i : Nat) (bottom : Stack .outcome) :
    Machine → List Resource → Machine → Prop
  | refl (s : Machine) : Tries order i bottom s [] s
  | step {s t u : Machine} {xs : List Resource} (h : CallStep order i bottom s t)
      (rest : Tries order i bottom t xs u) : Tries order i bottom s (s.attempted i ++ xs) u

section Tries

variable {order : VisitOrder} {i : Nat} {bottom : Stack .outcome} {s t u : Machine}
  {xs ys : List Resource}

theorem Tries.calls (h : Tries order i bottom s xs t) : Calls order i bottom s t := by
  induction h with
  | refl s => exact .refl
  | step h _ ih => exact .head h ih

/-- The call can go one way only. -/
theorem Tries.unique (h : Tries order i bottom s xs t) (h' : Tries order i bottom s ys u)
    (ht : t.Returned i bottom) (hu : u.Returned i bottom) : xs = ys ∧ t = u := by
  induction h generalizing ys with
  | refl s =>
      cases h' with
      | refl => exact ⟨rfl, rfl⟩
      | step hs _ => exact absurd ht hs.running
  | step hs _ ih =>
      cases h' with
      | refl => exact absurd hu hs.running
      | step hs' rest' =>
          obtain rfl := rightUnique_callStep hs hs'
          obtain ⟨rfl, rfl⟩ := ih rest' ht
          exact ⟨rfl, rfl⟩

/-- A call that has returned has returned once. -/
theorem Calls.eq_of_returned (h : Calls order i bottom s t) (h' : Calls order i bottom s u)
    (ht : t.Returned i bottom) (hu : u.Returned i bottom) : u = t := by
  have hback := Calls.to_returned h' h ht
  rcases hback.cases_head with heq | ⟨a, ha, -⟩
  · exact heq
  · exact absurd hu ha.running

/-- Steps of a thread above a stack are steps of the machine. -/
theorem tries_of_runs {id : ThreadId} {task last : Task} {v : World}
    (h : Runs order id (sizeOf bottom) s.world task xs v last)
    (hi : s.threads[i]? = some ⟨id, task⟩) :
    Tries order i bottom s xs ⟨v, s.threads.set i ⟨id, last⟩⟩ := by
  generalize hw : s.world = w at h
  induction h generalizing s with
  | refl w task =>
      obtain ⟨world, threads⟩ := s
      cases hw
      have hset : threads.set i ⟨id, task⟩ = threads := by
        obtain ⟨hlt, hget⟩ := List.getElem?_eq_some_iff.mp hi
        rw [← hget, List.set_getElem_self]
      rw [hset]
      exact .refl _
  | @step w u v task next last xs busy hstep rest ih =>
      subst hw
      have hlt := (List.getElem?_eq_some_iff.mp hi).1
      have hs : s.stepAt order i = some ⟨u, s.threads.set i ⟨id, next⟩⟩ := by
        refine (stepAt_eq_some_iff hi).mpr ⟨u, _, [], hstep _, ?_⟩
        rw [List.append_nil]
      have hrunning : ¬ s.Returned i bottom := by
        rintro ⟨k, o, hk⟩
        rw [hi, Option.some.injEq, Thread.mk.injEq] at hk
        rw [hk.2] at busy
        exact Nat.lt_irrefl _ busy
      have hattempted : s.attempted i = s.world.attempted task := by
        simp only [attempted, hi]
      have hrest := ih (s := ⟨u, s.threads.set i ⟨id, next⟩⟩) (List.getElem?_set_self hlt) rfl
      rw [List.set_set] at hrest
      rw [← hattempted]
      exact .step ⟨hrunning, hs⟩ hrest

theorem returned_set {id : ThreadId} {task : Task} (hi : s.threads[i]? = some ⟨id, task⟩)
    (v : World) (o : Outcome) :
    (⟨v, s.threads.set i ⟨id, .settle o bottom⟩⟩ : Machine).Returned i bottom :=
  ⟨id, o, List.getElem?_set_self (List.getElem?_eq_some_iff.mp hi).1⟩

end Tries

/-- The engines on the host number their arrays, so no two share memory. -/
theorem Reachable.apart {order : VisitOrder} {kind : EngineKind} {s : Machine}
    (hs : Reachable order kind s) : s.world.Apart := by
  intro hosted
  have hf : kind.Fresh := by
    rw [hs.engineKind] at hosted
    cases kind with
    | foreign f => exact absurd rfl (hosted f)
    | host | recording | bare | lying => trivial
  exact (hs.accounted hf).ledger.apart hosted

end Machine

namespace World

/-- A close of a manager, called in a world, returns an outcome and leaves a world: whatever stack
waits for it, and on whatever machine. -/
def Closes (order : VisitOrder) (id : ThreadId) (w : World) (m : ManagerId) (o : Outcome)
    (v : World) : Prop :=
  ∀ (s : Machine) (i : Nat) (bottom : Stack .outcome), s.world = w →
    s.threads[i]? = some ⟨id, .release (.manager m) bottom⟩ →
    Machine.Calls order i bottom s ⟨v, s.threads.set i ⟨id, .settle o bottom⟩⟩

theorem Closes.unique {order : VisitOrder} {id : ThreadId} {w v v' : World} {m : ManagerId}
    {o o' : Outcome} (h : w.Closes order id m o v) (h' : w.Closes order id m o' v') :
    o = o' ∧ v = v' := by
  let s : Machine := ⟨w, [⟨id, .release (.manager m) (.closer m)⟩]⟩
  have hsame := Machine.Calls.eq_of_returned (h s 0 (.closer m) rfl rfl)
    (h' s 0 (.closer m) rfl rfl) ⟨id, o, rfl⟩ ⟨id, o', rfl⟩
  rw [Machine.mk.injEq] at hsame
  obtain ⟨hv, ht⟩ := hsame
  cases ht
  exact ⟨rfl, hv.symm⟩

end World

/-- The release of a manager is a close. -/
theorem Released.closes {order : VisitOrder} {id : ThreadId} {w v : World} {t : Holding}
    {m : ManagerId} {zs : List (Label × Resource)} {o : Outcome}
    (h : Released order id w t zs v o) (hm : t.id? = some m) : w.Closes order id m o v := by
  intro s i bottom hs hi
  subst hs
  have hrun := h.run bottom
  rw [Holding.resource_of_id? hm] at hrun
  exact (Machine.tries_of_runs hrun hi).calls

/-! ### A session -/

namespace Machine

/-- A manager `p` has a child `d` and a manager `c` that is attached to it.  The release of each leaf
fails: `c` has an array that the engine does not release and a release hook that reports an
error, and a hook of `d` panics.  The session stops where `p` is about to be closed. -/
def failingSession : Machine :=
  replay .byAge
    [(.base "p" none, 2), (.sub "p" "c" none, 2), (.detachSub "p" "c", 2),
      (.attach "p" (.text "c") (.manager "c") none, 2), (.sub "p" "d" none, 2),
      (.allocate "c" "a" (.zeros ⟨[1]⟩ none) none, 2), (.failRelease "a", 2),
      (.attach "c" (.text "k") (.hook "h" [] (.fail (.operationFailed "busy"))) none, 2),
      (.attach "d" (.text "q") (.hook "g" [] (.panic (.text "stop"))) none, 2), (.close "p", 1)]
    (fresh .recording {} fun _ => .zero)

/-- What is below `p` there. -/
def failingTree : Holding :=
  .manager (.text "") ⟨0⟩
    [.manager (.text "") ⟨2⟩ [] [.leaf (.text "q") (.hook ⟨1⟩)]]
    [.manager (.text "c") ⟨1⟩ []
      [.leaf (.array ⟨0⟩) (.array ⟨0⟩), .leaf (.text "k") (.hook ⟨0⟩)]]

theorem reachable_failingSession : Reachable .byAge .recording failingSession :=
  reachable_replay .byAge _ _ _ _

theorem stands_failingSession : failingSession.world.Stands failingTree where
  fits := by
    intro t ht
    simp only [failingTree, Holding.parts_manager, Holding.parts_leaf, List.flatMap_cons,
      List.flatMap_nil, List.append_nil, List.cons_append, List.nil_append, List.mem_cons,
      List.not_mem_nil, or_false] at ht
    have quiet : ∀ {h : HookId} {ending : HookEnd} {label : String} (key : Label),
        failingSession.world.hook? h = some ⟨label, some ⟨[], ending⟩⟩ →
        failingSession.world.Fits (.leaf key (.hook h)) := by
      intro h ending label key hr
      refine .hook key h _ hr ?_
      rintro work hwork
      cases hwork
      rfl
    rcases ht with rfl | rfl | rfl | rfl | rfl | rfl
    · exact .opened _ _ _ rfl (.refl _) rfl (fun c hc => .inl hc) rfl
    · exact .opened _ _ _ rfl (.refl _) rfl (fun c hc => .inl hc) rfl
    · exact quiet _ rfl
    · exact .opened _ _ _ rfl (.refl _) rfl (fun c hc => .inl hc) rfl
    · exact .array _ _ (by decide)
    · exact quiet _ rfl
  ids := by decide
  leaves := by decide

/-- The engine of the session keeps its memory on the host. -/
theorem settled_failingSession (xs : List Resource) : failingSession.world.Settled xs := by
  intro f hf
  cases hf

end Machine

end ArrayLifetimes
