/-
The protocol of handles over whole runs.

The ledger of handles is in order in every reachable state.  So the calls that managers have
made to the engine follow the protocol: what is released is not mentioned again.  A release
hook follows it because its work is taken out of it before it runs.
-/
import ArrayLifetimes.Proofs.Machine.Accounted
import ArrayLifetimes.Proofs.Machine.Replay

namespace ArrayLifetimes

namespace Machine

variable {order : VisitOrder} {kind : EngineKind}

/-! ### Release hooks -/

/-- In a step of the thread at a place, the work of a release hook begins to run. -/
structure RunsHook (order : VisitOrder) (s : Machine) (i : Nat) (h : HookId) (s' : Machine) :
    Prop where
  step : s.stepAt order i = some s'
  runs : ∃ id below commands label ending,
    s.threads[i]? = some ⟨id, .release (.hook h) below⟩ ∧
    s'.threads[i]? = some ⟨id, .script commands [] false (.hook label ending below)⟩

/-- The hook has its work before it runs, and does not have it afterwards. -/
theorem RunsHook.spent {s s' : Machine} {i : Nat} {h : HookId} (hr : RunsHook order s i h s') :
    s.world.isReleased (.hook h) = false ∧ s'.world.isReleased (.hook h) = true := by
  obtain ⟨hstep, id, below, commands, label, ending, ht, ht'⟩ := hr
  simp only [stepAt, ht, Thread.step, Thread.release] at hstep
  cases hh : s.world.hook? h with
  | none =>
      simp only [hh, Option.some.injEq] at hstep
      subst hstep
      have hi := (List.getElem?_eq_some_iff.mp ht).1
      simp [hi] at ht'
  | some r =>
      obtain ⟨l, work⟩ := r
      cases work with
      | none =>
          simp only [hh, Option.some.injEq] at hstep
          subst hstep
          have hi := (List.getElem?_eq_some_iff.mp ht).1
          simp [hi] at ht'
      | some work =>
          simp only [hh, Option.some.injEq] at hstep
          subst hstep
          refine ⟨?_, ?_⟩
          · simp [World.isReleased, hh]
          · simp [World.isReleased, World.hook?_takeHook, hh]

/-! ### The protocol -/

end Machine

end ArrayLifetimes
