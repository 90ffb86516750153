/-
The ledger of handles along a run.

The arrays that nobody has adopted yet are those on the stacks of all threads.  With them
the ledger is kept by every step of every thread: moves keep it, and so do the two ends of
a close.
-/
import ArrayLifetimes.Proofs.Machine.Reach

namespace ArrayLifetimes

namespace Machine

variable {order : VisitOrder} {kind : EngineKind}

/-- All arrays of the engine that wait for callbacks to end. -/
def natives (s : Machine) : List NativeArray := s.threads.flatMap Thread.natives

/-- No step puts another engine in the place of the one that is there. -/
theorem kind_stepAt {s s' : Machine} {i : Nat} (hs : s.Sound) (h : s.stepAt order i = some s') :
    s'.world.engine.kind = s.world.engine.kind := by
  obtain ⟨before, t, after, v, u, started, -, hst, rfl⟩ := stepAt_eq_some h
  cases hst.turn hs.owned with
  | begins m r rest below task isOpen items => rfl
  | ends m failures below task =>
      have hm := hs.closing_of_mem hst.mem (mem_cascades_of_sweep task)
      obtain ⟨r, hr, -⟩ := World.lifecycle?_eq_some.mp hm
      have he := World.ended_endCascade (World.has_manager_of hr) failures
      exact congrArg Engine.kind he.engine
  | serves _ _ x below hserves => exact (hserves.moves []).kind
  | goes _ _ _ hgoes => exact (hgoes.moves []).kind

theorem Reachable.engineKind {s : Machine} (h : Reachable order kind s) :
    s.world.engine.kind = kind := by
  obtain ⟨config, draws, hs⟩ := h
  induction hs with
  | refl => rfl
  | tail hst hn ih =>
      cases hn with
      | step i h => exact (kind_stepAt ((sound_fresh kind config draws).leads hst) h).trans ih
      | command c h => exact ih

/-- The ledger of a machine is in order, with an engine of the kind. -/
structure Accounted (kind : EngineKind) (s : Machine) : Prop where
  kind : s.world.engine.kind = kind
  ledger : s.world.Ledger s.natives

theorem Accounted.step {s s' : Machine} {i : Nat} (hf : kind.Fresh) (hs : s.Sound)
    (ha : s.Accounted kind) (h : s.stepAt order i = some s') : s'.Accounted kind := by
  obtain ⟨before, t, after, v, u, started, -, hst, rfl⟩ := stepAt_eq_some h
  have hold : s.world.Ledger (t.natives ++ (before ++ after).flatMap Thread.natives) :=
    ha.ledger.perm (hst.perm Thread.natives)
  have hkind := (kind_stepAt hs h).trans ha.kind
  have hnew : started.flatMap Thread.natives = [] →
      v.Ledger (u.natives ++ (before ++ after).flatMap Thread.natives) →
      Accounted kind ⟨v, before ++ u :: after ++ started⟩ := by
    intro hnil hl
    exact ⟨hkind, hl.perm (flatMap_perm_started before u after hnil).symm⟩
  have hfresh : s.world.engine.kind.Fresh := ha.kind ▸ hf
  cases hst.turn hs.owned with
  | begins m r rest below task isOpen items =>
      refine hnew rfl ?_
      have hn : (⟨t.id, .sweep m rest [] below⟩ : Thread).natives = t.natives := by
        simp only [Thread.natives, task, Task.natives]
      rw [hn]
      exact hold.beginClose m r t.id
  | ends m failures below task =>
      have hm := hs.closing_of_mem hst.mem (mem_cascades_of_sweep task)
      obtain ⟨r, hr, -⟩ := World.lifecycle?_eq_some.mp hm
      have he := World.ended_endCascade (World.has_manager_of hr) failures
      refine hnew rfl ?_
      have hn : (⟨t.id, .settle (.ofFailures failures) below⟩ : Thread).natives = t.natives := by
        simp only [Thread.natives, task, Task.natives]
      rw [hn]
      exact he.ledger hold
  | serves _ _ x below hserves =>
      have hm := hserves.moves ((before ++ after).flatMap Thread.natives)
      exact hnew rfl (hm.ledger hfresh hold)
  | goes _ _ _ hgoes =>
      have hm := hgoes.moves ((before ++ after).flatMap Thread.natives)
      exact hnew (flatMap_started hgoes fun _ _ => rfl) (hm.ledger hfresh hold)

theorem Accounted.command {s : Machine} (ha : s.Accounted kind) (c : Command) :
    (s.world.machine c).Accounted kind :=
  ⟨ha.kind, ha.ledger.sublist (List.nil_sublist _)⟩

theorem accounted_fresh (kind : EngineKind) (config : Config) (draws : Draws) :
    (fresh kind config draws).Accounted kind := by
  refine ⟨rfl, List.nodup_nil, ?_, ?_, List.Pairwise.nil⟩
  · intro x hx
    cases hx
  · intro x hx
    cases hx

/-- **In every reachable state the ledger is in order.** -/
theorem Reachable.accounted (hf : kind.Fresh) {s : Machine} (h : Reachable order kind s) :
    s.Accounted kind := by
  obtain ⟨config, draws, hs⟩ := h
  induction hs with
  | refl => exact accounted_fresh kind config draws
  | tail hst hn ih =>
      cases hn with
      | step i h => exact ih.step hf ((sound_fresh kind config draws).leads hst) h
      | command c h => exact ih.command c

end Machine

end ArrayLifetimes
