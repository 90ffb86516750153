/-
What becomes of a scope when it ends.

A scope makes a manager for its body and closes it when the body is over, however that has
ended.  The body may have closed the manager before, or the one above it, or may have taken
something out of it.  So what is shown is about the whole time from the begin of the
scope to its reply: the manager is open at the begin and closed at the end, in between it has left
its open state, and what it owned then has been released.

A guard closes its manager when it is dropped, with one exception.  A drop inside the close of
the manager itself, on the same thread, does not wait for that: the close is to go on below.
-/
import ArrayLifetimes.Proofs.Machine.Execution
import ArrayLifetimes.Proofs.Machine.Inheritance
import ArrayLifetimes.Proofs.Machine.Replay

namespace ArrayLifetimes

/-! ### The result of a scope -/

/-- How the end of a body, and the failures of the close after it, make the result of a scope. -/
inductive ScopeResult : BodyResult → ReleaseFailures → Reply → Prop
  | value (v : Json.Value) : ScopeResult (.value v) [] (.answer (.json v))
  | failed (v : Json.Value) (fs : ReleaseFailures) (h : fs ≠ []) :
      ScopeResult (.value v) fs (.fault (.manager (.release fs)))
  /-- A fault of the body goes before the failures of the close. -/
  | fault (f : Fault) (fs : ReleaseFailures) : ScopeResult (.fault f) fs (.fault f)
  | panic (p : Payload) (fs : ReleaseFailures) : ScopeResult (.panic p) fs (.fault (.panic p))

theorem World.exists_scopeResult (w : World) (m : ManagerId) (body : List Reply)
    (fs : ReleaseFailures) (result : BodyResult) : ∃ reply, ScopeResult result fs reply ∧
      (w.endScope m body (.ofFailures fs) result).2 = .answer (.scope body reply) := by
  cases result with
  | value v =>
      cases fs with
      | nil => exact ⟨_, .value v, rfl⟩
      | cons f fs => exact ⟨_, .failed v _ (List.cons_ne_nil f fs), rfl⟩
  | fault f => exact ⟨_, .fault f fs, rfl⟩
  | panic p => exact ⟨_, .panic p fs, rfl⟩

/-! ### The drop of a guard -/

/-- A command drops the guard of a manager, before the release of the manager and a reply: it says
so, or it gives the name of the guard to another one. -/
inductive World.Drops (w : World) : Command → ManagerId → World → Reply → Prop
  | drop {name : Name} {g : ManagerId} (h : w.guardNamed name = .ok g) :
      Drops w (.guardDrop name) g (w.setGuards (w.client.guards.erase name)) (.answer .done)
  | rebind {manager name : Name} {device : Option Device} {m child g : ManagerId} {v : World}
      (hm : w.managerNamed manager = .ok m) (hv : w.newSub m device = .ok (v, child))
      (hg : v.client.guards.get? name = some g) :
      Drops w (.guarded manager name device) g
        ((v.nameManager name child).setGuards (v.client.guards.insert name child))
        (.answer (((v.nameManager name child).setGuards
          (v.client.guards.insert name child)).overviewOf child))

section Drops

variable {w v : World} {c : Command} {g : ManagerId} {reply : Reply}

theorem World.Drops.perform (h : w.Drops c g v reply) : ∃ inUse, ∀ running,
    w.perform running c = (v, .release (.manager g) (.droppedGuard g inUse reply)) := by
  cases h with
  | drop h =>
      refine ⟨none, fun running => ?_⟩
      simp only [World.perform, attempt, performGuardDrop, h, bind, Except.bind, pure, Except.pure]
  | @rebind manager name device m child g v hm hv hg =>
      refine ⟨some m, fun running => ?_⟩
      simp only [World.perform, attempt, performGuarded, hm, hv, hg, mapError_ok, bind,
        Except.bind, pure, Except.pure]

theorem World.Drops.steady (h : w.Drops c g v reply) : w.Steady v := by
  cases h with
  | drop h => exact steady_of_eq rfl rfl rfl (Nat.le_refl _)
  | rebind hm hv hg => exact (steady_newSub hv).trans (steady_of_eq rfl rfl rfl (Nat.le_refl _))

theorem World.Drops.has (h : w.Drops c g v reply) (hw : w.WellOwned) : w.Has (.manager g) := by
  cases h with
  | drop h => exact has_of_guardNamed hw h
  | rebind hm hv hg =>
      obtain ⟨r, -, -, rfl⟩ := newSub_eq_ok hv
      exact hw.client.guards g (Keyed.mem_values_of_get? hg)

end Drops

namespace Machine

/-- A thread takes up a command and gets to its reply, whatever happens in between. -/
structure Performs (order : VisitOrder) (c : Command) (s : Machine) (i : Nat) (k : ThreadId)
    (below : Stack .reply) (s' t : Machine) (r : Reply) : Prop where
  about : s.threads[i]? = some ⟨k, .perform c below⟩
  begun : s.stepAt order i = some s'
  waits : Waits order i below s' t
  replied : t.Replied i below r

/-- A scope has come to its reply: `c` is the manager that it made, and `p` the one above. -/
structure Scoped (order : VisitOrder) (s s' t : Machine) (i : Nat) (p c : ManagerId)
    (ending : BodyEnd) (below : Stack .reply) (r : Reply) : Prop where
  new : ¬ s.world.Has (.manager c)
  isOpen : s'.world.lifecycle? c = some .opened
  child : s'.world.Child p c
  /-- The manager is closed, and what it owned is released. -/
  off : ClosedOff order s' t c
  /-- The body has ended, then the close has, and both make the result. -/
  result : ∃ a j replies fault b k fs reply, Leads order s' a ∧
    a.threads[i]? = some ⟨j, .finish replies fault (.body p c ending below)⟩ ∧ Leads order a b ∧
    b.threads[i]? = some
      ⟨k, .settle (.ofFailures fs) (.release (.endedScope p c replies (ending.result fault)) below)⟩ ∧
    ScopeResult (ending.result fault) fs reply ∧ r = .answer (.scope replies reply)

/-- What scopes and guards do from a state on. -/
structure ScopeProtocol (order : VisitOrder) (kind : EngineKind) (s : Machine) : Prop where
  /-- A scope of an open manager closes what it has made, and reports the right fault. -/
  scope : ∀ {manager name : Name} {device : Option Device} {body : List Command}
    {propagate : Bool} {ending : BodyEnd} {i : Nat} {k : ThreadId} {below : Stack .reply}
    {s' t : Machine} {r : Reply} {p : ManagerId} {q : Manager},
    Performs order (.scope manager name device body propagate ending) s i k below s' t r →
    s.world.managerNamed manager = .ok p → s.world.openManager p = .ok q →
    ∃ c, Scoped order s s' t i p c ending below r
  /-- A guard that is dropped closes its manager, if that is not being closed on the thread. -/
  drop : ∀ {c : Command} {i : Nat} {k : ThreadId} {below : Stack .reply} {s' t : Machine}
    {r reply : Reply} {g : ManagerId}, Performs order c s i k below s' t r →
    s.world.Drops c g s'.world reply → s.world.lifecycle? g ≠ some (.closing k) →
    r = reply ∧ t.world.lifecycle? g = some .closed ∧
      ∀ o, Reachable order kind o → Leads order o s → o.world.lifecycle? g = some .opened →
        ClosedOff order o t g
  /-- If it is, the drop is over at once, and nothing is done but what the command does first. -/
  inside : ∀ {c : Command} {i : Nat} {k : ThreadId} {below : Stack .reply} {v : World}
    {reply : Reply} {g : ManagerId}, s.threads[i]? = some ⟨k, .perform c below⟩ →
    s.world.Drops c g v reply → s.world.lifecycle? g = some (.closing k) →
    Executes order i below s ⟨v, s.threads.set i ⟨k, .reply reply below⟩⟩
  /-- A guard that is given up changes no manager. -/
  into : ∀ {name : Name} {i : Nat} {k : ThreadId} {below : Stack .reply} {s' : Machine}
    {g : ManagerId}, s.threads[i]? = some ⟨k, .perform (.guardInto name) below⟩ →
    s.world.guardNamed name = .ok g → s.stepAt order i = some s' →
    s' = ⟨s.world.setGuards (s.world.client.guards.erase name),
      s.threads.set i ⟨k, .reply (.answer (.stateOnly (s.world.stateOf g))) below⟩⟩ ∧
      ∀ m, s'.world.manager? m = s.world.manager? m

section Protocol

variable {order : VisitOrder} {kind : EngineKind} {s s' t : Machine} {i : Nat} {k : ThreadId}
  {below : Stack .reply} {r reply : Reply} {c : Command} {g : ManagerId} {v : World}

/-- What a scope does first. -/
theorem scope_begun {manager name : Name} {device : Option Device} {body : List Command}
    {propagate : Bool} {ending : BodyEnd} {p : ManagerId} {q : Manager}
    (hi : s.threads[i]? = some
      ⟨k, .perform (.scope manager name device body propagate ending) below⟩)
    (hp : s.world.managerNamed manager = .ok p) (hq : s.world.openManager p = .ok q)
    (hst : s.stepAt order i = some s') :
    ∃ v c, s.world.newSub p device = .ok (v, c) ∧ s'.world = v.nameManager name c ∧
      s'.threads[i]? = some ⟨k, .script body [] propagate (.body p c ending below)⟩ := by
  obtain ⟨⟨v, c⟩, hsub⟩ : ∃ x, s.world.newSub p device = .ok x := by
    rw [World.newSub, hq]
    exact ⟨_, rfl⟩
  obtain ⟨u, started, hstep, hu⟩ := thread_of_stepAt hi hst
  have hperform : s.world.perform s.running (.scope manager name device body propagate ending) =
      (v.nameManager name c, .body p c body propagate ending) := by
    simp only [World.perform, World.attempt, World.performScope, hp, hsub, bind, Except.bind,
      pure, Except.pure]
  simp only [Thread.step, Thread.perform, hperform, Step.next.injEq] at hstep
  obtain ⟨hv, rfl, -⟩ := hstep
  exact ⟨v, c, hsub, hv.symm, hu⟩

/-- Before a scope replies its body ends, and then the close of its manager is asked for. -/
theorem body_ended {p m : ManagerId} {ending : BodyEnd}
    (h : s.Holds i ⟨_, .body p m ending below⟩) (hw : Waits order i below s t)
    (hr : t.Replied i below r) : ∃ a b j replies fault, Leads order s a ∧
      a.threads[i]? = some ⟨j, .finish replies fault (.body p m ending below)⟩ ∧ Next order a b ∧
      b.threads[i]? = some ⟨j, .release (.manager m)
        (.release (.endedScope p m replies (ending.result fault)) below)⟩ ∧
      Waits order i below b t := by
  have hlt : sizeOf below < sizeOf (Stack.body p m ending below) := by
    simp only [Stack.body.sizeOf_spec]
    omega
  obtain ⟨a, b, ⟨j, task⟩, hsa, ha, hpops, hab, hbt⟩ := h.handed (by simp) hlt hw hr
  obtain ⟨replies, fault, rfl⟩ := Task.eq_finish_of_pops hpops
  obtain ⟨u, started, hstep, hb⟩ := thread_of_stepAt ha hab
  simp only [Thread.step, Thread.finish, Step.next.injEq] at hstep
  obtain ⟨-, rfl, -⟩ := hstep
  exact ⟨a, b, j, replies, fault, hsa, ha, .step i hab, hb, hbt⟩

/-- A scope of an open manager closes what it has made, and reports the right fault. -/
theorem Reachable.exists_scoped {manager name : Name} {device : Option Device}
    {body : List Command} {propagate : Bool} {ending : BodyEnd} {p : ManagerId} {q : Manager}
    (hs : Reachable order kind s)
    (h : Performs order (.scope manager name device body propagate ending) s i k below s' t r)
    (hp : s.world.managerNamed manager = .ok p) (hq : s.world.openManager p = .ok q) :
    ∃ m, Scoped order s s' t i p m ending below r := by
  have hs' : Reachable order kind s' := hs.leads (.single (.step i h.begun))
  obtain ⟨v, m, hsub, hv, hscript⟩ := scope_begun h.about hp hq h.begun
  obtain ⟨hnew, hopen, hchild⟩ := World.child_newSub hsub
  have hisOpen : s'.world.lifecycle? m = some .opened := by
    rw [hv]
    exact hopen
  -- the manager is new, so no close of it is on the stack below
  have hnone : ∀ l, (m, l) ∉ below.cascades k := by
    intro l hl
    have hclosing := hs.sound.closing_of_mem (List.mem_of_getElem? h.about) hl
    obtain ⟨x, hx, -⟩ := World.lifecycle?_eq_some.mp hclosing
    exact hnew (World.has_manager_of hx)
  obtain ⟨a, a', j, replies, fault, hsa, ha, haa', ha', hwaits⟩ :=
    body_ended ⟨_, hscript, Stack.self_mem_parts _⟩ h.waits h.replied
  have hsa' : Leads order s' a' := hsa.tail haa'
  have hhas : a'.world.Has (.manager m) := by
    obtain ⟨x, hx, -⟩ := World.lifecycle?_eq_some.mp hisOpen
    exact (hs'.sound.later hsa').has _ (World.has_manager_of hx)
  obtain ⟨b, l, fs, hab, hb, hafter, ht⟩ := closed_of_replied (hs'.leads hsa').sound hhas
    (Stack.not_mem_cascades hnone j j) (.asked ha') hwaits h.replied
  obtain ⟨reply, hresult, hreply⟩ := b.world.exists_scopeResult m replies fs (ending.result fault)
  rw [World.afterRelease] at hafter
  rw [hafter] at hreply
  refine ⟨m, hnew, hisOpen, ?_, hs'.closedOff hisOpen h.waits.leads ht,
    a, j, replies, fault, b, l, fs, reply, hsa, ha, .head haa' hab, hb, hresult, hreply⟩
  rw [hv]
  exact hchild

/-- What the drop of a guard does first. -/
theorem drop_begun (hi : s.threads[i]? = some ⟨k, .perform c below⟩)
    (h : s.world.Drops c g v reply) (hst : s.stepAt order i = some s') : ∃ inUse,
      s'.world = v ∧ s'.threads[i]? = some
        ⟨k, .release (.manager g) (.release (.droppedGuard g inUse reply) below)⟩ := by
  obtain ⟨inUse, hperform⟩ := h.perform
  obtain ⟨u, started, hstep, hu⟩ := thread_of_stepAt hi hst
  simp only [Thread.step, Thread.perform, hperform, Step.next.injEq] at hstep
  obtain ⟨hv, rfl, -⟩ := hstep
  exact ⟨inUse, hv.symm, hu⟩

/-- A guard that is dropped closes its manager, if that is not being closed on the thread. -/
theorem Reachable.closed_of_drop (hs : Reachable order kind s)
    (h : Performs order c s i k below s' t r) (hd : s.world.Drops c g s'.world reply)
    (hg : s.world.lifecycle? g ≠ some (.closing k)) :
    r = reply ∧ t.world.lifecycle? g = some .closed := by
  obtain ⟨inUse, -, hu⟩ := drop_begun h.about hd h.begun
  have hs' : Reachable order kind s' := hs.leads (.single (.step i h.begun))
  have hhas := hd.steady.has _ (hd.has hs.sound.owned)
  have hnone : (g, k) ∉ below.cascades k := by
    intro hmem
    exact hg (hs.sound.closing_of_mem (List.mem_of_getElem? h.about) hmem)
  obtain ⟨b, l, fs, -, -, hafter, ht⟩ :=
    closed_of_replied hs'.sound hhas hnone (.asked hu) h.waits h.replied
  have hreply : (b.world.afterRelease (.ofFailures fs) (.droppedGuard g inUse reply)).2 = reply := by
    cases fs <;> rfl
  rw [hafter] at hreply
  exact ⟨hreply, ht⟩

/-- A guard that is dropped inside the close of its manager is dropped at once. -/
theorem executes_drop (hi : s.threads[i]? = some ⟨k, .perform c below⟩)
    (h : s.world.Drops c g v reply) (hg : s.world.lifecycle? g = some (.closing k)) :
    Executes order i below s ⟨v, s.threads.set i ⟨k, .reply reply below⟩⟩ := by
  have hlt := (List.getElem?_eq_some_iff.mp hi).1
  obtain ⟨inUse, hperform⟩ := h.perform
  have hclosing := h.steady.of_some hg
  obtain ⟨q, hq, hl⟩ := World.lifecycle?_eq_some.mp hclosing
  have hasked : Executes order i below s ⟨v, s.threads.set i
      ⟨k, .release (.manager g) (.release (.droppedGuard g inUse reply) below)⟩⟩ := by
    refine Executes.single hi (by simp) fun running => ?_
    simp only [Thread.step, Thread.perform, hperform]
  have hsettled : Executes order i below s ⟨v, s.threads.set i
      ⟨k, .settle .ok (.release (.droppedGuard g inUse reply) below)⟩⟩ := by
    refine hasked.step hlt (by simp) fun running => ?_
    simp only [Thread.step, Thread.release, hq, hl, if_pos]
  exact hsettled.step hlt (by simp) fun running => rfl

/-- A guard that is given up changes no manager. -/
theorem guardInto_begun {name : Name}
    (hi : s.threads[i]? = some ⟨k, .perform (.guardInto name) below⟩)
    (hg : s.world.guardNamed name = .ok g) (hst : s.stepAt order i = some s') :
    s' = ⟨s.world.setGuards (s.world.client.guards.erase name),
      s.threads.set i ⟨k, .reply (.answer (.stateOnly (s.world.stateOf g))) below⟩⟩ := by
  obtain ⟨v, u, started, hstep, rfl⟩ := (stepAt_eq_some_iff hi).mp hst
  simp only [Thread.step, Thread.perform, World.perform, World.attempt, World.performGuardInto,
    hg, bind, Except.bind, pure, Except.pure] at hstep
  cases hstep
  rw [List.append_nil]

/-- **Scopes and guards close what they have made**, however the work in them has ended. -/
theorem scope_protocol (hs : Reachable order kind s) : ScopeProtocol order kind s where
  scope h hp hq := hs.exists_scoped h hp hq
  drop h hd hg := by
    obtain ⟨hr, ht⟩ := hs.closed_of_drop h hd hg
    refine ⟨hr, ht, ?_⟩
    intro o ho hos hopen
    exact ho.closedOff hopen ((hos.tail (.step _ h.begun)).trans h.waits.leads) ht
  inside hi hd hg := executes_drop hi hd hg
  into hi hg hst := by
    obtain rfl := guardInto_begun hi hg hst
    exact ⟨rfl, fun m => rfl⟩

end Protocol

/-- A scope in whose manager a release hook reports an error.  A scope inside it ends with a panic,
after which another hook closes its manager once more. -/
def failingScope : Machine :=
  replay .byAge
    [(.base "p" none, 1),
      (.scope "p" "s" none
        [.attach "s" (.text "k") (.hook "h" [] (.fail (.operationFailed "busy"))) none,
          .scope "s" "n" none
            [.attach "n" (.text "k") (.hook "g" [.close "n"] .succeed) none] false
            (.panic (.text "stop"))]
        false (.value .null), 0)]
    (fresh .recording {} fun _ => .zero)

theorem scope_protocol_of_failing : ∃ t c r replies fs,
    Scoped .byAge failingScope (advance .byAge 1 failingScope) t 0 ⟨0⟩ c (.value .null) .top r ∧
      r = .answer (.scope replies (.fault (.manager (.release fs)))) ∧
      fs.map (·.code) = [2006] := by
  have hw := waits_of_depth .byAge .top (n := 34) (s := advance .byAge 1 failingScope) (by decide)
  obtain ⟨c, hc⟩ := (scope_protocol (reachable_replay .byAge .recording {} _ _)).scope
    (s := failingScope) ⟨rfl, rfl, hw, ⟨_, rfl⟩⟩ rfl rfl
  exact ⟨_, c, _, _, _, hc, rfl, by decide⟩

/-- The guard of a manager is dropped by a release hook of the manager. -/
def droppedInside : Machine :=
  replay .byAge
    [(.base "p" none, 1), (.guarded "p" "s" none, 1),
      (.attach "s" (.text "k") (.hook "h" [.guardDrop "s"] .succeed) none, 1), (.close "s", 5)]
    (fresh .recording {} fun _ => .zero)

/-- The manager of a scope gets a manager to own that is being closed. -/
def owningClosing : Machine :=
  replay .byAge
    [(.base "p" none, 1), (.base "q" none, 1),
      (.attach "q" (.text "k") (.hook "h" [.scope "p" "s" none
        [.attach "s" (.text "x") (.manager "q") none] false (.value .null)] .succeed) none, 1),
      (.close "q", 5)]
    (fresh .recording {} fun _ => .zero)

/-- **A manager that is being closed already** is not waited for by a scope that owns it, and not by
the drop of its guard. -/
theorem closing_not_awaited :
    (∃ (t : Machine) (below : Stack .reply) (r : Reply) (c : ManagerId) (a : Machine) (q : Manager),
      Performs .byAge (.scope "p" "s" none [.attach "s" (.text "x") (.manager "q") none] false
        (.value .null)) owningClosing 0 ⟨0⟩ below (advance .byAge 1 owningClosing) t r ∧
      ¬ owningClosing.world.Has (.manager c) ∧ t.world.lifecycle? c = some .closed ∧
      Departs .byAge (advance .byAge 1 owningClosing) t c a q ∧ .manager ⟨1⟩ ∈ q.owned ∧
      t.world.isReleased (.manager ⟨1⟩) = false) ∧
    ∃ (t : Machine) (below : Stack .reply) (g : ManagerId),
      Performs .byAge (.guardDrop "s") droppedInside 0 ⟨0⟩ below (advance .byAge 1 droppedInside) t
        (.answer .done) ∧
      droppedInside.world.guardNamed "s" = .ok g ∧
      t.world.lifecycle? g = some (.closing ⟨0⟩) := by
  constructor
  · have hw := waits_of_depth .byAge
      (.script [] [] false (.hook "h" .succeed
        (.cascade ⟨1⟩ (.resource (.text "k")) ⟨[], []⟩ [] (.release .done .top))))
      (n := 11) (s := advance .byAge 1 owningClosing) (by decide)
    have hd : Departs .byAge (advance .byAge 1 owningClosing) (advance .byAge 12 owningClosing)
        ⟨2⟩ (advance .byAge 6 owningClosing) _ :=
      ⟨leads_advance .byAge 5 _, rfl, advance .byAge 7 owningClosing, .step 0 rfl, by decide,
        leads_advance .byAge 5 (advance .byAge 7 owningClosing)⟩
    exact ⟨_, _, _, ⟨2⟩, _, _, ⟨rfl, rfl, hw, ⟨_, rfl⟩⟩, by decide, rfl, hd, by decide, by decide⟩
  · have hw := waits_of_depth .byAge
      (.script [] [] false (.hook "h" .succeed
        (.cascade ⟨1⟩ (.resource (.text "k")) ⟨[], []⟩ [] (.release .done .top))))
      (n := 2) (s := advance .byAge 1 droppedInside) (by decide)
    exact ⟨_, _, ⟨1⟩, ⟨rfl, rfl, hw, ⟨_, rfl⟩⟩, rfl, rfl⟩

end Machine

end ArrayLifetimes
