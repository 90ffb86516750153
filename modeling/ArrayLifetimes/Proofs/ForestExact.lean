/-
The forest of managers is exact.

Lists of children and of roots say at any moment, also in the middle of a close, which managers
have been made for whom and have not been closed or detached.  A run is taken with its steps,
because it is they that made and detached managers.

Each step keeps this by what it does to the managers.  Most steps change neither lists nor
lifecycles.  A command that makes a manager puts it on a list, one that detaches a child takes
it off, the begin of a close gives up the list of the manager itself, and the end takes the
manager off the list of its owner.
-/
import ArrayLifetimes.Proofs.Machine.Feats
import ArrayLifetimes.Proofs.NoLeak
import ArrayLifetimes.Proofs.World.Forest

namespace ArrayLifetimes

/-- How a step takes a manager from one lifecycle to another; there may be none before. -/
inductive Lifecycle.Step : Option Lifecycle → Option Lifecycle → Prop
  | stays (l : Option Lifecycle) : Step l l
  | made : Step none (some .opened)
  | begins (k : ThreadId) : Step (some .opened) (some (.closing k))
  | ends (k : ThreadId) : Step (some (.closing k)) (some .closed)

namespace World

variable {w v : World} {made : Owner → ManagerId → Prop} {parted : ManagerId → ManagerId → Prop}

theorem Steady.lifecycleStep (h : w.Steady v) (m : ManagerId) :
    Lifecycle.Step (w.lifecycle? m) (v.lifecycle? m) := by
  rcases h.lifecycle m with hv | ⟨hw, hv⟩
  · rw [hv]
    exact .stays _
  · rw [hw, hv]
    exact .made

/-- A step keeps the forest, with what it makes and parts. -/
theorem Planted.feat {t : Thread} (hp : w.Planted made parted) (hw : w.WellOwned)
    (hc : ∀ m k, (m, k) ∈ t.cascades → w.lifecycle? m = some (.closing k)) (h : t.Feat w v) :
    v.Planted (fun o c => made o c ∨ t.created? w = some (o, c))
      (fun p c => parted p c ∨ t.parted? w = some (p, c)) := by
  -- only commands make managers or part them
  have other : ∀ {u : World}, t.task.command? = none → u.Planted made parted →
      u.Planted (fun o c => made o c ∨ t.created? w = some (o, c))
        (fun p c => parted p c ∨ t.parted? w = some (p, c)) := by
    intro u ht hu
    refine hu.congr (fun _ _ => ?_) (fun _ _ => ?_)
    · simp [Thread.created?, ht]
    · simp [Thread.parted?, ht]
  cases h with
  | deed h => exact hp.deed hw h
  | releasesArray a below task =>
      exact other (by rw [task]; rfl) (hp.same (sameForest_releaseArray w a))
  | releasesHook g below task =>
      exact other (by rw [task]; rfl) (hp.same ⟨fun _ => rfl, rfl⟩)
  | begins m r below task isOpen =>
      exact other (by rw [task]; rfl) (hp.beginClose isOpen t.id)
  | ends m failures below task =>
      exact other (by rw [task]; rfl)
        (hp.endCascade (hc m t.id (Machine.mem_cascades_of_sweep task)) failures)
  | endsShutdown idle => exact other idle hp.endShutdown

theorem Planted.under_iff (hp : w.Planted made parted) {o : Owner} {c : ManagerId} :
    w.Under o c ↔ made o c ∧ w.isReleased (.manager c) = false := by
  have hclosed : ∀ k, w.kin? c = some k →
      (w.isReleased (.manager c) = true ↔ k.lifecycle = .closed) := by
    intro k hk
    obtain ⟨r, hr, rfl⟩ := Option.map_eq_some_iff.mp hk
    rw [isReleased_manager, lifecycle?, hr, Option.map_some, Option.some.injEq]
    rfl
  rw [hp.made_iff, ← Bool.not_eq_true]
  constructor
  · rintro ⟨k, hk, ho, hl⟩
    exact ⟨⟨k, hk, ho⟩, fun hr => hl ((hclosed k hk).mp hr)⟩
  · rintro ⟨⟨k, hk, ho⟩, hn⟩
    exact ⟨k, hk, ho, fun hl => hn ((hclosed k hk).mpr hl)⟩

end World

namespace Machine

variable {order : VisitOrder} {kind : EngineKind} {s t : Machine} {ps : List (Machine × Nat)}

/-! ### One step -/

/-- **A manager moves from open to closing to closed**, and stays where it is otherwise. -/
theorem Sound.lifecycleStep (hs : s.Sound) (h : Next order s t) (m : ManagerId) :
    Lifecycle.Step (s.world.lifecycle? m) (t.world.lifecycle? m) := by
  cases h with
  | command c h => exact .stays _
  | step i h =>
      obtain ⟨before, t, after, v, u, started, -, hst, rfl⟩ := stepAt_eq_some h
      cases hst.turn hs.owned with
      | begins n r rest below task isOpen items =>
          show Lifecycle.Step _ ((s.world.beginClose n r t.id).1.lifecycle? m)
          rw [World.lifecycle?_beginClose _ _ isOpen]
          by_cases hnm : n = m
          · subst hnm
            obtain ⟨hr, hl⟩ := World.openManager_eq_ok.mp isOpen
            rw [if_pos rfl, World.lifecycle?_eq_some.mpr ⟨r, hr, hl⟩]
            exact .begins t.id
          · rw [if_neg hnm]
            exact .stays _
      | ends n failures below task =>
          have hn := hs.closing_of_mem hst.mem (mem_cascades_of_sweep task)
          obtain ⟨r, hr, -⟩ := World.lifecycle?_eq_some.mp hn
          have hx := World.has_manager_of hr
          show Lifecycle.Step _ ((s.world.endCascade n failures).1.lifecycle? m)
          rw [(World.ended_endCascade hx failures).lifecycle? hx]
          by_cases hnm : n = m
          · subst hnm
            rw [if_pos rfl, hn]
            exact .ends t.id
          · rw [if_neg hnm]
            exact .stays _
      | serves _ _ x below hserves => exact (hserves.moves []).steady.lifecycleStep m
      | goes _ _ _ hgoes => exact (hgoes.moves []).steady.lifecycleStep m

/-! ### A run and its steps -/

/-- A step of the run made the manager for the owner. -/
def Made (ps : List (Machine × Nat)) (o : Owner) (c : ManagerId) : Prop :=
  ∃ p ∈ ps, p.1.created? p.2 = some (o, c)

/-- A step of the run detached the child from its parent. -/
def Parted (ps : List (Machine × Nat)) (p c : ManagerId) : Prop :=
  ∃ q ∈ ps, q.1.parted? q.2 = some (p, c)

theorem made_cons {q : Machine × Nat} {o : Owner} {c : ManagerId} :
    Made (q :: ps) o c ↔ Made ps o c ∨ q.1.created? q.2 = some (o, c) := by
  simp only [Made, List.mem_cons, or_and_right, exists_or, exists_eq_left]
  exact or_comm

theorem parted_cons {q : Machine × Nat} {p c : ManagerId} :
    Parted (q :: ps) p c ↔ Parted ps p c ∨ q.1.parted? q.2 = some (p, c) := by
  simp only [Parted, List.mem_cons, or_and_right, exists_or, exists_eq_left]
  exact or_comm

theorem planted_fresh (kind : EngineKind) (config : Config) (draws : Draws) :
    (fresh kind config draws).world.Planted (Made []) (Parted []) := by
  have hnone : ∀ m, (fresh kind config draws).world.kin? m = none := fun _ => rfl
  refine ⟨?_, ?_, ?_, ?_, ?_, List.nodup_nil, ?_, fun _ => rfl⟩
  · intro o c
    simp [Made, hnone]
  · rintro p c ⟨q, hq, -⟩
    cases hq
  · rintro p c ⟨q, hq, -⟩
    cases hq
  · intro p k hk
    rw [hnone] at hk
    cases hk
  · intro p k hk
    rw [hnone] at hk
    cases hk
  · intro _ c
    refine iff_of_false List.not_mem_nil ?_
    rintro ⟨k, hk, -⟩
    rw [hnone] at hk
    cases hk

/-- **Along a run the forest is what the steps have made of it.** -/
theorem Takes.planted {config : Config} {draws : Draws}
    (h : Takes order (fresh kind config draws) ps s) : s.world.Planted (Made ps) (Parted ps) := by
  induction h with
  | refl => exact planted_fresh kind config draws
  | command c h hi ih => exact ih
  | @step qs t _ i h hi ih =>
      have hs := (sound_fresh kind config draws).leads h.leads
      obtain ⟨before, c, after, v, u, started, hlen, hst, rfl⟩ := stepAt_eq_some hi
      have hc : t.threads[i]? = some c := by
        rw [hst.threads, ← hlen]
        simp
      have hp := ih.feat hs.owned (fun m k hk => hs.closing_of_mem hst.mem hk)
        (Thread.feat_of_step order t.running hs.owned hst.step)
      refine hp.congr (fun o m => ?_) (fun p m => ?_)
      · rw [made_cons, created?, hc]
        rfl
      · rw [parted_cons, parted?, hc]
        rfl

theorem Reachable.exists_planted (h : Reachable order kind s) :
    ∃ made parted, s.world.Planted made parted := by
  obtain ⟨config, draws, hleads⟩ := h
  obtain ⟨ps, hps⟩ := exists_takes hleads
  exact ⟨_, _, hps.planted⟩

/-! ### The forest -/

/-- The lists of children and of roots at the end of a run, and the lifecycles of managers from
there on. -/
structure Forest (order : VisitOrder) (ps : List (Machine × Nat)) (s : Machine) : Prop where
  /-- A manager only ever moves from open to closing to closed. -/
  lifecycles : ∀ t, Next order s t → ∀ m,
    Lifecycle.Step (s.world.lifecycle? m) (t.world.lifecycle? m)
  /-- A manager that is not open has neither resources nor children. -/
  given : ∀ m r, s.world.manager? m = some r → r.lifecycle ≠ .opened →
    r.resources = {} ∧ r.children = []
  /-- The children of an open manager are those made for it that were never detached from it and
  are not closed. -/
  children : ∀ p r, s.world.openManager p = .ok r → r.children.Nodup ∧ ∀ c, c ∈ r.children ↔
    Made ps (.parent p) c ∧ ¬ Parted ps p c ∧ s.world.isReleased (.manager c) = false
  /-- The roots are those made for the registry that are not closed, as long as anybody holds the
  registry. -/
  roots : s.world.HasRegistry → s.world.roots.Nodup ∧ ∀ c, c ∈ s.world.roots ↔
    Made ps .registry c ∧ s.world.isReleased (.manager c) = false
  /-- A registry that is gone has no roots. -/
  dropped : ¬ s.world.HasRegistry → s.world.roots = []
  /-- No manager is a child of two. -/
  single : ∀ p q c, s.world.Child p c → s.world.Child q c → p = q
  /-- No manager is below itself. -/
  acyclic : ∀ m, ¬ Relation.TransGen s.world.Child m m

/-- **The forest is exact** in every state of every run. -/
theorem forest_exact (order : VisitOrder) (kind : EngineKind) (config : Config) (draws : Draws)
    {ps : List (Machine × Nat)} {s : Machine}
    (hr : Takes order (fresh kind config draws) ps s) : Forest order ps s := by
  have hs := (sound_fresh kind config draws).leads hr.leads
  have hp := hr.planted
  have holder : ∀ p c, Relation.TransGen s.world.Child p c → p.index < c.index := by
    intro p c h
    induction h with
    | single h => exact hp.older _ _ (hp.child hs.owned h)
    | tail _ h ih => exact Nat.lt_trans ih (hp.older _ _ (hp.child hs.owned h))
  refine ⟨fun t ht => hs.lifecycleStep ht, hs.owned.given, ?_, ?_, hp.dropped, ?_, ?_⟩
  · intro p r hpr
    obtain ⟨hk, hl⟩ := World.kin?_of_openManager hpr
    refine ⟨hp.nodup p _ hk, fun c => (hp.mem_children p _ hk hl c).trans ?_⟩
    rw [hp.under_iff, and_assoc, and_comm (a := s.world.isReleased _ = false)]
  · intro hreg
    exact ⟨hp.nodup_roots, fun c => (hp.mem_roots hreg c).trans hp.under_iff⟩
  · intro p q c hpc hqc
    exact Owner.parent.inj (hp.owner_unique (hp.child hs.owned hpc) (hp.child hs.owned hqc))
  · intro m hm
    exact Nat.lt_irrefl _ (holder m m hm)

/-- A manager with three children.  One is detached, one is closed, and the close of the third has
begun. -/
def pruning : List (Command × Nat) :=
  [(.base "p" none, 1), (.sub "p" "c" none, 1), (.sub "p" "d" none, 1), (.sub "p" "e" none, 1),
    (.detachSub "p" "c", 1), (.close "d", 9), (.close "e", 2)]

def prunedSteps : List (Machine × Nat) :=
  replayed .byAge pruning (fresh (.foreign .numbering) {} fun _ => .zero)

def pruned : Machine := replay .byAge pruning (fresh (.foreign .numbering) {} fun _ => .zero)

/-- The child that closes is the only one left, and the manager is the only root. -/
theorem forest_exact_pruned :
    Takes .byAge (fresh (.foreign .numbering) {} fun _ => .zero) prunedSteps pruned ∧
    pruned.world.lifecycle? ⟨2⟩ = some .closed ∧
    pruned.world.lifecycle? ⟨3⟩ = some (.closing ⟨0⟩) ∧
    (pruned.world.manager? ⟨0⟩).map Manager.children = some [⟨3⟩] ∧
    pruned.world.roots = [⟨0⟩] ∧
    Forest .byAge prunedSteps pruned := by
  have hr : Takes .byAge (fresh (.foreign .numbering) {} fun _ => .zero) prunedSteps pruned :=
    takes_replay .byAge pruning _
  exact ⟨hr, by decide, by decide, by decide, by decide,
    forest_exact .byAge (.foreign .numbering) {} (fun _ => .zero) hr⟩

end Machine

end ArrayLifetimes
