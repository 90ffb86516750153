/-
Runs of a machine, and what holds in every state of them.

A run starts with a new world in which nothing has happened.  Any thread that can take a
step may be next, and when all threads have done their work a client may give another
command.  So a run covers whole sessions, and every way to interleave threads.

The main invariant is `Sound`.  It relates the lifecycles of managers to the stacks: a
manager closes on a thread just when its cascade is on the stack of that thread.  So a
manager that closes is always paid for by work that is still to be done.
-/
import ArrayLifetimes.Machine.Run
import ArrayLifetimes.Proofs.Machine.Turn
import ArrayLifetimes.Proofs.World.Closing
import ArrayLifetimes.Session.Basic

namespace ArrayLifetimes

namespace Machine

/-- All threads have done their work. -/
def Idle (s : Machine) : Prop := ∀ t ∈ s.threads, t.reply?.isSome = true

/-- What can come next: a step of a thread, or another command of the client. -/
inductive Next (order : VisitOrder) : Machine → Machine → Prop
  | step {s t : Machine} (i : Nat) (h : s.stepAt order i = some t) : Next order s t
  | command (s : Machine) (c : Command) (h : s.Idle) : Next order s (s.world.machine c)

/-- A run leads from one state to another. -/
abbrev Leads (order : VisitOrder) : Machine → Machine → Prop :=
  Relation.ReflTransGen (Next order)

/-- A new world on which nothing runs. -/
def fresh (kind : EngineKind) (config : Config) (draws : Draws) : Machine :=
  ⟨World.start kind config draws, []⟩

/-- Some run of a session with an engine of the kind leads there. -/
def Reachable (order : VisitOrder) (kind : EngineKind) (s : Machine) : Prop :=
  ∃ config draws, Leads order (fresh kind config draws) s

theorem Reachable.leads {order : VisitOrder} {kind : EngineKind} {s t : Machine}
    (h : Reachable order kind s) (ht : Leads order s t) : Reachable order kind t := by
  obtain ⟨config, draws, hs⟩ := h
  exact ⟨config, draws, hs.trans ht⟩

/-! ### One step -/

/-- A step takes one thread out of the list and puts back what became of it. -/
structure Stepped (order : VisitOrder) (s : Machine) (before : List Thread) (t : Thread)
    (after : List Thread) (v : World) (u : Thread) (started : List Thread) : Prop where
  threads : s.threads = before ++ t :: after
  step : t.step order s.world s.running = .next v u started

theorem stepAt_eq_some {order : VisitOrder} {s s' : Machine} {i : Nat}
    (h : s.stepAt order i = some s') :
    ∃ before t after v u started, before.length = i ∧
      Stepped order s before t after v u started ∧
      s' = ⟨v, before ++ u :: after ++ started⟩ := by
  unfold stepAt at h
  split at h
  · cases h
  · rename_i t ht
    split at h
    · rename_i v u started hs
      simp only [Option.some.injEq] at h
      obtain ⟨hi, hti⟩ := List.getElem?_eq_some_iff.mp ht
      have hlen : (s.threads.take i).length = i := by
        rw [List.length_take]
        omega
      have hsplit : s.threads = s.threads.take i ++ t :: s.threads.drop (i + 1) := by
        rw [← hti, List.getElem_cons_drop, List.take_append_drop]
      refine ⟨_, t, _, v, u, started, hlen, ⟨hsplit, hs⟩, ?_⟩
      rw [← h, List.set_eq_take_append_cons_drop, if_pos hi]
    · cases h
    · cases h

/-- What the step of a thread at a place is. -/
theorem stepAt_eq_some_iff {order : VisitOrder} {s t : Machine} {i : Nat} {c : Thread}
    (hc : s.threads[i]? = some c) :
    s.stepAt order i = some t ↔ ∃ v u started,
      c.step order s.world s.running = .next v u started ∧
      t = ⟨v, s.threads.set i u ++ started⟩ := by
  simp only [stepAt, hc]
  cases c.step order s.world s.running with
  | next v u started =>
      simp only [Option.some.injEq, Step.next.injEq]
      constructor
      · rintro rfl
        exact ⟨v, u, started, ⟨rfl, rfl, rfl⟩, rfl⟩
      · rintro ⟨_, _, _, ⟨rfl, rfl, rfl⟩, rfl⟩
        rfl
  | ended r => simp
  | waits m => simp

/-- What one step does, for any property that all commands have. -/
theorem Stepped.turn {order : VisitOrder} {s : Machine} {before after started : List Thread}
    {t u : Thread} {v : World} (h : Stepped order s before t after v u started)
    (hw : s.world.WellOwned) : t.Turn (fun _ => True) s.world v u started :=
  Thread.turn_of_step order s.running hw (fun _ _ _ _ _ => trivial) h.step

/-! ### The invariant -/

/-- All cascades that run. -/
def cascades (s : Machine) : List (ManagerId × ThreadId) := s.threads.flatMap Thread.cascades

/-- Two threads have no identity in common. -/
def Apart (t u : Thread) : Prop := ∀ k ∈ t.ids, k ∉ u.ids

theorem Apart.symm {t u : Thread} (h : Apart t u) : Apart u t := fun k hu ht => h k ht hu

structure Sound (s : Machine) : Prop where
  owned : s.world.WellOwned
  /-- A manager closes on a thread just when its cascade runs there. -/
  closing : ∀ m k, s.world.lifecycle? m = some (.closing k) ↔ (m, k) ∈ s.cascades
  /-- No manager has two cascades. -/
  once : (s.cascades.map Prod.fst).Nodup
  /-- No thread is in two places. -/
  apart : s.threads.Pairwise Apart
  known : ∀ t ∈ s.threads, ∀ k ∈ t.ids, k.index < s.world.threads

/-- A manager that closes does so on a thread that runs its cascade. -/
theorem Sound.exists_of_closing {s : Machine} (hs : s.Sound) {m : ManagerId} {k : ThreadId}
    (h : s.world.lifecycle? m = some (.closing k)) : ∃ t ∈ s.threads, (m, k) ∈ t.cascades :=
  List.mem_flatMap.mp ((hs.closing m k).mp h)

/-- Threads at two places have no identity in common. -/
theorem Sound.apart_of_ne {s : Machine} (hs : s.Sound) {i j : Nat} (hne : i ≠ j) {t u : Thread}
    (ht : s.threads[i]? = some t) (hu : s.threads[j]? = some u) : Apart t u := by
  obtain ⟨hi, rfl⟩ := List.getElem?_eq_some_iff.mp ht
  obtain ⟨hj, rfl⟩ := List.getElem?_eq_some_iff.mp hu
  have hpairs := List.pairwise_iff_getElem.mp hs.apart
  rcases Nat.lt_or_gt_of_ne hne with hlt | hlt
  · exact hpairs i j hi hj hlt
  · exact (hpairs j i hj hi hlt).symm

/-- No identity is in two threads. -/
theorem Sound.eq_of_mem_ids {s : Machine} (hs : s.Sound) {t u : Thread} (ht : t ∈ s.threads)
    (hu : u ∈ s.threads) {k : ThreadId} (hkt : k ∈ t.ids) (hku : k ∈ u.ids) : t = u := by
  obtain ⟨i, hi⟩ := List.mem_iff_getElem?.mp ht
  obtain ⟨j, hj⟩ := List.mem_iff_getElem?.mp hu
  by_cases hij : i = j
  · subst hij
    exact Option.some.inj (hi.symm.trans hj)
  · exact absurd hku (hs.apart_of_ne hij hi hj k hkt)

/-- What is listed of all threads, with one of them in front. -/
theorem flatMap_perm {α : Type} (f : Thread → List α) (before : List Thread) (t : Thread)
    (after : List Thread) :
    ((before ++ t :: after).flatMap f).Perm (f t ++ (before ++ after).flatMap f) := by
  rw [List.flatMap_append, List.flatMap_cons, List.flatMap_append]
  exact List.perm_append_comm_assoc _ _ _

/-- A thread that has just been started has nothing on its stack. -/
theorem flatMap_started {α : Type} {f : Thread → List α} {P : List Command → Prop} {w v : World}
    {t u : Thread} {started : List Thread} (h : t.Goes P w v u started)
    (hf : ∀ k m, f ⟨k, .release (.manager m) (.closer m)⟩ = []) : started.flatMap f = [] := by
  rcases h.started with rfl | ⟨-, n, m, -, -, rfl⟩
  · rfl
  · simp [hf]

/-- What is listed of all threads after a step. -/
theorem flatMap_perm_started {α : Type} {f : Thread → List α} (before : List Thread) (u : Thread)
    (after : List Thread) {started : List Thread} (h : started.flatMap f = []) :
    ((before ++ u :: after ++ started).flatMap f).Perm (f u ++ (before ++ after).flatMap f) := by
  rw [List.flatMap_append, h, List.append_nil]
  exact flatMap_perm f before u after

section Turns

variable {P : List Command → Prop} {w v : World} {t u : Thread} {started : List Thread}

/-- The cascade that ends is one that runs. -/
theorem mem_cascades_of_sweep {m : ManagerId} {rest : Estate} {failures : ReleaseFailures}
    {below : Stack .outcome} (h : t.task = .sweep m rest failures below) :
    (m, t.id) ∈ t.cascades := by
  simp only [Thread.cascades, h, Task.cascades]
  exact List.mem_cons_self ..

theorem later_of_turn (h : t.Turn P w v u started)
    (hb : ∀ m k, (m, k) ∈ t.cascades → w.lifecycle? m = some (.closing k)) : w.Later v := by
  cases h with
  | begins m r rest below task isOpen items => exact World.later_beginClose w t.id isOpen
  | ends m failures below task =>
      have hm := hb m t.id (mem_cascades_of_sweep task)
      obtain ⟨r, hr, -⟩ := World.lifecycle?_eq_some.mp hm
      have hx := World.has_manager_of hr
      exact (World.ended_endCascade hx failures).later hx
  | serves _ _ x below h => exact (h.moves []).steady.later
  | goes _ _ _ h => exact (h.moves []).steady.later

theorem wellOwned_of_turn (h : t.Turn P w v u started) (hw : w.WellOwned)
    (hb : ∀ m k, (m, k) ∈ t.cascades → w.lifecycle? m = some (.closing k)) : v.WellOwned := by
  cases h with
  | begins m r rest below task isOpen items => exact hw.beginClose m r t.id
  | ends m failures below task =>
      have hm := hb m t.id (mem_cascades_of_sweep task)
      obtain ⟨r, hr, -⟩ := World.lifecycle?_eq_some.mp hm
      exact (World.ended_endCascade (World.has_manager_of hr) failures).wellOwned hw hm
  | serves _ _ x below h => exact (h.moves []).wellOwned hw
  | goes _ _ _ h => exact (h.moves []).wellOwned hw

end Turns

/-! ### Every step keeps it -/

section Step

variable {order : VisitOrder} {s : Machine} {before after started : List Thread}
  {t u : Thread} {v : World}

theorem Stepped.perm (h : Stepped order s before t after v u started) {α : Type}
    (f : Thread → List α) :
    (s.threads.flatMap f).Perm (f t ++ (before ++ after).flatMap f) := by
  rw [h.threads]
  exact flatMap_perm f before t after

theorem Stepped.mem (h : Stepped order s before t after v u started) : t ∈ s.threads := by
  rw [h.threads]
  exact List.mem_append_right _ (List.mem_cons_self ..)

/-- The cascades of a thread that steps are among all. -/
theorem Sound.closing_of_mem (hs : s.Sound) {m : ManagerId} {k : ThreadId} (ht : t ∈ s.threads)
    (h : (m, k) ∈ t.cascades) : s.world.lifecycle? m = some (.closing k) :=
  (hs.closing m k).mpr (List.mem_flatMap.mpr ⟨t, ht, h⟩)

theorem Sound.cascading (hs : s.Sound) : s.world.Cascading s.cascades := ⟨hs.closing, hs.once⟩

/-- What a step does to all cascades, and to the lifecycles of managers. -/
theorem Sound.closing_step (hs : s.Sound) (h : Stepped order s before t after v u started) :
    v.Cascading (u.cascades ++ (before ++ after).flatMap Thread.cascades) ∧
    started.flatMap Thread.cascades = [] := by
  have hold := hs.cascading.perm (h.perm Thread.cascades)
  cases h.turn hs.owned with
  | begins m r rest below task isOpen items =>
      have hcasc :
          (⟨t.id, .sweep m rest [] below⟩ : Thread).cascades = (m, t.id) :: t.cascades := by
        simp only [Thread.cascades, task, Task.cascades]
      rw [hcasc]
      exact ⟨hold.beginClose isOpen t.id, rfl⟩
  | ends m failures below task =>
      have hcasc : t.cascades = (m, t.id) :: (⟨t.id, .settle (.ofFailures failures) below⟩ :
          Thread).cascades := by
        simp only [Thread.cascades, task, Task.cascades]
      rw [hcasc] at hold
      exact ⟨hold.endCascade failures, rfl⟩
  | serves _ _ x below hserves =>
      rw [hserves.cascades]
      exact ⟨hold.steady (hserves.moves []).steady, rfl⟩
  | goes _ _ _ hgoes =>
      rw [hgoes.cascades]
      exact ⟨hold.steady (hgoes.moves []).steady, flatMap_started hgoes fun _ _ => rfl⟩

/-- What a step does to the identities of threads. -/
theorem ids_of_turn {P : List Command → Prop} {w : World} (h : t.Turn P w v u started) :
    (∀ k ∈ u.ids, k ∈ t.ids ∨ w.threads ≤ k.index ∧ k.index < v.threads) ∧
    (started = [] ∨ (∀ k ∈ u.ids, k ∈ t.ids) ∧ ∃ r, started = [r] ∧
      ∀ k ∈ r.ids, w.threads ≤ k.index ∧ k.index < v.threads) := by
  have same : ∀ {u' : Thread}, u'.ids = t.ids →
      ∀ k ∈ u'.ids, k ∈ t.ids ∨ w.threads ≤ k.index ∧ k.index < v.threads :=
    fun hi k hk => Or.inl (hi ▸ hk)
  cases h with
  | begins m r rest below task isOpen items =>
      refine ⟨same ?_, Or.inl rfl⟩
      simp only [Thread.ids, task, Task.callers]
  | ends m failures below task =>
      refine ⟨same ?_, Or.inl rfl⟩
      simp only [Thread.ids, task, Task.callers]
  | serves _ _ x below hserves => exact ⟨same hserves.ids, Or.inl rfl⟩
  | goes _ _ _ hgoes =>
      refine ⟨?_, ?_⟩
      · rcases hgoes.ids with hi | ⟨-, n, hn, hlt, hi⟩
        · exact fun k hk => Or.inl (hi k hk)
        · intro k hk
          rcases hi k hk with rfl | hk
          · exact Or.inr ⟨hn, hlt⟩
          · exact Or.inl hk
      · rcases hgoes.started with hst | ⟨hi, n, m, hn, hlt, rfl⟩
        · exact Or.inl hst
        · refine Or.inr ⟨hi, _, rfl, ?_⟩
          intro k hk
          rw [List.mem_singleton.mp hk]
          exact ⟨hn, hlt⟩

theorem Sound.ids_step (hs : s.Sound) (h : Stepped order s before t after v u started)
    (hle : s.world.threads ≤ v.threads) :
    (before ++ u :: after ++ started).Pairwise Apart ∧
    ∀ r ∈ before ++ u :: after ++ started, ∀ k ∈ r.ids, k.index < v.threads := by
  obtain ⟨hu, hstarted⟩ := ids_of_turn (h.turn hs.owned)
  have hsym : ∀ {r q : Thread}, Apart r q → Apart q r := Apart.symm
  have hpair : (t :: (before ++ after)).Pairwise Apart := by
    have hp : s.threads.Perm (t :: (before ++ after)) := by
      rw [h.threads]
      exact List.perm_middle
    exact (hp.pairwise_iff hsym).mp hs.apart
  obtain ⟨ht, hothers⟩ := List.pairwise_cons.mp hpair
  have hknown : ∀ r ∈ before ++ after, ∀ k ∈ r.ids, k.index < s.world.threads := by
    intro r hr
    refine hs.known r ?_
    rw [h.threads]
    rcases List.mem_append.mp hr with hr | hr
    · exact List.mem_append_left _ hr
    · exact List.mem_append_right _ (List.mem_cons_of_mem _ hr)
  have hperm : (before ++ u :: after ++ started).Perm (started ++ u :: (before ++ after)) :=
    (List.Perm.append_right started List.perm_middle).trans List.perm_append_comm
  have huo : ∀ r ∈ before ++ after, Apart u r := by
    intro r hr k hk hkr
    rcases hu k hk with hk | ⟨hk, -⟩
    · exact ht r hr k hk hkr
    · exact absurd (hknown r hr k hkr) (Nat.not_lt.mpr hk)
  have hnew : (u :: (before ++ after)).Pairwise Apart := List.pairwise_cons.mpr ⟨huo, hothers⟩
  have hlt : ∀ r ∈ u :: (before ++ after), ∀ k ∈ r.ids, k.index < v.threads := by
    intro r hr k hk
    rcases List.mem_cons.mp hr with rfl | hr
    · rcases hu k hk with hk | ⟨-, hk⟩
      · exact Nat.lt_of_lt_of_le (hs.known t h.mem k hk) hle
      · exact hk
    · exact Nat.lt_of_lt_of_le (hknown r hr k hk) hle
  rw [hperm.pairwise_iff hsym]
  rcases hstarted with rfl | ⟨hsub, r, rfl, hr⟩
  · refine ⟨hnew, ?_⟩
    intro q hq
    exact hlt q (hperm.subset hq)
  · refine ⟨List.pairwise_cons.mpr ⟨?_, hnew⟩, ?_⟩
    · intro q hq k hk hkq
      have hge := (hr k hk).1
      rcases List.mem_cons.mp hq with rfl | hq
      · exact absurd (hs.known t h.mem k (hsub k hkq)) (Nat.not_lt.mpr hge)
      · exact absurd (hknown q hq k hkq) (Nat.not_lt.mpr hge)
    · intro q hq k hk
      rcases List.mem_cons.mp (hperm.subset hq) with rfl | hq
      · exact (hr k hk).2
      · exact hlt q hq k hk

/-- **Every step keeps the invariant.** -/
theorem Sound.step {s' : Machine} {i : Nat} (hs : s.Sound) (h : s.stepAt order i = some s') :
    s'.Sound := by
  obtain ⟨before, t, after, v, u, started, -, hst, rfl⟩ := stepAt_eq_some h
  have hturn := hst.turn hs.owned
  have hb : ∀ m k, (m, k) ∈ t.cascades → s.world.lifecycle? m = some (.closing k) :=
    fun m k hk => hs.closing_of_mem hst.mem hk
  obtain ⟨hcascading, hnil⟩ := hs.closing_step hst
  obtain ⟨hapart, hknown⟩ := hs.ids_step hst (later_of_turn hturn hb).threads
  have hperm : (cascades ⟨v, before ++ u :: after ++ started⟩).Perm
      (u.cascades ++ (before ++ after).flatMap Thread.cascades) :=
    flatMap_perm_started before u after hnil
  have hnow := hcascading.perm hperm.symm
  exact ⟨wellOwned_of_turn hturn hs.owned hb, hnow.closing, hnow.once, hapart, hknown⟩

/-- A step never takes back what has happened. -/
theorem Sound.later_step {s' : Machine} {i : Nat} (hs : s.Sound)
    (h : s.stepAt order i = some s') : s.world.Later s'.world := by
  obtain ⟨before, t, after, v, u, started, -, hst, rfl⟩ := stepAt_eq_some h
  exact later_of_turn (hst.turn hs.owned) fun m k hk => hs.closing_of_mem hst.mem hk

end Step

/-! ### Whole runs -/

theorem eq_of_reply? {t : Thread} (h : t.reply?.isSome = true) : ∃ r, t.task = .reply r .top := by
  unfold Thread.reply? at h
  split at h
  · exact ⟨_, rfl⟩
  · cases h

theorem cascades_of_idle {s : Machine} (h : s.Idle) : s.cascades = [] := by
  refine List.flatMap_eq_nil_iff.mpr ?_
  intro t ht
  obtain ⟨r, hr⟩ := eq_of_reply? (h t ht)
  simp only [Thread.cascades, hr, Task.cascades, Stack.cascades]

theorem Sound.command {s : Machine} (hs : s.Sound) (h : s.Idle) (c : Command) :
    (s.world.machine c).Sound := by
  have hnone : ∀ m k, s.world.lifecycle? m ≠ some (.closing k) := by
    intro m k hl
    have hmem := (hs.closing m k).mp hl
    rw [cascades_of_idle h] at hmem
    cases hmem
  refine ⟨hs.owned, ?_, List.nodup_nil, List.pairwise_singleton _ _, ?_⟩
  · intro m k
    exact iff_of_false (hnone m k) List.not_mem_nil
  · intro t ht k hk
    obtain rfl := List.mem_singleton.mp ht
    rw [List.mem_singleton.mp hk]
    exact hs.owned.threads

theorem sound_fresh (kind : EngineKind) (config : Config) (draws : Draws) :
    (fresh kind config draws).Sound := by
  have hnone : ∀ m, (World.start kind config draws).manager? m = none := by
    intro m
    simp [World.start, World.manager?]
  refine ⟨⟨?_, ?_, ⟨?_, ?_, ?_, ?_⟩, Nat.one_pos⟩, ?_, List.nodup_nil, List.Pairwise.nil, ?_⟩
  · intro m r hr
    rw [fresh, hnone m] at hr
    cases hr
  · intro m r hr
    rw [fresh, hnone m] at hr
    cases hr
  · intro m hm
    cases hm
  · intro a ha
    cases ha
  · intro r hr
    cases hr
  · intro g hg
    cases hg
  · intro m k
    refine iff_of_false ?_ List.not_mem_nil
    rw [World.lifecycle?, fresh, hnone m]
    simp
  · intro t ht
    cases ht

theorem Sound.leads {order : VisitOrder} {s t : Machine} (hs : s.Sound) (h : Leads order s t) :
    t.Sound := by
  induction h with
  | refl => exact hs
  | tail _ hn ih =>
      cases hn with
      | step i h => exact ih.step h
      | command c h => exact ih.command h c

/-- **The invariant holds in every reachable state.** -/
theorem Reachable.sound {order : VisitOrder} {kind : EngineKind} {s : Machine}
    (h : Reachable order kind s) : s.Sound := by
  obtain ⟨config, draws, hs⟩ := h
  exact (sound_fresh kind config draws).leads hs

/-- **Time goes one way** along a run. -/
theorem Sound.later {order : VisitOrder} {s t : Machine} (hs : s.Sound) (h : Leads order s t) :
    s.world.Later t.world := by
  induction h with
  | refl => exact .refl _
  | tail hst hn ih =>
      cases hn with
      | step i h => exact ih.trans ((hs.leads hst).later_step h)
      | command c h => exact ih

end Machine

end ArrayLifetimes
