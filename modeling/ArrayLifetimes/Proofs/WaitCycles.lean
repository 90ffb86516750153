/-
Closers that wait for each other.

A close of a manager that closes on another thread waits until it is closed.  It is meant that
closers never block each other for ever.  On one thread a close that comes back to a manager is done
at once, and nothing waits.  That does not reach across threads: where two managers are
attached to each other, one thread closes the first and another the second, each comes to
wait for the other, and neither manager is ever closed.

What keeps threads from this is an order in which all closes go up.  Children come after their
parents by themselves.  Resources, release hooks and attached managers alike, have to close
managers that come later only.  Then whoever waits for a manager waits for a thread that itself
waits, if at all, for a later one: nobody waits in a circle, and the thread that waits for the
last manager waits for one that can go on.
-/
import Mathlib.Data.List.MinMax
import ArrayLifetimes.Proofs.Machine.Lineage
import ArrayLifetimes.Proofs.Machine.Replay

namespace ArrayLifetimes

namespace Machine

variable {order : VisitOrder} {kind : EngineKind} {s : Machine} {t u : Thread}
  {rank : ManagerId → Nat}

/-- The thread waits in a close for the manager. -/
def Awaits (s : Machine) (k : ThreadId) (m : ManagerId) : Prop :=
  ∃ t ∈ s.threads, t.id = k ∧ t.awaits? s.world = some m

instance (s : Machine) (k : ThreadId) (m : ManagerId) : Decidable (s.Awaits k m) :=
  inferInstanceAs (Decidable (∃ t ∈ s.threads, t.id = k ∧ t.awaits? s.world = some m))

/-- The first thread waits in a close for a manager whose cascade runs on the second. -/
def WaitsFor (s : Machine) (k l : ThreadId) : Prop :=
  ∃ m, s.Awaits k m ∧ s.world.lifecycle? m = some (.closing l)

/-- Managers have ranks, and closes that wait go up. -/
structure Ascending (s : Machine) (rank : ManagerId → Nat) : Prop where
  /-- Children rank above their parents. -/
  child : ∀ p c r, s.world.manager? c = some r → r.owner = .parent p → rank p < rank c
  /-- A manager that is waited for in the release of a resource ranks above all managers whose
  cascades the release is part of. -/
  resource : ∀ t ∈ s.threads, ∀ m ∈ t.awaits? s.world, ∀ n ∈ t.cascades, n.1 ∉ t.task.lineage →
    rank n.1 < rank m

/-- By age children always rank above their parents. -/
theorem Reachable.ascending_index (hs : Reachable order kind s)
    (hr : ∀ t ∈ s.threads, ∀ m ∈ t.awaits? s.world, ∀ n ∈ t.cascades, n.1 ∉ t.task.lineage →
      n.1.index < m.index) : s.Ascending ManagerId.index := by
  refine ⟨fun p c r hc ho => ?_, hr⟩
  obtain ⟨made, parted, hplanted⟩ := hs.exists_planted
  exact hplanted.older p c ((hplanted.made_iff _ _).mpr ⟨r.kin, World.kin?_of_manager? hc, ho⟩)

/-! ### Waiting goes up -/

section Ascending

variable {k l : ThreadId} {m n : ManagerId}

/-- A thread waits for a manager above all those whose cascades it runs. -/
theorem Ascending.rises (ha : s.Ascending rank) (hs : Reachable order kind s) (ht : t ∈ s.threads)
    (hm : m ∈ t.awaits? s.world) (hn : (n, k) ∈ t.cascades) : rank n < rank m := by
  by_cases hline : n ∈ t.task.lineage
  · obtain ⟨config, draws, hleads⟩ := hs
    obtain ⟨ps, hps⟩ := exists_takes hleads
    have hchild : ∀ p c, Made ps (.parent p) c → rank p < rank c := by
      intro p c hpc
      obtain ⟨q, hq, ho⟩ := (hps.planted.made_iff _ _).mp hpc
      obtain ⟨r, hr, rfl⟩ := Option.map_eq_some_iff.mp hq
      exact ha.child p c r hr ho
    have hlineal := hps.lineal hchild t ht
    obtain ⟨⟨below, htask⟩, -⟩ := Thread.awaits?_eq_some.mp hm
    rw [htask] at hlineal hline
    obtain ⟨hexp, hbelow⟩ := hlineal
    have hup : ∀ {c}, Relation.TransGen (fun p c => rank p < rank c) n c → rank n < rank c := by
      intro c h
      induction h with
      | single h => exact h
      | tail _ h ih => exact Nat.lt_trans ih h
    exact hup (hbelow.descends hexp n hline)
  · exact ha.resource t ht m hm (n, k) hn hline

/-- A thread waits for one manager at a time. -/
theorem Sound.eq_of_awaits (hs : s.Sound) (hm : s.Awaits k m) (hn : s.Awaits k n) : m = n := by
  obtain ⟨t, ht, rfl, hm⟩ := hm
  obtain ⟨u, hu, huk, hn⟩ := hn
  obtain rfl : u = t :=
    hs.eq_of_mem_ids hu ht (huk ▸ List.mem_cons_self ..) (List.mem_cons_self ..)
  exact Option.some.inj (hm.symm.trans hn)

/-- A thread that is waited for, and waits itself, waits for a manager further up. -/
theorem Ascending.rises_of_waitsFor (ha : s.Ascending rank) (hs : Reachable order kind s)
    (hkl : s.WaitsFor k l) (hm : s.Awaits k m) (hn : s.Awaits l n) : rank m < rank n := by
  have hsound := hs.sound
  obtain ⟨m', hm', hclosing⟩ := hkl
  obtain rfl : m' = m := hsound.eq_of_awaits hm' hm
  obtain ⟨t, ht, hrun⟩ := hsound.exists_of_closing hclosing
  obtain ⟨u, hu, rfl, hn⟩ := hn
  obtain rfl : t = u :=
    hsound.eq_of_mem_ids ht hu (Thread.mem_ids_of_cascades hrun) (List.mem_cons_self ..)
  exact ha.rises hs ht hn hrun

theorem Ascending.rises_of_transGen (ha : s.Ascending rank) (hs : Reachable order kind s)
    (hkl : Relation.TransGen s.WaitsFor k l) (hm : s.Awaits k m) (hn : s.Awaits l n) :
    rank m < rank n := by
  induction hkl generalizing n with
  | single h => exact ha.rises_of_waitsFor hs h hm hn
  | tail _ h ih =>
      have ⟨m', hm', _⟩ := h
      exact Nat.lt_trans (ih hm') (ha.rises_of_waitsFor hs h hm' hn)

/-- Nobody waits in a circle. -/
theorem Ascending.acyclic (ha : s.Ascending rank) (hs : Reachable order kind s) (k : ThreadId) :
    ¬ Relation.TransGen s.WaitsFor k k := by
  intro h
  obtain ⟨l, ⟨m, hm, -⟩, -⟩ := Relation.TransGen.head'_iff.mp h
  exact Nat.lt_irrefl _ (ha.rises_of_transGen hs h hm hm)

/-- As long as work is left some thread can go on: of those that wait, the one that waits for the
last manager waits for a thread that does not wait. -/
theorem Ascending.goes_on (ha : s.Ascending rank) (hs : Reachable order kind s) :
    s.Idle ∨ ∃ i t, s.stepAt order i = some t := by
  refine or_iff_not_imp_right.mpr fun hstuck => ?_
  have hwaits : ∀ t ∈ s.threads, (∃ m, t.awaits? s.world = some m) ∨ t.reply?.isSome = true := by
    intro t ht
    refine (t.progress order s.world s.running).resolve_left ?_
    rintro ⟨v, u, started, hstep⟩
    obtain ⟨i, hi⟩ := List.mem_iff_getElem?.mp ht
    exact hstuck ⟨i, _, (stepAt_eq_some_iff hi).mpr ⟨v, u, started, hstep, rfl⟩⟩
  cases hmax : (s.threads.filterMap (Thread.awaits? s.world)).argmax rank with
  | none =>
      rw [List.argmax_eq_none, List.filterMap_eq_nil_iff] at hmax
      intro t ht
      refine (hwaits t ht).resolve_left ?_
      rintro ⟨m, hm⟩
      rw [hmax t ht] at hm
      cases hm
  | some m =>
      obtain ⟨t, ht, hm⟩ := List.mem_filterMap.mp (List.argmax_mem hmax)
      obtain ⟨-, l, hl, -⟩ := Thread.awaits?_eq_some.mp hm
      obtain ⟨u, hu, hrun⟩ := hs.sound.exists_of_closing hl
      rcases hwaits u hu with ⟨n, hn⟩ | hdone
      · have hlast := List.le_of_mem_argmax (List.mem_filterMap.mpr ⟨u, hu, hn⟩) hmax
        exact absurd (ha.rises hs hu hn hrun) (Nat.not_lt.mpr hlast)
      · obtain ⟨r, hr⟩ := eq_of_reply? hdone
        rw [Thread.cascades, hr] at hrun
        cases hrun

end Ascending

/-- **Closers never block each other for ever** as long as closes go up: threads do not wait in a
circle, and while work is left one of them can go on. -/
theorem closers_go_on (order : VisitOrder) {kind : EngineKind} (hs : Reachable order kind s)
    (ha : s.Ascending rank) :
    (∀ k, ¬ Relation.TransGen s.WaitsFor k k) ∧ (s.Idle ∨ ∃ i t, s.stepAt order i = some t) :=
  ⟨ha.acyclic hs, ha.goes_on hs⟩

/-- A release hook of `z` starts two threads, one that closes `c` and one that closes its parent `p`,
and then closes `p` too. -/
def queueing : List (Command × Nat) :=
  [(.base "z" none, 2), (.base "p" none, 2), (.sub "p" "c" none, 2),
    (.attach "z" (.text "k") (.hook "h" [.spawnClose "c", .spawnClose "p", .close "p"] .succeed)
      none, 2),
    (.close "z", 9)]

/-- The close of `c` has begun, that of `p` waits for it, and that of `z` for the close of `p`. -/
def queued : Machine :=
  follow .byAge ([1, 2, 2] ++ List.replicate 3 0)
    (replay .byAge queueing (fresh (.foreign .numbering) {} fun _ => .zero))

/-- Two threads wait, one for a child and one in a release hook, and a third goes on. -/
theorem closers_go_on_queued :
    Reachable .byAge (.foreign .numbering) queued ∧
    queued.WaitsFor ⟨0⟩ ⟨2⟩ ∧ queued.WaitsFor ⟨2⟩ ⟨1⟩ ∧ queued.Ascending ManagerId.index ∧
    (∀ k, ¬ Relation.TransGen queued.WaitsFor k k) ∧
    (queued.Idle ∨ ∃ i t, queued.stepAt .byAge i = some t) := by
  have hs : Reachable .byAge (.foreign .numbering) queued :=
    (reachable_replay .byAge _ _ _ _).leads (leads_follow .byAge _ _)
  have ha : queued.Ascending ManagerId.index := hs.ascending_index (by decide)
  have hzp : queued.WaitsFor ⟨0⟩ ⟨2⟩ := ⟨⟨1⟩, by decide, by decide⟩
  have hpc : queued.WaitsFor ⟨2⟩ ⟨1⟩ := ⟨⟨2⟩, by decide, by decide⟩
  exact ⟨hs, hzp, hpc, ha, closers_go_on .byAge hs ha⟩

/-! ### Where closes do not go up -/

/-- Two managers `p` and `q` are attached to each other.  A release hook of a child of `p`, which closes
before `q` is released, starts a thread that closes `q`. -/
def crossing : List (Command × Nat) :=
  [(.base "p" none, 2), (.base "q" none, 2), (.sub "p" "c" none, 2),
    (.attach "c" (.text "k") (.hook "h" [.spawnClose "q"] .succeed) none, 2),
    (.attach "p" (.text "k") (.manager "q") none, 2),
    (.attach "q" (.text "k") (.manager "p") none, 2),
    (.close "p", 8)]

/-- The thread goes on first, and then the close of `p`. -/
def crossed : Machine :=
  follow .byAge ([1, 1] ++ List.replicate 8 0)
    (replay .byAge crossing (fresh (.foreign .numbering) {} fun _ => .zero))

/-- **Two closers that block each other for ever**: each waits for the manager that the other one
closes, and nothing can go on. -/
theorem crossed_for_ever :
    Reachable .byAge (.foreign .numbering) crossed ∧
    crossed.WaitsFor ⟨0⟩ ⟨1⟩ ∧ crossed.WaitsFor ⟨1⟩ ⟨0⟩ ∧
    Relation.TransGen crossed.WaitsFor ⟨0⟩ ⟨0⟩ ∧
    ¬ crossed.Idle ∧ ∀ i, crossed.stepAt .byAge i = none := by
  have hs : Reachable .byAge (.foreign .numbering) crossed :=
    (reachable_replay .byAge _ _ _ _).leads (leads_follow .byAge _ _)
  have hpq : crossed.WaitsFor ⟨0⟩ ⟨1⟩ := ⟨⟨1⟩, by decide, by decide⟩
  have hqp : crossed.WaitsFor ⟨1⟩ ⟨0⟩ := ⟨⟨0⟩, by decide, by decide⟩
  refine ⟨hs, hpq, hqp, .tail (.single hpq) hqp, by decide, fun i => ?_⟩
  rcases i with _ | _ | i <;> rfl

end Machine

end ArrayLifetimes
