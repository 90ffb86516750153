/-
What becomes of everything that a manager owned.

When a manager leaves its open state, all that it owned is owed by its cascade.  Until it is
closed, each thing is paid for: it is released, or the cascade has yet to visit it, or the
cascade waits for it with another cascade on top.  There is one exception, and it is where
closes are re-entrant.  A manager that closes already further down on the same stack is
passed over, because the work below is to close it.  Then nothing that the upper cascade
does brings it to an end.

The frame of a cascade stays where it was put on the stack: below it is what was there when
the manager left its open state, so whatever is passed over was closing then.
-/
import ArrayLifetimes.Proofs.Machine.Reach

namespace ArrayLifetimes

/-- The manager is being closed. -/
def World.Closing (w : World) (m : ManagerId) : Prop := ∃ k, w.lifecycle? m = some (.closing k)

theorem Stack.eq_of_mem_claim {σ : Stack .outcome} {m : ManagerId} {x y : Resource}
    (h : (m, x) ∈ σ.claim y) (id : ThreadId) :
    x = y ∧ ∃ rest, σ.cascades id = (m, id) :: rest := by
  cases σ with
  | cascade n item rest failures below =>
      obtain ⟨rfl, rfl⟩ := Prod.mk.inj (List.mem_singleton.mp h)
      exact ⟨rfl, _, rfl⟩
  | _ => cases h

namespace Machine

variable {order : VisitOrder}

/-- Something that a manager owned is paid for; `w` is the world in which it left its open state. -/
inductive Paid (w : World) (m : ManagerId) (s : Machine) : Resource → Prop
  | released (x : Resource) (h : s.world.isReleased x = true) : Paid w m s x
  /-- The cascade has yet to visit it. -/
  | owed (x : Resource) (t : Thread) (ht : t ∈ s.threads) (h : (m, x) ∈ t.owed) : Paid w m s x
  /-- The cascade waits for it. -/
  | above (n : ManagerId) (k k' : ThreadId) (t : Thread) (ht : t ∈ s.threads)
      (upper lower : List (ManagerId × ThreadId)) (h : t.cascades = upper ++ (m, k) :: lower)
      (hn : (n, k') ∈ upper) : Paid w m s (.manager n)
  /-- The cascade passes it over. -/
  | below (n : ManagerId) (k : ThreadId) (hw : w.lifecycle? n = some (.closing k))
      (h : s.world.lifecycle? n = some (.closing k)) : Paid w m s (.manager n)
  | itself : Paid w m s (.manager m)

/-- What a manager owned is paid for, from the step on in which it left its open state. -/
structure Debts (w : World) (m : ManagerId) (base : List (ManagerId × ThreadId))
    (xs : List Resource) (s : Machine) : Prop where
  left : ∃ l, s.world.lifecycle? m = some l ∧ l ≠ .opened
  /-- What was below it on the stack was closing. -/
  lower : ∀ n k, (n, k) ∈ base → w.lifecycle? n = some (.closing k)
  /-- What is below the frame of its cascade does not change. -/
  frame : ∀ t ∈ s.threads, ∀ k, (m, k) ∈ t.cascades → ∃ upper, t.cascades = upper ++ (m, k) :: base
  has : ∀ x ∈ xs, s.world.Has x
  paid : ∀ x ∈ xs, Paid w m s x

/-! ### The begin -/

/-- A manager that leaves its open state does so at the begin of its cascade. -/
theorem Sound.begins {s : Machine} (hs : s.Sound) {before after started : List Thread}
    {t u : Thread} {v : World} (h : Stepped order s before t after v u started) {m : ManagerId}
    (ho : s.world.lifecycle? m = some .opened) (hl : v.lifecycle? m ≠ some .opened) :
    ∃ r rest below, t.task = .release (.manager m) below ∧ s.world.openManager m = .ok r ∧
      rest.items.Perm r.owned ∧ v = (s.world.beginClose m r t.id).1 ∧
      u = ⟨t.id, .sweep m rest [] below⟩ ∧ started = [] := by
  cases h.turn hs.owned with
  | begins n r rest below task isOpen items =>
      by_cases hmn : n = m
      · subst hmn
        exact ⟨r, rest, below, task, isOpen, items, rfl, rfl, rfl⟩
      · rw [World.lifecycle?_beginClose _ _ isOpen, if_neg hmn] at hl
        exact absurd ho hl
  | ends n failures below task =>
      have hn := hs.closing_of_mem h.mem (mem_cascades_of_sweep task)
      obtain ⟨r, hr, -⟩ := World.lifecycle?_eq_some.mp hn
      have hx := World.has_manager_of hr
      by_cases hmn : n = m
      · subst hmn
        rw [ho] at hn
        cases hn
      · rw [(World.ended_endCascade hx failures).lifecycle? hx, if_neg hmn] at hl
        exact absurd ho hl
  | serves _ _ x below hserves =>
      exact absurd ((hserves.moves []).steady.of_some ho) hl
  | goes _ _ _ hgoes => exact absurd ((hgoes.moves []).steady.of_some ho) hl

theorem debts_begin {s s' : Machine} {i : Nat} (hs : s.Sound) (h : s.stepAt order i = some s')
    {m : ManagerId} {r : Manager} (hr : s.world.openManager m = .ok r)
    (hl : s'.world.lifecycle? m ≠ some .opened) :
    ∃ base, Debts s.world m base r.owned s' := by
  have hs' := hs.step h
  obtain ⟨before, t, after, v, u, started, -, hst, rfl⟩ := stepAt_eq_some h
  obtain ⟨hm, hopen⟩ := World.openManager_eq_ok.mp hr
  have ho : s.world.lifecycle? m = some .opened := World.lifecycle?_eq_some.mpr ⟨r, hm, hopen⟩
  obtain ⟨q, rest, below, task, hq, hitems, rfl, rfl, rfl⟩ := hs.begins hst ho hl
  obtain rfl : r = q := Except.ok.inj (hr.symm.trans hq)
  have hcasc : (⟨t.id, .sweep m rest [] below⟩ : Thread).cascades = (m, t.id) :: t.cascades := by
    simp only [Thread.cascades, task, Task.cascades]
  have hlm := World.lifecycle?_beginClose s.world t.id hr m
  rw [if_pos rfl] at hlm
  refine ⟨t.cascades, ⟨_, hlm, by simp⟩, fun n k hk => hs.closing_of_mem hst.mem hk, ?_, ?_, ?_⟩
  · intro c hc k hk
    have hkt := hs'.closing_of_mem hc hk
    rw [hlm] at hkt
    obtain rfl : t.id = k := by simpa using hkt
    have hnone : ∀ d ∈ before ++ after, (m, t.id) ∉ d.cascades := by
      intro d hd hmem
      have hds : d ∈ s.threads := by
        rw [hst.threads]
        rcases List.mem_append.mp hd with hd | hd
        · exact List.mem_append_left _ hd
        · exact List.mem_append_right _ (List.mem_cons_of_mem _ hd)
      have hcl := hs.closing_of_mem hds hmem
      rw [ho] at hcl
      cases hcl
    rw [List.append_nil] at hc
    rcases List.mem_append.mp hc with hc | hc
    · exact absurd hk (hnone c (List.mem_append_left _ hc))
    · rcases List.mem_cons.mp hc with rfl | hc
      · exact ⟨[], hcasc⟩
      · exact absurd hk (hnone c (List.mem_append_right _ hc))
  · intro x hx
    exact World.has_beginClose _ m r t.id x (hs.owned.owned m r hm x hx)
  · intro x hx
    refine .owed x ⟨t.id, .sweep m rest [] below⟩ ?_ ?_
    · rw [List.append_nil]
      exact List.mem_append_right _ (List.mem_cons_self ..)
    · exact List.mem_append_left _ (List.mem_map.mpr ⟨x, hitems.symm.subset hx, rfl⟩)

/-! ### Every step -/

section Step

variable {s : Machine} {before after started : List Thread} {t u : Thread} {v w : World}
  {m : ManagerId} {base : List (ManagerId × ThreadId)} {xs : List Resource}

theorem Stepped.stays (h : Stepped order s before t after v u started) {c : Thread}
    (hc : c ∈ s.threads) : c = t ∨ c ∈ before ++ u :: after ++ started := by
  rw [h.threads] at hc
  rcases List.mem_append.mp hc with hc | hc
  · exact Or.inr (List.mem_append_left _ (List.mem_append_left _ hc))
  · rcases List.mem_cons.mp hc with rfl | hc
    · exact Or.inl rfl
    · exact Or.inr (List.mem_append_left _ (List.mem_append_right _ (List.mem_cons_of_mem _ hc)))

theorem Stepped.came (h : Stepped order s before t after v u started) {c : Thread}
    (hc : c ∈ before ++ u :: after ++ started) : c ∈ s.threads ∨ c = u ∨ c ∈ started := by
  rw [h.threads]
  rcases List.mem_append.mp hc with hc | hc
  · rcases List.mem_append.mp hc with hc | hc
    · exact Or.inl (List.mem_append_left _ hc)
    · rcases List.mem_cons.mp hc with rfl | hc
      · exact Or.inr (Or.inl rfl)
      · exact Or.inl (List.mem_append_right _ (List.mem_cons_of_mem _ hc))
  · exact Or.inr (Or.inr hc)

theorem mem_stepped : u ∈ before ++ u :: after ++ started :=
  List.mem_append_left _ (List.mem_append_right _ (List.mem_cons_self ..))

/-- No manager has two cascades on one thread. -/
theorem Sound.once_of_mem (hs : s.Sound) (h : Stepped order s before t after v u started) :
    (t.cascades.map Prod.fst).Nodup := by
  have hperm := (h.perm Thread.cascades).map Prod.fst
  rw [List.map_append] at hperm
  exact (List.nodup_append.mp (hperm.nodup_iff.mp hs.once)).1

/-- The frame on top is the only one of its manager. -/
theorem lower_eq {l upper lower : List (ManagerId × ThreadId)} {k k' : ThreadId}
    (hl : (l.map Prod.fst).Nodup) (htop : l = (m, k) :: lower)
    (hframe : l = upper ++ (m, k') :: base) : lower = base := by
  subst htop
  cases upper with
  | nil => exact (List.cons.inj hframe).2
  | cons e upper =>
      rw [List.map_cons, List.nodup_cons, (List.cons.inj hframe).2] at hl
      refine absurd ?_ hl.1
      exact List.mem_map.mpr ⟨(m, k'), List.mem_append_right _ (List.mem_cons_self ..), rfl⟩

/-- A manager that closes on a thread has its cascade on the stack of just that thread. -/
theorem Sound.own_cascade (hs : s.Sound) (h : Stepped order s before t after v u started)
    {n : ManagerId} (hn : s.world.lifecycle? n = some (.closing t.id)) :
    (n, t.id) ∈ t.cascades := by
  obtain ⟨c, hc, hmem⟩ := hs.exists_of_closing hn
  have hp : s.threads.Perm (t :: (before ++ after)) := by
    rw [h.threads]
    exact List.perm_middle
  rcases List.mem_cons.mp (hp.subset hc) with rfl | hc
  · exact hmem
  · have hsym : ∀ {r q : Thread}, Apart r q → Apart q r := Apart.symm
    have hapart := (List.pairwise_cons.mp ((hp.pairwise_iff hsym).mp hs.apart)).1 c hc
    exact absurd (Thread.mem_ids_of_cascades hmem) (hapart t.id (List.mem_cons_self ..))

/-- The frame of a cascade is not put elsewhere. -/
theorem Debts.frame_step (hd : Debts w m base xs s) (hs : s.Sound)
    (h : Stepped order s before t after v u started) :
    ∀ c ∈ before ++ u :: after ++ started, ∀ k, (m, k) ∈ c.cascades →
      ∃ upper, c.cascades = upper ++ (m, k) :: base := by
  intro c hc k hk
  rcases h.came hc with hc | rfl | hc
  · exact hd.frame c hc k hk
  · cases h.turn hs.owned with
    | begins n r rest below task isOpen items =>
        have hcasc : (⟨t.id, .sweep n rest [] below⟩ : Thread).cascades =
            (n, t.id) :: t.cascades := by
          simp only [Thread.cascades, task, Task.cascades]
        rw [hcasc] at hk ⊢
        rcases List.mem_cons.mp hk with hk | hk
        · obtain ⟨rfl, rfl⟩ := Prod.mk.inj hk
          obtain ⟨l, hl, hne⟩ := hd.left
          have ho : s.world.lifecycle? m = some .opened :=
            World.lifecycle?_eq_some.mpr ⟨r, World.openManager_eq_ok.mp isOpen⟩
          rw [ho] at hl
          cases hl
          exact absurd rfl hne
        · obtain ⟨upper, hu⟩ := hd.frame t h.mem k hk
          exact ⟨(n, t.id) :: upper, congrArg _ hu⟩
    | ends n failures below task =>
        have hcasc : t.cascades = (n, t.id) ::
            (⟨t.id, .settle (.ofFailures failures) below⟩ : Thread).cascades := by
          simp only [Thread.cascades, task, Task.cascades]
        have hmem := List.mem_cons_of_mem (n, t.id) hk
        rw [← hcasc] at hmem
        obtain ⟨upper, hu⟩ := hd.frame t h.mem k hmem
        have honce := hs.once_of_mem h
        rw [hcasc, List.map_cons, List.nodup_cons] at honce
        rw [hcasc] at hu
        cases upper with
        | nil =>
            obtain ⟨rfl, rfl⟩ := Prod.mk.inj (List.cons.inj hu).1
            exact absurd (List.mem_map.mpr ⟨_, hk, rfl⟩) honce.1
        | cons e upper => exact ⟨upper, (List.cons.inj hu).2⟩
    | serves _ _ x below hserves =>
        rw [hserves.cascades] at hk ⊢
        exact hd.frame t h.mem k hk
    | goes _ _ _ hgoes =>
        rw [hgoes.cascades] at hk ⊢
        exact hd.frame t h.mem k hk
  · have hnil := (hs.closing_step h).2
    rw [List.flatMap_eq_nil_iff.mp hnil c hc] at hk
    cases hk

/-- What the cascade owes on the thread that takes a step is paid for afterwards. -/
theorem Debts.owed_step (hd : Debts w m base xs s) (hs : s.Sound)
    (h : Stepped order s before t after v u started) {x : Resource} (hx : s.world.Has x)
    (ho : (m, x) ∈ t.owed) : Paid w m ⟨v, before ++ u :: after ++ started⟩ x := by
  cases h.turn hs.owned with
  | begins n r rest below task isOpen items =>
      rw [Thread.owed, task, Task.owed] at ho
      rcases List.mem_append.mp ho with ho | ho
      · obtain ⟨rfl, lower, hlower⟩ := Stack.eq_of_mem_claim ho t.id
        refine .above n t.id t.id _ mem_stepped [(n, t.id)] lower ?_ (List.mem_singleton_self _)
        simp only [Thread.cascades, Task.cascades, hlower]
        rfl
      · exact .owed x _ mem_stepped (List.mem_append_right _ ho)
  | ends n failures below task =>
      rw [Thread.owed, task] at ho
      exact .owed x _ mem_stepped ho
  | goes _ _ _ hgoes =>
      rw [← hgoes.owed] at ho
      exact .owed x _ mem_stepped ho
  | serves _ _ y below hserves =>
      rw [hserves.owed] at ho
      rcases List.mem_append.mp ho with ho | ho
      · obtain ⟨rfl, lower, hlower⟩ := Stack.eq_of_mem_claim ho t.id
        rcases hserves.served with hr | hr | ⟨n, rfl, hn⟩
        · exact .released x hr
        · exact absurd hx hr
        · -- the visit passes over a manager that closes already on this thread
          have hcasc : t.cascades = (m, t.id) :: lower := by
            simp only [Thread.cascades, hserves.task, Task.cascades, hlower]
          obtain ⟨upper, hu⟩ := hd.frame t h.mem t.id (hcasc ▸ List.mem_cons_self ..)
          have hbase := lower_eq (hs.once_of_mem h) hcasc hu
          have hmem := hs.own_cascade h hn
          rw [hcasc] at hmem
          rcases List.mem_cons.mp hmem with hmem | hmem
          · obtain rfl := (Prod.mk.inj hmem).1
            exact .itself
          · refine .below n t.id (hd.lower n t.id (hbase ▸ hmem)) ?_
            exact (hserves.moves []).steady.of_some hn
      · exact .owed x _ mem_stepped ho

/-- What the cascade waits for on the thread that takes a step is paid for afterwards. -/
theorem above_step (hs : s.Sound) (h : Stepped order s before t after v u started)
    {n : ManagerId} {k k' : ThreadId} {upper lower : List (ManagerId × ThreadId)}
    (hu : t.cascades = upper ++ (m, k) :: lower) (hn : (n, k') ∈ upper) :
    Paid w m ⟨v, before ++ u :: after ++ started⟩ (.manager n) := by
  cases h.turn hs.owned with
  | begins p r rest below task isOpen items =>
      refine .above n k k' _ mem_stepped ((p, t.id) :: upper) lower ?_ (List.mem_cons_of_mem _ hn)
      simp only [Thread.cascades, Task.cascades, List.cons_append, ← hu, task]
  | ends p failures below task =>
      have hcasc : t.cascades = (p, t.id) ::
          (⟨t.id, .settle (.ofFailures failures) below⟩ : Thread).cascades := by
        simp only [Thread.cascades, task, Task.cascades]
      have hp := hs.closing_of_mem h.mem (mem_cascades_of_sweep task)
      obtain ⟨r, hr, -⟩ := World.lifecycle?_eq_some.mp hp
      have hx := World.has_manager_of hr
      rw [hcasc] at hu
      cases upper with
      | nil => cases hn
      | cons e upper =>
          obtain ⟨rfl, hrest⟩ := List.cons.inj hu
          rcases List.mem_cons.mp hn with hn | hn
          · obtain ⟨rfl, rfl⟩ := Prod.mk.inj hn
            refine .released _ ?_
            rw [World.isReleased_manager, (World.ended_endCascade hx failures).lifecycle? hx]
            exact if_pos rfl
          · exact .above n k k' _ mem_stepped upper lower hrest hn
  | serves _ _ x below hserves =>
      exact .above n k k' _ mem_stepped upper lower (hserves.cascades.trans hu) hn
  | goes _ _ _ hgoes =>
      exact .above n k k' _ mem_stepped upper lower (hgoes.cascades.trans hu) hn

/-- **Every step keeps all debts paid for.** -/
theorem Debts.step {s' : Machine} {i : Nat} (hd : Debts w m base xs s) (hs : s.Sound)
    (h : s.stepAt order i = some s') : Debts w m base xs s' := by
  have hlater := hs.later_step h
  obtain ⟨before, t, after, v, u, started, -, hst, rfl⟩ := stepAt_eq_some h
  refine ⟨?_, hd.lower, hd.frame_step hs hst, fun x hx => hlater.has x (hd.has x hx), ?_⟩
  · obtain ⟨l, hl, hne⟩ := hd.left
    obtain ⟨l', hl', -⟩ := hlater.lifecycle m l hl
    refine ⟨l', hl', ?_⟩
    rintro rfl
    exact hlater.not_open hl hne hl'
  · intro x hx
    cases hd.paid x hx with
    | released _ hr => exact .released x (hlater.released x hr)
    | owed _ c hc ho =>
        rcases hst.stays hc with rfl | hc
        · exact hd.owed_step hs hst (hd.has x hx) ho
        · exact .owed x c hc ho
    | above n k k' c hc upper lower hu hn =>
        rcases hst.stays hc with rfl | hc
        · exact above_step hs hst hu hn
        · exact .above n k k' c hc upper lower hu hn
    | below n k hw hl =>
        obtain ⟨l, hl', hlead⟩ := hlater.lifecycle n _ hl
        rcases hlead with rfl | rfl
        · exact .below n k hw hl'
        · exact .released _ (World.isReleased_manager.mpr hl')
    | itself => exact .itself

theorem owed_of_idle (h : s.Idle) {c : Thread} (hc : c ∈ s.threads) : c.owed = [] := by
  obtain ⟨r, hr⟩ := eq_of_reply? (h c hc)
  simp only [Thread.owed, hr, Task.owed, Stack.owed]

theorem Debts.command (hd : Debts w m base xs s) (h : s.Idle) (c : Command) :
    Debts w m base xs (s.world.machine c) := by
  refine ⟨hd.left, hd.lower, ?_, hd.has, ?_⟩
  · intro d hdm k hk
    rw [List.mem_singleton.mp hdm] at hk
    cases hk
  · intro x hx
    cases hd.paid x hx with
    | released _ hr => exact .released x hr
    | owed _ d hdm ho =>
        rw [owed_of_idle h hdm] at ho
        cases ho
    | above n k k' d hdm upper lower hu hn =>
        have hnil := List.flatMap_eq_nil_iff.mp (cascades_of_idle h) d hdm
        rw [hnil] at hu
        have hmem : (m, k) ∈ upper ++ (m, k) :: lower :=
          List.mem_append_right _ (List.mem_cons_self ..)
        rw [← hu] at hmem
        cases hmem
    | below n k hw hl => exact .below n k hw hl
    | itself => exact .itself

theorem Debts.leads {s' : Machine} (hd : Debts w m base xs s) (hs : s.Sound)
    (h : Leads order s s') : Debts w m base xs s' := by
  induction h with
  | refl => exact hd
  | tail hst hn ih =>
      cases hn with
      | step i h => exact ih.step (hs.leads hst) h
      | command c h => exact ih.command h c

end Step

/-- **Once a manager is closed, all that it owned is released**, but for managers that were closing
when it left its open state and still are. -/
theorem Debts.released {w : World} {m : ManagerId} {base : List (ManagerId × ThreadId)}
    {xs : List Resource} {s : Machine} (hd : Debts w m base xs s) (hs : s.Sound)
    (hm : s.world.lifecycle? m = some .closed) {x : Resource} (hx : x ∈ xs) :
    s.world.isReleased x = true ↔
      ¬ ∃ n, x = .manager n ∧ w.Closing n ∧ s.world.Closing n := by
  have hnone : ∀ c ∈ s.threads, ∀ k, (m, k) ∉ c.cascades := by
    intro c hc k hk
    rw [hs.closing_of_mem hc hk] at hm
    cases hm
  constructor
  · rintro hr ⟨n, rfl, -, k, hk⟩
    rw [World.isReleased_manager, hk] at hr
    cases hr
  · intro hnot
    cases hd.paid x hx with
    | released _ hr => exact hr
    | owed _ c hc ho =>
        obtain ⟨k, hk⟩ := Thread.cascade_of_owed ho
        exact absurd hk (hnone c hc k)
    | above n k k' c hc upper lower hu hn =>
        have hmem : (m, k) ∈ c.cascades := by
          rw [hu]
          exact List.mem_append_right _ (List.mem_cons_self ..)
        exact absurd hmem (hnone c hc k)
    | below n k hw hl => exact absurd ⟨n, rfl, ⟨k, hw⟩, ⟨k, hl⟩⟩ hnot
    | itself => exact World.isReleased_manager.mpr hm

end Machine

end ArrayLifetimes
