/-
Every cascade comes to its end, whatever owns what.

The recursion of a close follows what managers own, and that may be any graph: a manager can own
itself, or one of its owners, and release hooks add to the graph while it is walked.  What
bounds it is not the graph.  A manager leaves its open state once, a hook runs once, and
between two such events only the stack gets shorter: these are the three numbers of the rank
of a machine.

On one thread a close never has to wait, because a manager that is closing already closes further
down on the same stack, and such a close returns at once.  So a close returns, whether it is
an outermost one or begins in the middle of others.
-/
import ArrayLifetimes.Proofs.CloseComplete
import ArrayLifetimes.Proofs.NoLeak

namespace ArrayLifetimes

namespace Machine

variable {order : VisitOrder} {s t u : Machine} {i : Nat} {id : ThreadId} {m : ManagerId}
  {bottom : Stack .outcome} {ps : List (Machine × Nat)}

/-! ### One thread -/

/-- A thread is the only one at work. -/
structure SingleThreaded (s : Machine) (id : ThreadId) : Prop where
  /-- Nothing that hooks or the engine have still to run starts a thread. -/
  agreed : s.world.Agreed Solo
  /-- Every close that is going on is one of the thread. -/
  alone : ∀ n k, s.world.lifecycle? n = some (.closing k) → k = id

/-- Where no thread has been started every close is one of the client's own thread. -/
theorem Sound.singleThreaded (hs : s.Sound) (hw : s.world.Agreed Solo)
    (hone : s.world.threads = 1) : s.SingleThreaded ⟨0⟩ := by
  refine ⟨hw, fun n k hn => ?_⟩
  obtain ⟨c, hc, hk⟩ := hs.exists_of_closing hn
  have hlt := hs.known c hc k (Thread.mem_ids_of_cascades hk)
  obtain ⟨index⟩ := k
  have hindex : index < 1 := hone ▸ hlt
  rw [Nat.lt_one_iff.mp hindex]

/-- Threads that are not at work have no cascades. -/
theorem SingleThreaded.others (h : s.SingleThreaded id) (hs : s.Sound) {task : Task}
    (hi : s.threads[i]? = some ⟨id, task⟩) :
    ∀ j c, j ≠ i → s.threads[j]? = some c → c.cascades = [] := by
  intro j c hj hc
  refine List.eq_nil_iff_forall_not_mem.mpr fun p hp => ?_
  obtain ⟨n, k⟩ := p
  obtain rfl := h.alone n k (hs.closing_of_mem (List.mem_of_getElem? hc) hp)
  exact hs.apart_of_ne hj hc hi k (Thread.mem_ids_of_cascades hp) (List.mem_cons_self ..)

/-- What is below on the stack of the thread closes on the thread. -/
theorem SingleThreaded.below (h : s.SingleThreaded id) (hs : s.Sound) {x : Resource}
    (hi : s.threads[i]? = some ⟨id, .release x bottom⟩) :
    ∀ n k, (n, k) ∈ bottom.cascades id → k = id :=
  fun n k hk => h.alone n k (hs.closing_of_mem (List.mem_of_getElem? hi) hk)

/-! ### A close returns -/

/-- A step that ends a release at once. -/
theorem calls_of_settled {x : Resource} (hi : s.threads[i]? = some ⟨id, .release x bottom⟩)
    (hstep : Thread.release order s.world id bottom x = .next s.world ⟨id, .settle .ok bottom⟩ []) :
    ∃ t, Calls order i bottom s t ∧ t.Returned i bottom := by
  have hst := (stepAt_eq_some_iff hi).mpr ⟨_, _, _, hstep, rfl⟩
  rw [List.append_nil] at hst
  exact ⟨_, .single ⟨not_returned_of_release hi, hst⟩, id, .ok,
    List.getElem?_set_self (List.getElem?_eq_some_iff.mp hi).1⟩

/-- **A close returns**, also one that begins in the middle of others. -/
theorem SingleThreaded.exists_returned (order : VisitOrder) (h : s.SingleThreaded id)
    (hs : s.Sound) (hi : s.threads[i]? = some ⟨id, .release (.manager m) bottom⟩) :
    ∃ t, Calls order i bottom s t ∧ t.Returned i bottom := by
  cases hm : s.world.manager? m with
  | none =>
      refine calls_of_settled hi ?_
      simp only [Thread.release, hm]
  | some r =>
      cases hl : r.lifecycle with
      | closed =>
          have hclosed := World.lifecycle?_eq_some.mpr ⟨r, hm, hl⟩
          exact calls_of_settled hi (release_closed hclosed id bottom)
      | closing k =>
          have hk : k = id := h.alone m k (World.lifecycle?_eq_some.mpr ⟨r, hm, hl⟩)
          refine calls_of_settled hi ?_
          simp only [Thread.release, hm, hl, if_pos hk]
      | opened =>
          have hopen := World.lifecycle?_eq_some.mpr ⟨r, hm, hl⟩
          obtain ⟨t, ht, hover⟩ := exists_over_of_opened order hs h.agreed (h.others hs hi)
            (h.below hs hi) hopen hi
          obtain ⟨o, ho, -⟩ := hover.returned
          exact ⟨t, ht, id, o, ho⟩

/-- A thread that is at the end of a release does not wait. -/
theorem ne_waits_of_returned (hr : s.Returned i bottom) {c : Thread}
    (hc : s.threads[i]? = some c) (n : ManagerId) :
    c.step order s.world s.running ≠ .waits n := by
  obtain ⟨k, o, hk⟩ := hr
  rw [hc, Option.some.injEq] at hk
  subst hk
  cases bottom with
  | shutdown root rest failures below =>
      simp only [Thread.step, Thread.settle]
      split <;> simp
  | _ => simp [Thread.step, Thread.settle]

/-- A thread on its way to a return does not wait. -/
theorem ne_waits_of_calls {a : Machine} (h : Calls order i bottom a t)
    (hr : t.Returned i bottom) {c : Thread} (hc : a.threads[i]? = some c) (n : ManagerId) :
    c.step order a.world a.running ≠ .waits n := by
  rcases h.cases_head with rfl | ⟨b, hb, -⟩
  · exact ne_waits_of_returned hr hc n
  · obtain ⟨v, u, started, hstep, -⟩ := (stepAt_eq_some_iff hc).mp hb.step
    rw [hstep]
    simp

/-! ### Once in a life -/

/-- The next step of the thread takes over what the manager owns: its cascade begins. -/
def Begins (s : Machine) (m : ManagerId) (i : Nat) : Prop :=
  s.world.lifecycle? m = some .opened ∧
    ∃ id below, s.threads[i]? = some ⟨id, .release (.manager m) below⟩

/-- When its cascade has begun, a manager is not open any more. -/
theorem Begins.closing (hb : s.Begins m i) (h : s.stepAt order i = some t) :
    ∃ k, t.world.lifecycle? m = some (.closing k) := by
  obtain ⟨hopen, id, below, hi⟩ := hb
  obtain ⟨r, hr, hl⟩ := World.lifecycle?_eq_some.mp hopen
  obtain ⟨v, u, started, hstep, rfl⟩ := (stepAt_eq_some_iff hi).mp h
  simp only [Thread.step, Thread.release, hr, hl, Step.next.injEq] at hstep
  obtain ⟨rfl, -⟩ := hstep
  refine ⟨id, ?_⟩
  have hopen := World.openManager_eq_ok.mpr ⟨hr, hl⟩
  show (s.world.beginClose m r id).1.lifecycle? m = some (.closing id)
  rw [World.lifecycle?_beginClose _ _ hopen, if_pos rfl]

/-- **No manager has two cascades in its life.** -/
theorem Takes.begins_once (h : Takes order s ps t) (hs : s.Sound) (m : ManagerId) :
    (ps.Pairwise fun later earlier =>
      earlier.1.Begins m earlier.2 → ¬ later.1.Begins m later.2) ∧
    ∀ p ∈ ps, p.1.Begins m p.2 → ∃ l, t.world.lifecycle? m = some l ∧ l ≠ .opened := by
  induction h with
  | refl => exact ⟨.nil, fun p hp => absurd hp List.not_mem_nil⟩
  | step i h hi ih =>
      obtain ⟨hpairs, hleft⟩ := ih
      have hlater := (hs.leads h.leads).later_step hi
      refine ⟨List.pairwise_cons.mpr ⟨?_, hpairs⟩, ?_⟩
      · intro p hp hb hagain
        obtain ⟨l, hl, hne⟩ := hleft p hp hb
        rw [hagain.1, Option.some.injEq] at hl
        exact hne hl.symm
      · intro p hp hb
        rcases List.mem_cons.mp hp with rfl | hp
        · obtain ⟨k, hk⟩ := hb.closing hi
          exact ⟨_, hk, by simp⟩
        · obtain ⟨l, hl, hne⟩ := hleft p hp hb
          obtain ⟨l', hl', -⟩ := hlater.lifecycle m l hl
          refine ⟨l', hl', ?_⟩
          rintro rfl
          exact hlater.not_open hl hne hl'
  | command c h hi ih => exact ih

/-! ### All together -/

/-- **Every cascade terminates, on every ownership graph.**  A run of any length has built whatever
managers, resources and hooks there are, and whatever owns what.  A thread is about to close
a manager, as the outermost close or in the middle of others, and is the only one at work.
Then the close returns, and there is no other way for it to go; on its way the thread never waits
for another one; and in the whole life of every manager, before and after, its cascade begins
at most once. -/
theorem cascades_terminate (order : VisitOrder) {kind : EngineKind} {config : Config}
    {draws : Draws} (hr : Takes order (fresh kind config draws) ps s)
    (hone : s.SingleThreaded id)
    (hi : s.threads[i]? = some ⟨id, .release (.manager m) bottom⟩) :
    (∃ t, Calls order i bottom s t ∧ t.Returned i bottom ∧
      ∀ a, Calls order i bottom s a → Calls order i bottom a t) ∧
    (∀ a c n, Calls order i bottom s a → a.threads[i]? = some c →
      c.step order a.world a.running ≠ .waits n) ∧
    ∀ qs t n, Takes order s qs t → (qs ++ ps).Pairwise fun later earlier =>
      earlier.1.Begins n earlier.2 → ¬ later.1.Begins n later.2 := by
  have hfresh := sound_fresh kind config draws
  obtain ⟨t, ht, hreturned⟩ := hone.exists_returned order (hfresh.leads hr.leads) hi
  have hway : ∀ a, Calls order i bottom s a → Calls order i bottom a t :=
    fun a ha => ha.to_returned ht hreturned
  refine ⟨⟨t, ht, hreturned, hway⟩, ?_, ?_⟩
  · intro a c n ha hc
    exact ne_waits_of_calls (hway a ha) hreturned hc n
  · intro qs u n hu
    exact ((hr.trans hu).begins_once hfresh n).1

/-- Two managers own each other, and one of them itself too.  A release hook closes both, makes a
third manager with a hook of its own, and closes that.  The first manager is about to be
closed. -/
def entangling : List (Command × Nat) :=
  [(.base "p" none, 1), (.sub "p" "c" none, 1),
    (.attach "c" (.text "up") (.manager "p") none, 1),
    (.attach "p" (.text "self") (.manager "p") none, 1),
    (.attach "c" (.text "hook")
      (.hook "h" [.close "p", .close "c", .base "q" none,
        .attach "q" (.text "k") (.hook "g" [.close "p", .close "q"] .succeed) none,
        .attach "q" (.text "c") (.manager "c") none, .close "q"] .succeed) none, 1),
    (.close "p", 1)]

def entangled : Machine := replay .byAge entangling (fresh .host {} fun _ => .zero)

/-- The close returns. -/
theorem cascades_terminate_entangled :
    entangled.SingleThreaded ⟨0⟩ ∧
    entangled.threads[0]? = some ⟨⟨0⟩, .release (.manager ⟨0⟩) (.release .done .top)⟩ ∧
    ∃ t, Calls .byAge 0 (.release .done .top) entangled t ∧ t.Returned 0 (.release .done .top) := by
  have hr := takes_replay .byAge entangling (fresh .host {} fun _ => .zero)
  have hone : entangled.SingleThreaded ⟨0⟩ :=
    ((sound_fresh _ _ _).leads hr.leads).singleThreaded (by decide) (by decide)
  have hi : entangled.threads[0]? =
      some ⟨⟨0⟩, .release (.manager ⟨0⟩) (.release .done .top)⟩ := rfl
  obtain ⟨⟨t, ht, hreturned, -⟩, -⟩ := cascades_terminate .byAge hr hone hi
  exact ⟨hone, hi, t, ht, hreturned⟩

end Machine

end ArrayLifetimes
