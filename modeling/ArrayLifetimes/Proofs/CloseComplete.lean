/-
An outermost close is complete.

Release hooks may close managers of the same tree while their owners are half done, and
such closes return early.  None of that is left when the first close returns.  The thread
that closes is the only one that takes steps, so a manager that closes has its cascade on
the stack of that thread, above the close.  At the return there is nothing above the close
any more, so no manager is closing.  Then whatever a cascade has passed over is closed, and
everything that was owned is released.
-/
import ArrayLifetimes.Proofs.Machine.Call
import ArrayLifetimes.Proofs.Machine.Debts
import ArrayLifetimes.Proofs.Machine.Replay

namespace ArrayLifetimes

namespace Machine

/-- The release that a stack of a thread waits for has come to its end. -/
def Returned (s : Machine) (i : Nat) (bottom : Stack .outcome) : Prop :=
  ∃ id o, s.threads[i]? = some ⟨id, .settle o bottom⟩

/-- A thread takes a step towards the end of a release. -/
structure CallStep (order : VisitOrder) (i : Nat) (bottom : Stack .outcome) (s t : Machine) :
    Prop where
  running : ¬ s.Returned i bottom
  step : s.stepAt order i = some t

/-- A thread goes on with a release, and with nothing after it. -/
abbrev Calls (order : VisitOrder) (i : Nat) (bottom : Stack .outcome) :
    Machine → Machine → Prop := Relation.ReflTransGen (CallStep order i bottom)

section Calls

variable {order : VisitOrder} {i : Nat} {bottom : Stack .outcome} {s t : Machine}

theorem Calls.leads (h : Calls order i bottom s t) : Leads order s t :=
  Relation.ReflTransGen.mono (fun _ _ hst => .step i hst.step) _ _ h

theorem rightUnique_callStep : Relator.RightUnique (CallStep order i bottom) := by
  intro a b c hb hc
  exact Option.some.inj (hb.step.symm.trans hc.step)

/-- Whatever a release comes to leads to its return. -/
theorem Calls.to_returned {a : Machine} (ha : Calls order i bottom s a)
    (ht : Calls order i bottom s t) (hr : t.Returned i bottom) : Calls order i bottom a t := by
  rcases ha.total_of_right_unique rightUnique_callStep ht with h | h
  · exact h
  · rcases h.cases_head with rfl | ⟨b, hb, -⟩
    · exact .refl
    · exact absurd hr hb.running

end Calls

/-! ### The cascade of the call -/

/-- A thread is at work for the cascade of a manager, and no other thread has one. -/
structure InCall (m : ManagerId) (i : Nat) (id : ThreadId) (bottom : Stack .outcome)
    (s : Machine) : Prop where
  sound : s.Sound
  agreed : s.world.Agreed Solo
  during : ∃ task, s.threads[i]? = some ⟨id, task⟩ ∧ task.During m bottom
  others : ∀ j c, j ≠ i → s.threads[j]? = some c → c.cascades = []

/-- A close has returned. -/
structure Over (m : ManagerId) (i : Nat) (id : ThreadId) (bottom : Stack .outcome)
    (s : Machine) : Prop where
  sound : s.Sound
  returned : ∃ o, s.threads[i]? = some ⟨id, .settle o bottom⟩ ∧ ∀ p, o ≠ .panic p
  closed : s.world.lifecycle? m = some .closed
  others : ∀ j c, j ≠ i → s.threads[j]? = some c → c.cascades = []

section InCall

variable {order : VisitOrder} {m : ManagerId} {i : Nat} {id : ThreadId} {bottom : Stack .outcome}
  {s t : Machine}

theorem InCall.not_returned (h : InCall m i id bottom s) : ¬ s.Returned i bottom := by
  rintro ⟨k, o, hk⟩
  obtain ⟨task, ht, hd⟩ := h.during
  rw [hk, Option.some.injEq, Thread.mk.injEq] at ht
  exact hd.ne_settle o ht.2.symm

/-- Every manager that closes does so on the thread of the call, if those below the call do. -/
theorem InCall.alone (h : InCall m i id bottom s) (hb : ∀ n k, (n, k) ∈ bottom.cascades id → k = id) :
    ∀ n k, s.world.lifecycle? n = some (.closing k) → k = id := by
  intro n k hn
  obtain ⟨c, hc, hk⟩ := h.sound.exists_of_closing hn
  obtain ⟨j, hj⟩ := List.mem_iff_getElem?.mp hc
  by_cases hji : j = i
  · subst hji
    obtain ⟨task, ht, hd⟩ := h.during
    rw [hj, Option.some.injEq] at ht
    subst ht
    rcases hd.cascades hk with hk | hk
    · exact hk
    · exact hb n k hk
  · rw [h.others j c hji hj] at hk
    cases hk

/-- A step adds nothing to the agenda that would start a thread. -/
theorem agreed_of_turn {P : List Command → Prop} {w v : World} {c u : Thread}
    {started : List Thread} (h : c.Turn P w v u started) (hw : w.Agreed P)
    (hb : ∀ n k, (n, k) ∈ c.cascades → w.lifecycle? n = some (.closing k)) : v.Agreed P := by
  cases h with
  | begins n r rest below task isOpen items => exact hw.of_agenda (World.agenda_beginClose w n r _)
  | ends n failures below task =>
      obtain ⟨r, hr, -⟩ := World.lifecycle?_eq_some.mp (hb n c.id (mem_cascades_of_sweep task))
      exact hw.of_agenda (World.ended_endCascade (World.has_manager_of hr) failures).agenda
  | serves _ _ x below h => exact (h.moves []).agreed hw
  | goes _ _ _ h => exact (h.moves []).agreed hw

theorem others_set {u : Thread} (h : ∀ j c, j ≠ i → s.threads[j]? = some c → c.cascades = []) :
    ∀ j c, j ≠ i → (s.threads.set i u)[j]? = some c → c.cascades = [] := by
  intro j c hj hc
  rw [List.getElem?_set_ne (Ne.symm hj)] at hc
  exact h j c hj hc

/-- **One step of the call**: the cascade goes on, or it is over. -/
theorem InCall.step (h : InCall m i id bottom s) (hst : s.stepAt order i = some t) :
    InCall m i id bottom t ∨ Over m i id bottom t := by
  have hs := h.sound.step hst
  obtain ⟨task, hi, hd⟩ := h.during
  have hmem := List.mem_of_getElem? hi
  obtain ⟨v, u, started, hstep, rfl⟩ := (stepAt_eq_some_iff hi).mp hst
  have hturn := Thread.turn_of_step (P := Solo) order s.running h.sound.owned
    (fun c below hc => Command.solo_leaves (by cases hc; exact hd.solo)) hstep
  have hagreed := agreed_of_turn hturn h.agreed fun n k hk => h.sound.closing_of_mem hmem hk
  obtain ⟨hid, rfl, hgoes⟩ := Thread.during_step h.agreed hd hstep
  rw [List.append_nil] at hs ⊢
  have hlt := (List.getElem?_eq_some_iff.mp hi).1
  have hu : (s.threads.set i u)[i]? = some ⟨id, u.task⟩ := by
    rw [List.getElem?_set_self hlt]
    exact congrArg (fun k => some (Thread.mk k u.task)) hid
  rcases hgoes with hgoes | ⟨failures, htask, rfl, hset⟩
  · exact Or.inl ⟨hs, hagreed, ⟨u.task, hu, hgoes⟩, others_set h.others⟩
  · refine Or.inr ⟨hs, ⟨_, hset ▸ hu, ?_⟩, ?_, others_set h.others⟩
    · intro p
      unfold Outcome.ofFailures
      split <;> simp
    · have hm := h.sound.closing_of_mem hmem (mem_cascades_of_sweep htask)
      obtain ⟨r, hr, -⟩ := World.lifecycle?_eq_some.mp hm
      have hx := World.has_manager_of hr
      rw [(World.ended_endCascade hx failures).lifecycle? hx, if_pos rfl]

theorem InCall.progress (order : VisitOrder) (h : InCall m i id bottom s)
    (hb : ∀ n k, (n, k) ∈ bottom.cascades id → k = id) : ∃ t, s.stepAt order i = some t := by
  obtain ⟨task, hi, hd⟩ := h.during
  obtain ⟨v, u, started, hstep⟩ :=
    Thread.during_progress (t := ⟨id, task⟩) order s.running hd (h.alone hb)
  exact ⟨_, (stepAt_eq_some_iff hi).mpr ⟨v, u, started, hstep, rfl⟩⟩

theorem wellFounded_below : WellFounded Below :=
  InvImage.wf rank (Prod.lex Nat.lt_wfRel (Prod.lex Nat.lt_wfRel Nat.lt_wfRel)).wf

/-- **The cascade comes to its end.** -/
theorem InCall.exists_over (order : VisitOrder) (h : InCall m i id bottom s)
    (hb : ∀ n k, (n, k) ∈ bottom.cascades id → k = id) :
    ∃ t, Calls order i bottom s t ∧ Over m i id bottom t := by
  induction s using wellFounded_below.induction with
  | _ s ih =>
      obtain ⟨a, ha⟩ := h.progress order hb
      have hcall : CallStep order i bottom s a := ⟨h.not_returned, ha⟩
      rcases h.step ha with hin | hover
      · obtain ⟨t, ht, hover⟩ := ih a (stepAt_below ha) hin
        exact ⟨t, ht.head hcall, hover⟩
      · exact ⟨a, .single hcall, hover⟩

/-- **After the return no manager is closing.** -/
theorem Over.quiet (h : Over m i id bottom s) (hb : bottom.cascades id = []) :
    ∀ n, ¬ s.world.Closing n := by
  rintro n ⟨k, hn⟩
  obtain ⟨c, hc, hk⟩ := h.sound.exists_of_closing hn
  obtain ⟨j, hj⟩ := List.mem_iff_getElem?.mp hc
  by_cases hji : j = i
  · subst hji
    obtain ⟨o, ho, -⟩ := h.returned
    rw [hj, Option.some.injEq] at ho
    subst ho
    rw [Thread.cascades, Task.cascades, hb] at hk
    cases hk
  · rw [h.others j c hji hj] at hk
    cases hk

end InCall

/-! ### The whole call -/

/-- A manager has let go of all that it owned, when it was open, as `r`. -/
structure Emptied (t : Machine) (n : ManagerId) (r : Manager) : Prop where
  closed : t.world.lifecycle? n = some .closed
  empty : ∀ q, t.world.manager? n = some q → q.resources = {} ∧ q.children = []
  released : ∀ x ∈ r.owned, t.world.isReleased x = true

/-- A close that starts in `s` returns in `t`, and leaves nothing half done. -/
structure Complete (order : VisitOrder) (m : ManagerId) (i : Nat) (id : ThreadId)
    (bottom : Stack .outcome) (s t : Machine) : Prop where
  calls : Calls order i bottom s t
  /-- There is no other way for the call to go. -/
  only : ∀ a, Calls order i bottom s a → Calls order i bottom a t
  returned : ∃ o, t.threads[i]? = some ⟨id, .settle o bottom⟩ ∧ ∀ p, o ≠ .panic p
  closed : t.world.lifecycle? m = some .closed
  quiet : ∀ n, ¬ t.world.Closing n
  /-- Whatever manager left its open state on the way is empty now. -/
  left : ∀ a b n r, Calls order i bottom s a → CallStep order i bottom a b →
    a.world.openManager n = .ok r → b.world.lifecycle? n ≠ some .opened → t.Emptied n r
  /-- To close a manager again does nothing. -/
  again : ∀ n, t.world.lifecycle? n = some .closed → ∀ running k below,
    (⟨k, .release (.manager n) below⟩ : Thread).step order t.world running =
      .next t.world ⟨k, .settle .ok below⟩ []

section Complete

variable {order : VisitOrder} {m : ManagerId} {i : Nat} {id : ThreadId} {bottom : Stack .outcome}
  {s t : Machine}

theorem release_closed {w : World} {n : ManagerId} (h : w.lifecycle? n = some .closed)
    (k : ThreadId) (below : Stack .outcome) :
    Thread.release order w k below (.manager n) = .next w ⟨k, .settle .ok below⟩ [] := by
  obtain ⟨r, hr, hl⟩ := World.lifecycle?_eq_some.mp h
  simp only [Thread.release, hr, hl]

/-- What was below the call on its stack has no cascade, and no other thread has one. -/
theorem cascades_of_quiet (hs : s.Sound) (quiet : ∀ n, ¬ s.world.Closing n) {c : Thread}
    (hc : c ∈ s.threads) : c.cascades = [] := by
  refine List.eq_nil_iff_forall_not_mem.mpr ?_
  rintro ⟨n, k⟩ hk
  exact quiet n ⟨k, hs.closing_of_mem hc hk⟩

theorem not_returned_of_release {x : Resource}
    (hi : s.threads[i]? = some ⟨id, .release x bottom⟩) : ¬ s.Returned i bottom := by
  rintro ⟨k, o, hk⟩
  rw [hi] at hk
  cases hk

/-- The first step of the close of an open manager starts the cascade. -/
theorem exists_over_of_opened (order : VisitOrder) (hs : s.Sound) (hw : s.world.Agreed Solo)
    (hothers : ∀ j c, j ≠ i → s.threads[j]? = some c → c.cascades = [])
    (hb : ∀ n k, (n, k) ∈ bottom.cascades id → k = id)
    (hm : s.world.lifecycle? m = some .opened)
    (hi : s.threads[i]? = some ⟨id, .release (.manager m) bottom⟩) :
    ∃ t, Calls order i bottom s t ∧ Over m i id bottom t := by
  obtain ⟨r, hr, hl⟩ := World.lifecycle?_eq_some.mp hm
  have hstep : Thread.release order s.world id bottom (.manager m) =
      .next (s.world.beginClose m r id).1
        ⟨id, .sweep m (order.arrange m (s.world.beginClose m r id).2) [] bottom⟩ [] := by
    simp only [Thread.release, hr, hl]
  have hst := (stepAt_eq_some_iff hi).mpr ⟨_, _, _, hstep, rfl⟩
  have hs' := hs.step hst
  rw [List.append_nil] at hst hs'
  have hlt := (List.getElem?_eq_some_iff.mp hi).1
  have hin : InCall m i id bottom _ := ⟨hs', hw.of_agenda (World.agenda_beginClose _ m r id),
    ⟨_, List.getElem?_set_self hlt, .own _ _⟩, others_set hothers⟩
  obtain ⟨t, ht, hover⟩ := hin.exists_over order hb
  exact ⟨t, ht.head ⟨not_returned_of_release hi, hst⟩, hover⟩

/-- Where nothing closes, a close comes to its end. -/
theorem exists_over_of_quiet (order : VisitOrder) (hs : s.Sound) (hw : s.world.Agreed Solo)
    (quiet : ∀ n, ¬ s.world.Closing n) (hm : s.world.Has (.manager m))
    (hi : s.threads[i]? = some ⟨id, .release (.manager m) bottom⟩) :
    ∃ t, Calls order i bottom s t ∧ Over m i id bottom t := by
  have hmem := List.mem_of_getElem? hi
  have hb : bottom.cascades id = [] := cascades_of_quiet hs quiet hmem
  have hothers : ∀ j c, j ≠ i → s.threads[j]? = some c → c.cascades = [] :=
    fun j c _ hc => cascades_of_quiet hs quiet (List.mem_of_getElem? hc)
  obtain ⟨r, hr⟩ := World.exists_of_has_manager hm
  cases hl : r.lifecycle with
  | closing k => exact absurd ⟨k, World.lifecycle?_eq_some.mpr ⟨r, hr, hl⟩⟩ (quiet m)
  | closed =>
      have hclosed := World.lifecycle?_eq_some.mpr ⟨r, hr, hl⟩
      have hstep : Thread.release order s.world id bottom (.manager m) =
          .next s.world ⟨id, .settle .ok bottom⟩ [] := release_closed hclosed id bottom
      have hst := (stepAt_eq_some_iff hi).mpr ⟨_, _, _, hstep, rfl⟩
      have hs' := hs.step hst
      rw [List.append_nil] at hst hs'
      have hlt := (List.getElem?_eq_some_iff.mp hi).1
      refine ⟨_, .single ⟨not_returned_of_release hi, hst⟩, hs',
        ⟨_, List.getElem?_set_self hlt, ?_⟩, hclosed, others_set hothers⟩
      intro p
      simp
  | opened =>
      have hopen := World.lifecycle?_eq_some.mpr ⟨r, hr, hl⟩
      exact exists_over_of_opened order hs hw hothers
        (fun n k hk => absurd (hb ▸ hk) List.not_mem_nil) hopen hi

/-- A manager that left its open state has let go of all that it owned once nothing closes. -/
theorem emptied_of_quiet {a b : Machine} (ha : a.Sound) (hab : a.stepAt order i = some b)
    (ht : Leads order b t) (quiet : ∀ n, ¬ t.world.Closing n) {n : ManagerId} {r : Manager}
    (hr : a.world.openManager n = .ok r) (hl : b.world.lifecycle? n ≠ some .opened) :
    t.Emptied n r := by
  obtain ⟨base, hd⟩ := debts_begin ha hab hr hl
  have hb := ha.step hab
  have hdt := hd.leads hb ht
  have htn : t.world.lifecycle? n = some .closed := by
    obtain ⟨l, hln, hne⟩ := hdt.left
    cases l with
    | opened => exact absurd rfl hne
    | closing k => exact absurd ⟨k, hln⟩ (quiet n)
    | closed => exact hln
  refine ⟨htn, ?_, ?_⟩
  · intro q hq
    refine (hb.leads ht).owned.given n q hq ?_
    obtain ⟨q', hq', hql⟩ := World.lifecycle?_eq_some.mp htn
    rw [hq, Option.some.injEq] at hq'
    subst hq'
    simp [hql]
  · intro x hx
    refine (hdt.released (hb.leads ht) htn hx).mpr ?_
    rintro ⟨p, -, -, hp⟩
    exact quiet p hp

/-- **An outermost close returns, and is complete then.**  All that is asked for is that nothing
on the agenda starts a thread, for a release hook that waits for another thread to close the
manager waits for itself. -/
theorem close_completes (order : VisitOrder) {kind : EngineKind} (hs : Reachable order kind s)
    (hw : s.world.Agreed Solo) (quiet : ∀ n, ¬ s.world.Closing n) (hm : s.world.Has (.manager m))
    (hi : s.threads[i]? = some ⟨id, .release (.manager m) bottom⟩) :
    ∃ t, Complete order m i id bottom s t := by
  obtain ⟨t, ht, hover⟩ := exists_over_of_quiet order hs.sound hw quiet hm hi
  have hb : bottom.cascades id = [] := cascades_of_quiet hs.sound quiet (List.mem_of_getElem? hi)
  have hquiet := hover.quiet hb
  have hreturned : t.Returned i bottom := by
    obtain ⟨o, ho, -⟩ := hover.returned
    exact ⟨id, o, ho⟩
  refine ⟨t, ht, fun a ha => ha.to_returned ht hreturned, hover.returned, hover.closed, hquiet,
    ?_, ?_⟩
  · intro a b n r ha hab hr hl
    have hbt : Calls order i bottom b t := Calls.to_returned (ha.tail hab) ht hreturned
    exact emptied_of_quiet (hs.sound.leads ha.leads) hab.step hbt.leads hquiet hr hl
  · intro n hn running k below
    exact release_closed hn k below

/-- A manager `p` has a child `c` with an array.  A release hook of the child closes `p` again, and
panics.  The session stops where `p` is about to be closed. -/
def closeOverPanic : Machine :=
  replay .byAge
    [(.base "p" none, 2), (.sub "p" "c" none, 2), (.allocate "c" "a" (.zeros ⟨[1]⟩ none) none, 2),
      (.attach "c" (.text "k") (.hook "h" [.close "p"] (.panic (.text "stop"))) none, 2),
      (.close "p", 1)]
    (fresh (.foreign .numbering) {} fun _ => .zero)

theorem close_completes_over_panic :
    ∃ t, Complete .byAge ⟨0⟩ 0 ⟨0⟩ (.release .done .top) closeOverPanic t := by
  have hs : Reachable .byAge (.foreign .numbering) closeOverPanic :=
    reachable_replay .byAge _ _ _ _
  have hcasc : closeOverPanic.cascades = [] := rfl
  have quiet : ∀ n, ¬ closeOverPanic.world.Closing n := by
    rintro n ⟨k, hk⟩
    have hmem := (hs.sound.closing n k).mp hk
    rw [hcasc] at hmem
    cases hmem
  exact close_completes .byAge hs (by decide) quiet (by decide) rfl

end Complete

end Machine

end ArrayLifetimes
