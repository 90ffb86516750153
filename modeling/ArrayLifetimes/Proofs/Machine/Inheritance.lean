/-
What the close of a manager takes with it.

A manager that leaves its open state gives all that it owns to its cascade.  The cascade releases
that, and where it closes a manager on the way it goes on with what that one owned, when it left
its open state in turn.  So a release that is part of the close of a manager is the release of
something that has come down from it, from owner to owner.

The claim about one release is an invariant of the stacks: as long as the manager is open no
cascade on a stack is part of its close, and from then on each step hands on what has come
down already.
-/
import ArrayLifetimes.Proofs.ForestExact
import ArrayLifetimes.Proofs.Machine.Debts
import ArrayLifetimes.Proofs.Machine.Rules

namespace ArrayLifetimes

namespace Stack

/-- The managers whose cascades the release above is part of, the innermost first: each has asked
for the close of the one before it. -/
def askers {want : Want} : Stack want → List ManagerId
  | .cascade m _ _ _ below => m :: below.askers
  | _ => []

theorem mem_cascades_of_askers {want : Want} {σ : Stack want} {m : ManagerId}
    (h : m ∈ σ.askers) (id : ThreadId) : (m, id) ∈ σ.cascades id := by
  induction σ with
  | cascade n item rest failures below ih =>
      rcases List.mem_cons.mp h with rfl | h
      · exact List.mem_cons_self ..
      · exact List.mem_cons_of_mem _ (ih h)
  | _ => cases h

end Stack

/-- What has come down from a manager, from owner to owner. -/
inductive Inherits (gave : ManagerId → Resource → Prop) (c : ManagerId) : Resource → Prop
  | own (x : Resource) (h : gave c x) : Inherits gave c x
  | through (n : ManagerId) (x : Resource) (h : Inherits gave c (.manager n)) (hx : gave n x) :
      Inherits gave c x

/-- Whatever is part of the close of a manager has the property. -/
def CascadeRule.passes (c : ManagerId) (P : Resource → Prop) : CascadeRule where
  asks x below := c ∈ below.askers → P x
  waits m _ rest below := c ∈ m :: below.askers → ∀ x ∈ rest.items, P x
  loops m rest below := c ∈ m :: below.askers → ∀ x ∈ rest.items, P x

section Passes

variable {c : ManagerId} {P : Resource → Prop}

theorem CascadeRule.lawful_passes : (passes c P).Lawful where
  outside x below h := by
    cases below with
    | cascade m item rest failures below => exact h.elim
    | _ =>
        intro hc
        cases hc
  child m d children resources failures below h :=
    ⟨fun hc x hx => h hc x (List.mem_cons_of_mem _ hx), fun hc => h hc _ (List.mem_cons_self ..)⟩
  resource m key x resources failures below h :=
    ⟨fun hc y hy => h hc y (List.mem_cons_of_mem _ hy), fun hc => h hc _ (List.mem_cons_self ..)⟩
  back m item rest below h := h

/-- On a stack without the cascade of the manager there is nothing to be shown. -/
theorem Stack.passes_of_not_mem {want : Want} {σ : Stack want} {id : ThreadId}
    (h : ∀ k, (c, k) ∉ σ.cascades id) : σ.Obeys (.passes c P) := by
  induction σ generalizing id with
  | top | closer => trivial
  | cascade m item rest failures below ih =>
      have hb : ∀ k, (c, k) ∉ below.cascades id := fun k hk => h k (List.mem_cons_of_mem _ hk)
      refine ⟨fun hc => ?_, ih hb⟩
      rcases List.mem_cons.mp hc with rfl | hc
      · exact absurd (List.mem_cons_self ..) (h id)
      · exact absurd (below.mem_cascades_of_askers hc id) (hb id)
  | closers m left replies caller below ih | joined caller below ih => exact ih h
  | _ =>
      rename_i ih
      exact ih h

theorem Task.passes_of_not_mem {task : Task} (id : ThreadId)
    (h : ∀ k, (c, k) ∉ task.cascades id) : task.Obeys (.passes c P) := by
  cases task with
  | release x below =>
      exact ⟨fun hc => absurd (below.mem_cascades_of_askers hc id) (h id),
        Stack.passes_of_not_mem h⟩
  | sweep m rest failures below =>
      have hb : ∀ k, (c, k) ∉ below.cascades id := fun k hk => h k (List.mem_cons_of_mem _ hk)
      refine ⟨fun hc => ?_, Stack.passes_of_not_mem hb⟩
      rcases List.mem_cons.mp hc with rfl | hc
      · exact absurd (List.mem_cons_self ..) (h id)
      · exact absurd (below.mem_cascades_of_askers hc id) (hb id)
  | _ => exact Stack.passes_of_not_mem h

end Passes

namespace Machine

variable {order : VisitOrder} {kind : EngineKind} {s t a b : Machine} {c : ManagerId}

/-- In the run from one machine to another a manager, as `r`, leaves its open state after `a`. -/
structure Departs (order : VisitOrder) (s t : Machine) (m : ManagerId) (a : Machine)
    (r : Manager) : Prop where
  before : Leads order s a
  isOpen : a.world.openManager m = .ok r
  after : ∃ b, Next order a b ∧ b.world.lifecycle? m ≠ some .opened ∧ Leads order b t

/-- A manager has left its open state in the run, and has owned the resource then. -/
def Gave (order : VisitOrder) (s t : Machine) (m : ManagerId) (x : Resource) : Prop :=
  ∃ a r, Departs order s t m a r ∧ x ∈ r.owned

theorem Departs.next {m : ManagerId} {r : Manager} (h : Departs order s t m a r)
    (hn : Next order t b) : Departs order s b m a r := by
  obtain ⟨u, hu, hl, hlead⟩ := h.after
  exact ⟨h.before, h.isOpen, u, hu, hl, hlead.tail hn⟩

/-- A manager that is open no longer has left its open state at some time. -/
theorem exists_departs (h : Leads order s t)
    (hc : s.world.lifecycle? c = some .opened) (ht : t.world.lifecycle? c ≠ some .opened) :
    ∃ a r, Departs order s t c a r := by
  induction h with
  | refl => exact absurd hc ht
  | @tail a t hsa hn ih =>
      by_cases ha : a.world.lifecycle? c = some .opened
      · obtain ⟨r, hr⟩ := World.lifecycle?_eq_some.mp ha
        exact ⟨a, r, hsa, World.openManager_eq_ok.mpr hr, t, hn, ht, .refl⟩
      · obtain ⟨b, r, hd⟩ := ih ha
        exact ⟨b, r, hd.next hn⟩

/-- At the begin of a close what the manager owned has come down: from the manager itself, and from
one whose close this is a part of. -/
theorem passes_beginClose {gave : ManagerId → Resource → Prop} {m : ManagerId} {r : Manager}
    {k : ThreadId} {below : Stack .outcome} (h : Leads order s a) (hn : Next order a b)
    (hr : a.world.openManager m = .ok r) (hb : b.world = (a.world.beginClose m r k).1)
    (hgave : ∀ n x, Gave order s b n x → gave n x)
    (hasks : (CascadeRule.passes c (Inherits gave c)).asks (.manager m) below) :
    (CascadeRule.passes c (Inherits gave c)).loops m
      (order.arrange m ⟨r.children, r.resources.entries⟩) below := by
  intro hmem x hx
  have hleft : b.world.lifecycle? m ≠ some .opened := by
    rw [hb, World.lifecycle?_beginClose _ _ hr, if_pos rfl]
    simp
  have hx' : gave m x := by
    have howned := (order.items_arrange m _).subset hx
    exact hgave m x ⟨a, r, ⟨h, hr, b, hn, hleft, .refl⟩, howned⟩
  rcases List.mem_cons.mp hmem with rfl | hmem
  · exact .own x hx'
  · exact .through m x (hasks hmem) hx'

/-- The cascades of a run hand on what has come down. -/
theorem Sound.passes (hs : s.Sound) (hc : s.world.lifecycle? c = some .opened)
    (h : Leads order s t) {gave : ManagerId → Resource → Prop}
    (hgave : ∀ m x, Gave order s t m x → gave m x) :
    ∀ q ∈ t.threads, q.task.Obeys (.passes c (Inherits gave c)) := by
  induction h with
  | refl =>
      intro q hq
      refine Task.passes_of_not_mem q.id fun k hk => ?_
      have hclosing := hs.closing_of_mem hq hk
      rw [hc] at hclosing
      cases hclosing
  | @tail a t hsa hn ih =>
      have hold := ih fun m x hm => by
        obtain ⟨b, r, hd, hx⟩ := hm
        exact hgave m x ⟨b, r, hd.next hn, hx⟩
      cases hn with
      | command d hi =>
          intro q hq
          rw [List.mem_singleton.mp hq]
          trivial
      | step i hst =>
          have hn : Next order a t := .step i hst
          obtain ⟨before, u, after, v, u', started, -, hstep, rfl⟩ := stepAt_eq_some hst
          have hnew := Thread.obeys_of_step order a.running CascadeRule.lawful_passes
            (fun m r k below hr hv => passes_beginClose hsa hn hr hv hgave)
            (hold u hstep.mem) hstep.step
          intro q hq
          rcases hstep.came hq with hq | hq
          · exact hold q hq
          · exact hnew q (List.mem_cons.mpr hq)

/-- **A release that is part of the close of a manager is one of what has come down from it.** -/
theorem Sound.inherits (hs : s.Sound) (hc : s.world.lifecycle? c = some .opened)
    (h : Leads order s t) {j : Nat} {k : ThreadId} {x : Resource} {σ : Stack .outcome}
    (hj : t.threads[j]? = some ⟨k, .release x σ⟩) (hmem : c ∈ σ.askers) :
    Inherits (Gave order s t) c x :=
  (hs.passes hc h (fun _ _ hm => hm) _ (List.mem_of_getElem? hj)).1 hmem

/-- A manager that is closed is on nobody's list. -/
theorem Reachable.not_child_of_closed (hs : Reachable order kind s)
    (hc : s.world.lifecycle? c = some .closed) (p : ManagerId) : ¬ s.world.Child p c := by
  rintro ⟨r, hr, hmem⟩
  have hopen := hs.sound.owned.opened_of_owned hr (List.mem_append_left _ (List.mem_map_of_mem hmem))
  obtain ⟨made, parted, hp⟩ := hs.exists_planted
  obtain ⟨hunder, -⟩ := (hp.mem_children p _ (World.kin?_of_manager? hr) hopen c).mp hmem
  have hnot := World.not_released_of_under hunder
  rw [World.isReleased_manager.mpr hc] at hnot
  cases hnot

/-- A manager is open in `s` and has been closed in `t`. -/
structure ClosedOff (order : VisitOrder) (s t : Machine) (c : ManagerId) : Prop where
  closed : t.world.lifecycle? c = some .closed
  /-- It is nobody's child any more. -/
  unlinked : ∀ p, ¬ t.world.Child p c
  /-- It has left its open state on the way. -/
  departs : ∃ a r, Departs order s t c a r
  /-- What it owned then is released, but for managers that were being closed at the time. -/
  released : ∀ a r, Departs order s t c a r → ∀ x ∈ r.owned, t.world.isReleased x = true ∨
    ∃ n, x = .manager n ∧ a.world.Closing n ∧ t.world.Closing n
  /-- Its close has released nothing but what came down from it. -/
  spared : ∀ a, Leads order s a → ∀ (j : Nat) (k : ThreadId) (x : Resource) (σ : Stack .outcome),
    a.threads[j]? = some ⟨k, .release x σ⟩ → c ∈ σ.askers → Inherits (Gave order s a) c x

/-- **What a manager owned is released when it is closed, and nothing else.** -/
theorem Reachable.closedOff (hs : Reachable order kind s)
    (hc : s.world.lifecycle? c = some .opened) (h : Leads order s t)
    (ht : t.world.lifecycle? c = some .closed) : ClosedOff order s t c where
  closed := ht
  unlinked := (hs.leads h).not_child_of_closed ht
  departs := exists_departs h hc (by rw [ht]; simp)
  released a r hd x hx := by
    obtain ⟨b, hn, hl, hbt⟩ := hd.after
    have ha := hs.sound.leads hd.before
    cases hn with
    | command d hi =>
        exact absurd (World.lifecycle?_eq_some.mpr ⟨r, World.openManager_eq_ok.mp hd.isOpen⟩) hl
    | step i hst =>
        obtain ⟨base, hdebts⟩ := debts_begin ha hst hd.isOpen hl
        have hb := ha.step hst
        have hiff := (hdebts.leads hb hbt).released (hb.leads hbt) ht hx
        by_cases hnot : ∃ n, x = .manager n ∧ a.world.Closing n ∧ t.world.Closing n
        · exact Or.inr hnot
        · exact Or.inl (hiff.mpr hnot)
  spared a ha j k x σ hj hmem := hs.sound.inherits hc ha hj hmem

end Machine

end ArrayLifetimes
