/-
No leak and no dangling array over the host engine.

Three things have to agree all the time: the buffers that the engine has, the marks on the
arrays, and what managers have under their keys.  `Tallied` ties the first to the second, and
`Minded` the second to the third, along every run.  Here the two are read off where nothing is
going on.

A run is taken with the steps that it took, because an array may have been let go by any of
them.
-/
import ArrayLifetimes.Proofs.Machine.Custody
import ArrayLifetimes.Proofs.Machine.Replay

namespace ArrayLifetimes

namespace Machine

/-! ### Runs and their steps -/

/-- A run with the steps that it took, the latest first: the state in which each began, and the
place of the thread that took it. -/
inductive Takes (order : VisitOrder) (s : Machine) : List (Machine × Nat) → Machine → Prop
  | refl : Takes order s [] s
  | step {ps : List (Machine × Nat)} {t u : Machine} (i : Nat) (h : Takes order s ps t)
      (hi : t.stepAt order i = some u) : Takes order s ((t, i) :: ps) u
  | command {ps : List (Machine × Nat)} {t : Machine} (c : Command) (h : Takes order s ps t)
      (hi : t.Idle) : Takes order s ps (t.world.machine c)

section Takes

variable {order : VisitOrder} {s t u : Machine} {ps qs : List (Machine × Nat)}

theorem Takes.leads (h : Takes order s ps t) : Leads order s t := by
  induction h with
  | refl => exact .refl
  | step i _ hi ih => exact ih.tail (.step i hi)
  | command c _ hi ih => exact ih.tail (.command _ c hi)

/-- Every run takes some steps. -/
theorem exists_takes (h : Leads order s t) : ∃ ps, Takes order s ps t := by
  induction h with
  | refl => exact ⟨[], .refl⟩
  | tail _ hn ih =>
      obtain ⟨ps, hps⟩ := ih
      cases hn with
      | step i hi => exact ⟨_, hps.step i hi⟩
      | command c hi => exact ⟨_, hps.command c hi⟩

theorem Takes.trans (h : Takes order s ps t) (h' : Takes order t qs u) :
    Takes order s (qs ++ ps) u := by
  induction h' with
  | refl => exact h
  | step i _ hi ih => exact ih.step i hi
  | command c _ hi ih => exact ih.command c hi

/-- **Along a run the arrays are minded**, but for those that its steps let go. -/
theorem Takes.minded (h : Takes order s ps t) (hs : s.Sound) (hm : s.Minded fun _ => False)
    (hd : ∀ p ∈ ps, p.1.disturbs p.2 = false) : t.Minded fun a => ∃ p ∈ ps, p.1.LetsGo p.2 a := by
  induction h with
  | refl => exact hm.imp fun a ha => ha.elim
  | step i h hi ih =>
      have hold := ih fun p hp => hd p (List.mem_cons_of_mem _ hp)
      refine (hold.step (hs.leads h.leads) hi (hd _ (List.mem_cons_self ..))).imp ?_
      rintro a (⟨p, hp, hgo⟩ | hgo)
      · exact ⟨p, List.mem_cons_of_mem _ hp, hgo⟩
      · exact ⟨_, List.mem_cons_self .., hgo⟩
  | command c h hi ih => exact (ih hd).command hi c

end Takes

/-! ### No leak -/

/-- **No leak and no dangling array.**  In a run over the host engine in which nobody asks the
engine itself to make or free an array, and wherever nothing is going on: the handles that
the engine has are those of the arrays that are not released; each of these arrays can be
read, and has as many bytes as its shape and data type take; and each is a resource of an
open manager, unless a step of the run has let it go. -/
theorem no_leak (order : VisitOrder) (config : Config) (draws : Draws)
    {ps : List (Machine × Nat)} {s : Machine}
    (hr : Takes order (fresh .host config draws) ps s)
    (hd : ∀ p ∈ ps, p.1.disturbs p.2 = false) (hi : s.Idle) :
    (∀ x, s.world.engine.host.contains x = true ↔ s.world.Live x) ∧
    ∀ a r, s.world.array? a = some r → r.released = false →
      (∃ bytes, (s.world.arrayBytes a).2 = .ok bytes ∧
        r.shape.byteLen r.dataType = some bytes.length) ∧
      (s.world.Managed a ∨ ∃ p ∈ ps, p.1.LetsGo p.2 a) := by
  have hm := hr.minded (sound_fresh .host config draws) (minded_fresh config draws) hd
  refine ⟨?_, ?_⟩
  · intro x
    rw [World.live_iff_mem_stock]
    exact hm.tallied.stores.contains_iff x
  · intro a r ha hrel
    exact ⟨hm.tallied.arrayBytes ha hrel, hm.managed_of_idle hi ⟨r, ha, hrel⟩⟩

/-! ### A session -/

/-- The steps of `advance`, the latest first. -/
def advanced (order : VisitOrder) : Nat → Machine → List (Machine × Nat)
  | 0, _ => []
  | n + 1, s =>
    match s.stepAt order 0 with
    | some t => advanced order n t ++ [(s, 0)]
    | none => []

/-- The steps of `replay`, the latest first. -/
def replayed (order : VisitOrder) : List (Command × Nat) → Machine → List (Machine × Nat)
  | [], _ => []
  | (c, n) :: rest, s =>
    if s.Idle then
      replayed order rest (advance order n (s.world.machine c)) ++
        advanced order n (s.world.machine c)
    else []

theorem takes_advance (order : VisitOrder) (n : Nat) (s : Machine) :
    Takes order s (advanced order n s) (advance order n s) := by
  induction n generalizing s with
  | zero => exact .refl
  | succ n ih =>
      cases ht : s.stepAt order 0 with
      | none =>
          simp only [advance, advanced, ht]
          exact .refl
      | some t =>
          simp only [advance, advanced, ht]
          exact (Takes.step 0 .refl ht).trans (ih t)

theorem takes_replay (order : VisitOrder) (cs : List (Command × Nat)) (s : Machine) :
    Takes order s (replayed order cs s) (replay order cs s) := by
  induction cs generalizing s with
  | nil => exact .refl
  | cons c cs ih =>
      obtain ⟨c, n⟩ := c
      by_cases hi : s.Idle
      · simp only [replay, replayed, if_pos hi]
        have hc : Takes order s [] (s.world.machine c) := .command c .refl hi
        have hrun := hc.trans (takes_advance order n (s.world.machine c))
        rw [List.append_nil] at hrun
        exact hrun.trans (ih _)
      · simp only [replay, replayed, if_neg hi]
        exact .refl

/-- Two arrays are made.  One is detached, and the other is released with its manager. -/
def detaching : List (Command × Nat) :=
  [(.base "p" none, 1), (.allocate "p" "x" (.zeros ⟨[1]⟩ none) none, 1),
    (.allocate "p" "y" (.zeros ⟨[2]⟩ none) none, 1), (.detach "p" (.uid "x") none, 1),
    (.close "p", 9)]

def detachedSteps : List (Machine × Nat) :=
  replayed .byAge detaching (fresh .host {} fun _ => .zero)

def detached : Machine := replay .byAge detaching (fresh .host {} fun _ => .zero)

/-- The array that is detached is still there, and the one that is not is released. -/
theorem no_leak_detached :
    Takes .byAge (fresh .host {} fun _ => .zero) detachedSteps detached ∧
    (∀ p ∈ detachedSteps, p.1.disturbs p.2 = false) ∧ detached.Idle ∧
    detached.world.array? ⟨0⟩ = some ⟨⟨1⟩, ⟨[1]⟩, .float32, .cpu, ⟨false⟩⟩ ∧
    detached.world.isReleased (.array ⟨1⟩) = true ∧
    (∀ x, detached.world.engine.host.contains x = true ↔ detached.world.Live x) ∧
    (detached.world.Managed ⟨0⟩ ∨ ∃ p ∈ detachedSteps, p.1.LetsGo p.2 ⟨0⟩) := by
  have hr : Takes .byAge (fresh .host {} fun _ => .zero) detachedSteps detached :=
    takes_replay .byAge detaching _
  have hd : ∀ p ∈ detachedSteps, p.1.disturbs p.2 = false := by decide
  have hi : detached.Idle := by decide
  have ha : detached.world.array? ⟨0⟩ = some ⟨⟨1⟩, ⟨[1]⟩, .float32, .cpu, ⟨false⟩⟩ := by decide
  obtain ⟨hlive, harrays⟩ := no_leak .byAge {} (fun _ => .zero) hr hd hi
  exact ⟨hr, hd, hi, ha, by decide, hlive, (harrays ⟨0⟩ _ ha rfl).2⟩

end Machine

end ArrayLifetimes
