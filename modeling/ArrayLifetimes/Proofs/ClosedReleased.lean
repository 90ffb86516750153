/-
A closed manager and what it owned.

It is meant that everything which a manager owned is released by the time it is closed.
Where closes are re-entrant this fails.  A release hook may close the parent of a manager
whose own cascade is below on the stack: the parent's cascade passes the child over, ends,
and the parent is closed although its child is not.

The theorem says when it fails, and when only: what is not released is a manager that was
closing when its owner left its open state, and closes still.
-/
import ArrayLifetimes.Proofs.Machine.Debts
import ArrayLifetimes.Proofs.Machine.Replay

namespace ArrayLifetimes

namespace Machine

/-- **A closed manager owned released things only**, but for managers that were closing when it left
its open state and are closing still. -/
theorem released_iff_of_closed (order : VisitOrder) {kind : EngineKind} {s s' t : Machine}
    (hs : Reachable order kind s) {m : ManagerId} {r : Manager}
    (hr : s.world.openManager m = .ok r) (hn : Next order s s')
    (hl : s'.world.lifecycle? m ≠ some .opened) (ht : Leads order s' t)
    (hm : t.world.lifecycle? m = some .closed) :
    ∀ x ∈ r.owned, t.world.isReleased x = true ↔
      ¬ ∃ n, x = .manager n ∧ s.world.Closing n ∧ t.world.Closing n := by
  intro x hx
  cases hn with
  | step i h =>
      obtain ⟨base, hd⟩ := debts_begin hs.sound h hr hl
      have hs' := hs.sound.step h
      exact (hd.leads hs' ht).released (hs'.leads ht) hm hx
  | command c h =>
      have ho : s.world.lifecycle? m = some .opened :=
        World.lifecycle?_eq_some.mpr ⟨r, World.openManager_eq_ok.mp hr⟩
      exact absurd ho hl

/-- A session in which a manager `p` with a child `c` is made, and a release hook below the child
closes `p`.  It stops a number of steps into the close of `c`. -/
def closeFromBelow (steps : Nat) : Machine :=
  replay .byAge
    [(.base "p" none, 2), (.sub "p" "c" none, 2), (.sub "c" "g" none, 2),
      (.allocate "c" "a" (.zeros ⟨[1]⟩ none) none, 2),
      (.attach "g" (.text "k") (.hook "h" [.close "p"] .succeed) none, 2),
      (.close "c", steps)]
    (fresh (.foreign .numbering) {} fun _ => .zero)

theorem released_iff_of_closed_from_below : ∃ r,
    (closeFromBelow 8).world.openManager ⟨0⟩ = .ok r ∧ ∀ x ∈ r.owned,
      (closeFromBelow 14).world.isReleased x = true ↔
        ¬ ∃ n, x = .manager n ∧ (closeFromBelow 8).world.Closing n ∧
          (closeFromBelow 14).world.Closing n := by
  have hs : Reachable .byAge (.foreign .numbering) (closeFromBelow 8) :=
    reachable_replay .byAge _ _ _ _
  have hn : Next .byAge (closeFromBelow 8) (closeFromBelow 9) := .step 0 rfl
  have ht : Leads .byAge (closeFromBelow 9) (closeFromBelow 14) :=
    leads_advance .byAge 5 (closeFromBelow 9)
  exact ⟨_, rfl,
    released_iff_of_closed .byAge (m := ⟨0⟩) hs rfl hn (by decide) ht (by decide)⟩

/-- **A closed manager with a child that is not**: in the middle of the close of `c`, its parent `p`
is closed, `c` is closing, and its array is not released. -/
theorem closed_over_closing_child : ∃ s s' t : Machine, ∃ r,
    Reachable .byAge (.foreign .numbering) s ∧ Next .byAge s s' ∧ Leads .byAge s' t ∧
    s.world.openManager ⟨0⟩ = .ok r ∧ s'.world.lifecycle? ⟨0⟩ ≠ some .opened ∧
    t.world.lifecycle? ⟨0⟩ = some .closed ∧ ⟨1⟩ ∈ r.children ∧
    t.world.lifecycle? ⟨1⟩ = some (.closing ⟨0⟩) ∧
    t.world.isReleased (.manager ⟨1⟩) = false ∧ t.world.isReleased (.array ⟨0⟩) = false := by
  have hs : Reachable .byAge (.foreign .numbering) (closeFromBelow 8) :=
    reachable_replay .byAge _ _ _ _
  have hn : Next .byAge (closeFromBelow 8) (closeFromBelow 9) := .step 0 rfl
  have ht : Leads .byAge (closeFromBelow 9) (closeFromBelow 14) :=
    leads_advance .byAge 5 (closeFromBelow 9)
  exact ⟨_, _, _, _, hs, hn, ht, rfl, by decide, by decide, by decide, by decide, by decide,
    by decide⟩

end Machine

end ArrayLifetimes
