/-
Trees of holdings beside each other.

Trees that share neither a manager nor a leaf do not get in each other's way: a close of one
leaves the others standing as they were.  So they can be closed one after the other, in any
order, and each close does and reports what it would have done and reported as the first one.
-/
import ArrayLifetimes.Proofs.PiecewiseClose

namespace ArrayLifetimes

/-- The call closes the manager of the tree. -/
def CloseCall.Closes (c : CloseCall) (t : Holding) : Prop := t.id? = some c.manager

namespace World

/-- Trees stand, and nothing is in two of them. -/
structure Grove (w : World) (ts : List Holding) : Prop where
  stands : ∀ t ∈ ts, w.Stands t
  ids : (ts.flatMap Holding.ids).Nodup
  leaves : ((ts.flatMap Holding.leaves).map Prod.snd).Nodup

variable {w u v : World} {t : Holding} {ts us : List Holding}

theorem Grove.perm (h : w.Grove ts) (hp : ts.Perm us) : w.Grove us where
  stands t ht := h.stands t (hp.mem_iff.mpr ht)
  ids := (hp.flatMap_right _).nodup_iff.mp h.ids
  leaves := ((hp.flatMap_right _).map _).nodup_iff.mp h.leaves

theorem Grove.alike (h : w.Grove (t :: ts)) (hu : w.Cleared (w.opens t) (w.pending t) u) :
    ∀ s ∈ ts, w.Alike u s :=
  hu.alike_beside h.leaves (fun s hs => h.stands s (List.mem_cons_of_mem _ hs)) h.ids

/-- The other trees stand when one has been closed. -/
theorem Grove.rest (h : w.Grove (t :: ts)) (hu : w.Cleared (w.opens t) (w.pending t) u) :
    u.Grove ts where
  stands s hs := (h.alike hu s hs).stands
  ids := by
    have hids := h.ids
    rw [List.flatMap_cons] at hids
    exact hids.of_append_right
  leaves := by
    have hleaves := h.leaves
    rw [List.flatMap_cons, List.map_append] at hleaves
    exact hleaves.of_append_right

/-- What is pending in the trees is pending once. -/
theorem Grove.not_mem_pending (h : w.Grove (t :: ts)) :
    ∀ x ∈ ts.flatMap w.pending, x ∉ w.pending t := by
  intro x hx
  obtain ⟨s, hs, hxs⟩ := List.mem_flatMap.mp hx
  obtain ⟨e, he, rfl⟩ := List.mem_map.mp (List.mem_filter.mp hxs).1
  exact not_mem_pending_beside h.leaves s hs e he

/-- What the other trees report does not depend on the close of the first. -/
theorem Grove.failures (h : w.Grove (t :: ts)) (hw : w.Apart)
    (settled : w.Settled ((t :: ts).flatMap w.pending))
    (hu : w.Cleared (w.opens t) (w.pending t) u) {zs : List Resource} (ha : w.Asks zs u)
    (hz : zs.Perm (w.pending t)) : ts.flatMap u.failures = ts.flatMap w.failures := by
  rw [List.flatMap_cons] at settled
  refine List.flatMap_congr fun s hs => ?_
  rw [failures_eq, failures_eq]
  refine List.filterMap_congr fun e he => ?_
  refine hu.failure? hw ha hz settled (not_mem_pending_beside h.leaves s hs e he) fun her => ?_
  refine List.mem_flatMap.mpr ⟨s, hs, List.mem_filter.mpr ⟨List.mem_map_of_mem he, ?_⟩⟩
  rw [her, Bool.not_false]

/-- **Trees can be closed one after the other.**  All of them are cleared by that, and what is
reported are the failures of all, if how the release of a leaf ends does not depend on the
others. -/
theorem Grove.exists_closesAll (h : w.Grove ts) (hw : w.Apart) {calls : List CloseCall}
    (hcalls : List.Forall₂ CloseCall.Closes calls ts) :
    ∃ fs v, w.ClosesAll calls fs v ∧
      w.Cleared (ts.flatMap w.opens) (ts.flatMap w.pending) v ∧
      (w.Settled (ts.flatMap w.pending) → fs.Perm (ts.flatMap w.failures)) := by
  induction hcalls generalizing w with
  | nil => exact ⟨[], w, .nil w, .refl w, fun _ => .refl _⟩
  | @cons c t calls ts hc _ ih =>
      obtain ⟨zs, u, o, hreleased⟩ :=
        (h.stands t (List.mem_cons_self ..)).exists_released c.order c.thread hw
      obtain ⟨fs, rfl⟩ := hreleased.manager c.manager hc
      have hu := hreleased.cleared
      have alike := h.alike hu
      obtain ⟨gs, v, hall, hcleared, hgs⟩ := ih (h.rest hu) (hu.apart hw)
      rw [List.flatMap_congr fun s hs => (alike s hs).opens,
        List.flatMap_congr fun s hs => (alike s hs).pending] at hcleared
      rw [List.flatMap_congr fun s hs => (alike s hs).pending] at hgs
      refine ⟨_, v, .cons (hreleased.closes hc) hall,
        hu.trans hcleared hw h.not_mem_pending, fun settled => ?_⟩
      have hz := (hreleased.walk.perm.map Prod.snd).filter fun x => !w.isReleased x
      have hfirst := hreleased.failures (settled.mono (List.sublist_append_left ..).subperm)
      have hafter := hgs (settled.after hu hreleased.asks hz)
      rw [h.failures hw settled hu hreleased.asks hz] at hafter
      rw [Outcome.failures_ofFailures] at hfirst
      rw [Outcome.reported_ofFailures, hfirst, List.flatMap_cons, failures_eq w t]
      exact (hreleased.walk.perm.filterMap _).append hafter

/-- A close of a tree reports what fails below it. -/
theorem Stands.perm_reported (ht : w.Stands t) (hw : w.Apart) (settled : w.Settled (w.pending t))
    {order : VisitOrder} {id : ThreadId} {m : ManagerId} (hm : t.id? = some m) {o : Outcome}
    (h : w.Closes order id m o v) : o.reported.Perm (w.failures t) := by
  obtain ⟨fs, v', hall, -, hfs⟩ :=
    ht.exists_closesAll hw settled [] (fun _ hc => by cases hc) ⟨order, id, m⟩ hm
  obtain ⟨rfl, rfl⟩ := (ClosesAll.cons h (.nil v)).unique hall
  rwa [List.append_nil] at hfs

end World

end ArrayLifetimes
