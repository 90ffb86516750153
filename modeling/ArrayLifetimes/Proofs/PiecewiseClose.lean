/-
Closing piece by piece.

Managers of a tree may be closed one by one before the root is, in any order and more than
once.  Each of these closes clears its own part of the tree, and what is left stands as a
tree still.  So all of them together clear what one close of the root would have cleared,
and report what it would have reported.
-/
import ArrayLifetimes.Proofs.Cascade.Closes

namespace ArrayLifetimes

/-- The entries that the outcome of a close reports. -/
def Outcome.reported (o : Outcome) : ReleaseFailures :=
  (o.error?.bind ManagerError.failures?).getD []

theorem Outcome.reported_ofFailures (fs : ReleaseFailures) : (ofFailures fs).reported = fs := by
  cases fs <;> rfl

/-- A call of the close of a manager, with the order in which its cascade visits. -/
structure CloseCall where
  order : VisitOrder
  thread : ThreadId
  manager : ManagerId

theorem perm_append_filter_not_mem {α : Type} [DecidableEq α] {xs l : List α} (hl : l.Nodup)
    (hx : xs.Sublist l) : (xs ++ l.filter fun x => x ∉ xs).Perm l := by
  have hnodup : (xs ++ l.filter fun x => x ∉ xs).Nodup := by
    refine List.nodup_append.mpr ⟨hl.sublist hx, hl.filter _, ?_⟩
    rintro x hmem y hy rfl
    simpa [hmem] using (List.mem_filter.mp hy).2
  refine (List.perm_ext_iff_of_nodup hnodup hl).mpr fun x => ?_
  rw [List.mem_append, List.mem_filter]
  constructor
  · rintro (h | ⟨h, -⟩)
    · exact hx.subset h
    · exact h
  · intro h
    by_cases hmem : x ∈ xs
    · exact Or.inl hmem
    · exact Or.inr ⟨h, by simpa using hmem⟩

namespace World

/-- Closes one after the other, and the entries of all errors that they return. -/
inductive ClosesAll : World → List CloseCall → ReleaseFailures → World → Prop
  | nil (w : World) : ClosesAll w [] [] w
  | cons {w u v : World} {c : CloseCall} {calls : List CloseCall} {o : Outcome}
      {fs : ReleaseFailures} (h : w.Closes c.order c.thread c.manager o u)
      (rest : ClosesAll u calls fs v) : ClosesAll w (c :: calls) (o.reported ++ fs) v

theorem ClosesAll.unique {w u v : World} {calls : List CloseCall} {fs gs : ReleaseFailures}
    (h : w.ClosesAll calls fs u) (h' : w.ClosesAll calls gs v) : fs = gs ∧ u = v := by
  induction h generalizing gs with
  | nil w =>
      cases h'
      exact ⟨rfl, rfl⟩
  | cons h _ ih =>
      cases h' with
      | cons h' rest' =>
          obtain ⟨rfl, rfl⟩ := h.unique h'
          obtain ⟨rfl, rfl⟩ := ih rest'
          exact ⟨rfl, rfl⟩

variable {w u : World} {t : Holding}

/-! ### One piece -/

/-- A close of one manager of a tree takes its part out of it, and leaves the rest as it was. -/
structure Piece (w : World) (t : Holding) (ms : List ManagerId) (xs : List Resource)
    (fs : ReleaseFailures) (u : World) : Prop where
  cleared : w.Cleared ms xs u
  stands : u.Stands t
  opens : (ms ++ u.opens t).Perm (w.opens t)
  pending : (xs ++ u.pending t).Perm (w.pending t)
  failures : (fs ++ u.failures t).Perm (w.failures t)
  settled : u.Settled (u.pending t)

/-- Everything in a part of the tree is released once its managers and leaves have been. -/
theorem Cleared.released_part {s : Holding} (hs : w.Stands s)
    (h : w.Cleared (w.opens s) (w.pending s) u) {p : Holding} (hp : p ∈ s.parts) :
    u.isReleased p.resource = true := by
  have hhas := (hs.fits p hp).has
  cases hreleased : w.isReleased p.resource with
  | true => exact h.released_mono hhas hreleased
  | false =>
      cases p with
      | leaf key x =>
          rw [Holding.resource] at hhas hreleased ⊢
          have hleaf := Holding.mem_leaves.mpr hp
          have hmem : x ∈ w.pending s :=
            List.mem_filter.mpr ⟨List.mem_map_of_mem hleaf, by rw [hreleased, Bool.not_false]⟩
          rw [h.isReleased hhas (hs.leaf_ne hleaf)]
          simp [hmem]
      | manager key m children resources =>
          rw [Holding.resource] at hhas hreleased ⊢
          have hid : m ∈ s.ids := Holding.mem_ids.mpr ⟨key, children, resources, hp⟩
          have hmem : m ∈ w.opens s :=
            List.mem_filter.mpr ⟨hid, by rw [hreleased, Bool.not_false]⟩
          rw [h.isReleased_manager hhas]
          simp [hmem]

/-- The tree stands after a part of it has been closed. -/
theorem Stands.after_part (ht : w.Stands t) {s : Holding} (hs : s ∈ t.parts)
    (h : w.Cleared (w.opens s) (w.pending s) u) : u.Stands t := by
  refine ht.cleared h ?_
  intro key m children resources hp hm c hc
  obtain ⟨key', children', resources', hq⟩ := Holding.mem_ids.mp (List.mem_filter.mp hm).1
  have heq := Holding.eq_of_id? ht.ids hp ((Holding.parts_sublist hs).subset hq) rfl rfl
  rw [← heq] at hq
  exact h.released_part (ht.part hs)
    ((Holding.parts_sublist hq).subset ((Holding.parts_sublist_of_mem hc).subset c.mem_parts_self))

/-- The failures of a part and those of what is left are those of the whole. -/
theorem Stands.failures_after_part (ht : w.Stands t) (hw : w.Apart)
    (settled : w.Settled (w.pending t)) {s : Holding} (hs : s ∈ t.parts)
    (h : w.Cleared (w.opens s) (w.pending s) u) {zs : List Resource} (ha : w.Asks zs u)
    (hz : zs.Perm (w.pending s)) (hpending : (w.pending s ++ u.pending t).Perm (w.pending t)) :
    (w.failures s ++ u.failures t).Perm (w.failures t) := by
  obtain ⟨rest, hrest⟩ := (Holding.leaves_sublist hs).exists_perm_append
  have hpart : s.leaves.filterMap u.failure? = [] := by
    refine List.filterMap_eq_nil_iff.mpr fun e he => failure?_of_released ?_
    exact h.released_part (ht.part hs) (Holding.mem_leaves.mp he)
  have hnodup := ((hrest.map Prod.snd).nodup_iff.mp ht.leaves)
  rw [List.map_append, List.nodup_append] at hnodup
  have hsame : rest.filterMap u.failure? = rest.filterMap w.failure? := by
    refine List.filterMap_congr fun e he => ?_
    have hout : e.2 ∉ w.pending s := fun hmem =>
      hnodup.2.2 e.2 (List.mem_filter.mp hmem).1 e.2 (List.mem_map_of_mem he) rfl
    refine h.failure? hw ha hz (settled.mono hpending.subperm) hout fun hunreleased => ?_
    have hmem : e.2 ∈ w.pending t := by
      refine List.mem_filter.mpr ⟨List.mem_map_of_mem ?_, by rw [hunreleased, Bool.not_false]⟩
      exact hrest.mem_iff.mpr (List.mem_append_right _ he)
    exact (List.mem_append.mp (hpending.mem_iff.mpr hmem)).resolve_left hout
  have hbefore : (w.failures t).Perm (s.leaves.filterMap w.failure? ++ rest.filterMap w.failure?) := by
    rw [failures_eq, ← List.filterMap_append]
    exact hrest.filterMap _
  have hafter : (u.failures t).Perm (rest.filterMap w.failure?) := by
    have hsplit := hrest.filterMap u.failure?
    rwa [List.filterMap_append, hpart, List.nil_append, hsame, ← failures_eq] at hsplit
  rw [failures_eq w s]
  exact (hafter.append_left _).trans hbefore.symm

/-- **A close of any manager of the tree is a piece of the close of the whole.** -/
theorem Stands.exists_piece (ht : w.Stands t) (hw : w.Apart) (settled : w.Settled (w.pending t))
    (c : CloseCall) (hc : c.manager ∈ t.ids) :
    ∃ o u ms xs, w.Closes c.order c.thread c.manager o u ∧ w.Piece t ms xs o.reported u := by
  obtain ⟨key, children, resources, hs⟩ := Holding.mem_ids.mp hc
  have hstands := ht.part hs
  obtain ⟨zs, u, o, h⟩ := hstands.exists_released c.order c.thread hw
  obtain ⟨fs, rfl⟩ := h.manager _ rfl
  have hpending := perm_append_filter_not_mem (ht.leaves.filter _)
    (((Holding.leaves_sublist hs).map Prod.snd).filter fun x => !w.isReleased x)
  have hopens := perm_append_filter_not_mem (ht.ids.filter _)
    ((Holding.ids_sublist hs).filter fun m => !w.isReleased (.manager m))
  have hleft : (w.pending (.manager key c.manager children resources) ++ u.pending t).Perm
      (w.pending t) := by
    rw [h.cleared.pending ht]
    exact hpending
  have hz := (h.walk.perm.map Prod.snd).filter fun x => !w.isReleased x
  have hpart := settled.mono
    (((Holding.leaves_sublist hs).map Prod.snd).filter fun x => !w.isReleased x).subperm
  have hfs := h.failures hpart
  rw [Outcome.failures_ofFailures] at hfs
  have hreport : fs.Perm (w.failures (.manager key c.manager children resources)) := by
    rw [hfs, failures_eq]
    exact h.walk.perm.filterMap _
  refine ⟨_, u, _, _, h.closes rfl, h.cleared, ht.after_part hs h.cleared, ?_, hleft, ?_,
    (settled.mono hleft.subperm).after h.cleared h.asks hz⟩
  · rw [h.cleared.opens ht]
    exact hopens
  · rw [Outcome.reported_ofFailures]
    exact (hreport.append_right _).trans
      (ht.failures_after_part hw settled hs h.cleared h.asks hz hleft)

/-! ### All pieces -/

/-- **Whatever is closed before, the last close of the root completes the close of the tree.** -/
theorem Stands.exists_closesAll (ht : w.Stands t) (hw : w.Apart)
    (settled : w.Settled (w.pending t)) (calls : List CloseCall)
    (hcalls : ∀ c ∈ calls, c.manager ∈ t.ids) (last : CloseCall)
    (hlast : t.id? = some last.manager) :
    ∃ fs v, w.ClosesAll (calls ++ [last]) fs v ∧ w.Cleared (w.opens t) (w.pending t) v ∧
      fs.Perm (w.failures t) := by
  induction calls generalizing w with
  | nil =>
      obtain ⟨zs, v, o, h⟩ := ht.exists_released last.order last.thread hw
      obtain ⟨fs, rfl⟩ := h.manager _ hlast
      have hfs := h.failures settled
      rw [Outcome.failures_ofFailures] at hfs
      refine ⟨_, v, .cons (h.closes hlast) (.nil v), h.cleared, ?_⟩
      rw [List.append_nil, Outcome.reported_ofFailures, hfs, failures_eq]
      exact h.walk.perm.filterMap _
  | cons c calls ih =>
      obtain ⟨o, u, ms, xs, hclose, hpiece⟩ :=
        ht.exists_piece hw settled c (hcalls c (List.mem_cons_self ..))
      obtain ⟨fs, v, hall, hcleared, hfs⟩ := ih hpiece.stands (hpiece.cleared.apart hw)
        hpiece.settled fun d hd => hcalls d (List.mem_cons_of_mem _ hd)
      have hdisjoint : ∀ y ∈ u.pending t, y ∉ xs := by
        have hnodup := hpiece.pending.nodup_iff.mpr (ht.leaves.filter _)
        intro y hy hx
        exact (List.nodup_append.mp hnodup).2.2 y hx y hy rfl
      refine ⟨_, v, .cons hclose hall, ?_, (hfs.append_left _).trans hpiece.failures⟩
      exact (hpiece.cleared.trans hcleared hw hdisjoint).perm hpiece.opens hpiece.pending

theorem isReleased_of_bare_eq {u v : World} (h : u.bare = v.bare) (x : Resource) :
    u.isReleased x = v.isReleased x := by
  show u.bare.isReleased x = v.bare.isReleased x
  rw [h]

end World

namespace Machine

/-- A sequence of closes comes to the same as one close of the root. -/
structure SameAsOnce (w : World) (calls : List CloseCall) (once : CloseCall) : Prop where
  returns : (∃ fs v, w.ClosesAll calls fs v) ∧
    ∃ o v, w.Closes once.order once.thread once.manager o v
  same : ∀ fs u o v, w.ClosesAll calls fs u →
    w.Closes once.order once.thread once.manager o v →
    u.bare = v.bare ∧ (∀ x, u.isReleased x = v.isReleased x) ∧ fs.Perm o.reported

/-- **Closing piece by piece is closing at once.**  A tree of holdings stands, and how the release of
one of its leaves ends does not depend on the others.  Its managers are closed in any
sequence that ends with the root, each time with visits in any order. -/
theorem close_piecewise {past : VisitOrder} {kind : EngineKind} {s : Machine}
    (hs : Reachable past kind s) {t : Holding} (ht : s.world.Stands t)
    (settled : s.world.Settled (s.world.pending t)) (calls : List CloseCall)
    (hcalls : ∀ c ∈ calls, c.manager ∈ t.ids) (last once : CloseCall)
    (hlast : t.id? = some last.manager) (honce : t.id? = some once.manager) :
    SameAsOnce s.world (calls ++ [last]) once := by
  obtain ⟨fs, u, hall, hu, hfs⟩ :=
    ht.exists_closesAll hs.apart settled calls hcalls last hlast
  obtain ⟨gs, v, hone, hv, hgs⟩ :=
    ht.exists_closesAll hs.apart settled [] (fun _ hc => nomatch hc) once honce
  rw [List.nil_append] at hone
  cases hone with
  | @cons _ v' _ _ _ o rest hclose hnil =>
      cases hnil
      rw [List.append_nil] at hgs
      refine ⟨⟨⟨fs, u, hall⟩, ⟨o, v, hclose⟩⟩, ?_⟩
      intro fs' u' o' v' hall' hclose'
      obtain ⟨rfl, rfl⟩ := hall.unique hall'
      obtain ⟨rfl, rfl⟩ := hclose.unique hclose'
      have hbare := hu.bare_eq hv (.refl _) (.refl _)
      exact ⟨hbare, World.isReleased_of_bare_eq hbare, hfs.trans hgs.symm⟩

/-- The attached manager is closed twice, and then the root. -/
theorem close_piecewise_attached_first :
    SameAsOnce failingSession.world
      ([⟨.byAge, ⟨0⟩, ⟨1⟩⟩, ⟨.byAge, ⟨0⟩, ⟨1⟩⟩] ++ [⟨.byAge, ⟨0⟩, ⟨0⟩⟩]) ⟨.byAge, ⟨0⟩, ⟨0⟩⟩ := by
  refine close_piecewise reachable_failingSession stands_failingSession
    (settled_failingSession _) _ ?_ _ _ rfl rfl
  intro c hc
  rw [List.mem_cons, List.mem_singleton, or_self] at hc
  subst hc
  decide

end Machine

end ArrayLifetimes
