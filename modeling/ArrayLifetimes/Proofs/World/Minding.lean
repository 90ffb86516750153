/-
Arrays in the hands of managers.

An array that is not released should be a resource of an open manager.  `Minds` says that no
array got out of the managers' hands: what is not released afterwards is a resource of an
open manager, unless it was not one before either, or is one of a few that it allows for.

Most of what happens to a world concerns neither arrays nor what managers have.  `Still` says
so of all that a client asks or names, and of the ends of closes.
-/
import ArrayLifetimes.Proofs.World.Closing
import ArrayLifetimes.Proofs.World.Outputs

namespace ArrayLifetimes

namespace World

variable {w v u : World} {a : ArrayId} {m : ManagerId}

/-! ### Arrays and their managers -/

/-- The array has been made and not been released. -/
def Unreleased (w : World) (a : ArrayId) : Prop := ∃ r, w.array? a = some r ∧ r.released = false

theorem Unreleased.has (h : w.Unreleased a) : w.Has (.array a) := by
  obtain ⟨r, hr, -⟩ := h
  simp only [array?] at hr
  exact (Array.getElem?_eq_some_iff.mp hr).1

theorem Unreleased.not_released (h : w.Unreleased a) : w.isReleased (.array a) = false := by
  obtain ⟨r, hr, hrel⟩ := h
  simp [isReleased, hr, hrel]

/-- The array is a resource of an open manager. -/
def Managed (w : World) (a : ArrayId) : Prop :=
  ∃ m r key, w.openManager m = .ok r ∧ r.resources.get? key = some (.array a)

/-- Some manager has something under the identity of the array. -/
def IsKey (w : World) (a : ArrayId) : Prop :=
  ∃ m r x, w.manager? m = some r ∧ r.resources.get? (.array a) = some x

/-- From one world to another no array gets out of the managers' hands, but some. -/
def Minds (w v : World) (gone : ArrayId → Prop) : Prop :=
  ∀ a, v.Unreleased a → v.Managed a ∨ gone a ∨ w.Unreleased a ∧ ¬ w.Managed a

section Minds

variable {gone : ArrayId → Prop}

theorem Minds.of_managed (hu : ∀ a, v.Unreleased a → w.Unreleased a)
    (hm : ∀ a, w.Managed a → v.Managed a ∨ gone a) : w.Minds v gone := by
  intro a ha
  by_cases hw : w.Managed a
  · rcases hm a hw with h | h
    · exact Or.inl h
    · exact Or.inr (Or.inl h)
  · exact Or.inr (Or.inr ⟨hu a ha, hw⟩)

theorem Minds.refl (w : World) : w.Minds w gone := .of_managed (fun _ => id) fun _ => Or.inl

theorem Minds.imp {more : ArrayId → Prop} (h : w.Minds v gone) (hg : ∀ a, gone a → more a) :
    w.Minds v more := by
  intro a ha
  rcases h a ha with hm | hgone | hw
  · exact Or.inl hm
  · exact Or.inr (Or.inl (hg a hgone))
  · exact Or.inr (Or.inr hw)

theorem Minds.trans (h : w.Minds v gone) (h' : v.Minds u gone) : w.Minds u gone := by
  intro a ha
  rcases h' a ha with hm | hg | ⟨hv, hn⟩
  · exact Or.inl hm
  · exact Or.inr (Or.inl hg)
  · exact Or.inr ((h a hv).resolve_left hn)

end Minds

/-- The lifecycle of a manager stays as it is when something else of it changes. -/
theorem openManager_modifyManager {f : Manager → Manager} (hf : ∀ r, (f r).lifecycle = r.lifecycle)
    {k : ManagerId} {r : Manager} (h : w.openManager k = .ok r) :
    (w.modifyManager m f).openManager k = .ok (if m = k then f r else r) := by
  obtain ⟨hr, hl⟩ := openManager_eq_ok.mp h
  refine openManager_eq_ok.mpr ⟨?_, ?_⟩
  · rw [manager?_modifyManager, hr]
    split <;> rfl
  · split
    · exact (hf r).trans hl
    · exact hl

/-! ### Changes of other things -/

/-- Arrays, the buffers of the engine and what managers have are as they were. -/
structure Still (w v : World) : Prop where
  arrays : v.arrays = w.arrays
  kind : v.engine.kind = w.engine.kind
  host : v.engine.host = w.engine.host
  managed : ∀ a, w.Managed a → v.Managed a
  keys : ∀ a, v.IsKey a → w.IsKey a

theorem Still.trans (h : w.Still v) (h' : v.Still u) : w.Still u where
  arrays := h'.arrays.trans h.arrays
  kind := h'.kind.trans h.kind
  host := h'.host.trans h.host
  managed a ha := h'.managed a (h.managed a ha)
  keys a ha := h.keys a (h'.keys a ha)

theorem managed_of_eq (hm : v.managers = w.managers) (h : w.Managed a) : v.Managed a := by
  obtain ⟨k, r, key, hr, hkey⟩ := h
  refine ⟨k, r, key, ?_, hkey⟩
  simpa only [openManager, manager?, hm] using hr

theorem isKey_of_eq (hm : v.managers = w.managers) (h : v.IsKey a) : w.IsKey a := by
  obtain ⟨k, r, x, hr, hx⟩ := h
  refine ⟨k, r, x, ?_, hx⟩
  simpa only [manager?, hm] using hr

theorem Still.of_eq (hm : v.managers = w.managers) (ha : v.arrays = w.arrays)
    (hk : v.engine.kind = w.engine.kind) (hh : v.engine.host = w.engine.host) : w.Still v :=
  ⟨ha, hk, hh, fun _ => managed_of_eq hm, fun _ => isKey_of_eq hm⟩

theorem Still.refl (w : World) : w.Still w := .of_eq rfl rfl rfl rfl

theorem still_note (w : World) (e : Event) : w.Still (w.note e) := .of_eq rfl rfl rfl rfl

theorem still_modifyManager (w : World) (m : ManagerId) {f : Manager → Manager}
    (hl : ∀ r, (f r).lifecycle = r.lifecycle) (hr : ∀ r, (f r).resources = r.resources) :
    w.Still (w.modifyManager m f) := by
  refine ⟨rfl, rfl, rfl, ?_, ?_⟩
  · rintro a ⟨k, r, key, hk, hkey⟩
    refine ⟨k, _, key, openManager_modifyManager hl hk, ?_⟩
    split
    · rw [hr]
      exact hkey
    · exact hkey
  · rintro a ⟨k, r, x, hk, hx⟩
    rw [manager?_modifyManager] at hk
    split at hk
    · obtain ⟨q, hq, rfl⟩ := Option.map_eq_some_iff.mp hk
      exact ⟨k, q, x, hq, hr q ▸ hx⟩
    · exact ⟨k, r, x, hk, hx⟩

theorem still_addManager (w : World) {r : Manager} (hr : r.resources = {}) :
    w.Still (w.addManager r).1 := by
  refine ⟨rfl, rfl, rfl, ?_, ?_⟩
  · rintro a ⟨k, q, key, hq, hkey⟩
    obtain ⟨hk, hl⟩ := openManager_eq_ok.mp hq
    have hlt := has_manager_of hk
    refine ⟨k, q, key, openManager_eq_ok.mpr ⟨?_, hl⟩, hkey⟩
    rw [manager?_addManager, if_neg (Nat.ne_of_lt hlt)]
    exact hk
  · rintro a ⟨k, q, x, hq, hx⟩
    rw [manager?_addManager] at hq
    split at hq
    · obtain rfl : r = q := Option.some.inj hq
      rw [hr] at hx
      cases hx
    · exact ⟨k, q, x, hq, hx⟩

theorem still_newBase (w : World) (d : Device) : w.Still (w.newBase d).1 :=
  (still_addManager w (r := { device := d, owner := .registry }) rfl).trans
    (.of_eq rfl rfl rfl rfl)

theorem still_newSub {p c : ManagerId} {d : Option Device} (h : w.newSub p d = .ok (v, c)) :
    w.Still v := by
  obtain ⟨r, -, -, rfl⟩ := newSub_eq_ok h
  refine (still_addManager w rfl).trans (.trans (still_modifyManager _ p ?_ ?_) (still_note _ _))
  · exact fun _ => rfl
  · exact fun _ => rfl

theorem still_detachSub (w : World) (m c : ManagerId) : w.Still (w.detachSub m c).1 := by
  rcases detachSub_cases w m c with h | ⟨r, -, -, h⟩ <;> rw [h]
  · exact .refl w
  · refine still_modifyManager w m ?_ ?_
    · exact fun _ => rfl
    · exact fun _ => rfl

theorem still_resourceNamed {r : ResourceName} {x : Resource}
    (h : w.resourceNamed r = .ok (v, x)) : w.Still v := by
  cases r <;> simp only [resourceNamed, bind_eq_ok, pure, Except.pure, Except.ok.injEq,
    Prod.mk.injEq] at h
  case hook label work ending =>
    obtain ⟨rfl, -⟩ := h
    exact .of_eq rfl rfl rfl rfl
  all_goals
    obtain ⟨-, -, rfl, -⟩ := h
    exact .refl w

theorem still_nameDisplaced (w : World) (n : Option Name) (x : Option Resource) :
    w.Still (w.nameDisplaced n x) := by
  unfold nameDisplaced
  split
  · exact .of_eq rfl rfl rfl rfl
  · exact .refl w

theorem still_dropRoots (w : World) (registered : Bool) (shutdowns : Nat) :
    w.Still { w with registered, shutdowns }.dropRoots := by
  unfold dropRoots
  split <;> exact .of_eq rfl rfl rfl rfl

theorem Kept.still (h : w.Kept v) : w.Still v := .of_eq h.managers h.arrays h.kind h.host

theorem still_readEach (w : World) (as : List ArrayId) : w.Still (w.readEach as).1 := by
  induction as generalizing w with
  | nil => exact .refl w
  | cons a as ih => exact (kept_arrayElements w a none).still.trans (ih _)

theorem still_ask (w : World) (running : List ManagerId) (q : Query) :
    w.Still (w.ask running q).1 := by
  cases q with
  | registryContains n =>
      simp only [ask]
      split <;> exact .refl w
  | read n t =>
      simp only [ask]
      split
      · exact .refl w
      · exact (kept_arrayElements w _ t).still
  | bytes n =>
      simp only [ask]
      split
      · exact .refl w
      · exact (kept_arrayBytes w _).still
  | _ => exact .refl w

theorem Ended.still (h : w.Ended m v) (hm : w.lifecycle? m ≠ some .opened) : w.Still v := by
  refine ⟨h.arrays, congrArg Engine.kind h.engine, congrArg Engine.host h.engine, ?_, ?_⟩
  · rintro a ⟨k, r, key, hr, hkey⟩
    obtain ⟨hk, hl⟩ := openManager_eq_ok.mp hr
    cases hv : v.manager? k with
    | none =>
        rw [h.missing k hv] at hk
        cases hk
    | some q =>
        obtain ⟨r', hr', hlq, hres, -⟩ := h.manager k q hv
        obtain rfl : r = r' := Option.some.inj (hk.symm.trans hr')
        have hmk : m ≠ k := by
          rintro rfl
          exact hm (lifecycle?_eq_some.mpr ⟨r, hk, hl⟩)
        rw [if_neg hmk] at hlq
        exact ⟨k, q, key, openManager_eq_ok.mpr ⟨hv, hlq.trans hl⟩, hres ▸ hkey⟩
  · rintro a ⟨k, q, x, hq, hx⟩
    obtain ⟨r, hr, -, hres, -⟩ := h.manager k q hq
    exact ⟨k, r, x, hr, hres ▸ hx⟩

theorem Still.minds {gone : ArrayId → Prop} (h : w.Still v) : w.Minds v gone := by
  refine .of_managed ?_ fun a ha => Or.inl (h.managed a ha)
  rintro a ⟨r, hr, hrel⟩
  exact ⟨r, by simpa only [array?, h.arrays] using hr, hrel⟩

end World

end ArrayLifetimes
