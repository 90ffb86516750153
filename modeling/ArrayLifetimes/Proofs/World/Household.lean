/-
Who holds what, and households.

A manager tracks resources under keys, and it has children.  The two are listed apart here, because
a detach takes away one key or one child and leaves all else.

A household is a manager with all that is below it, and with what these managers track.  Once
the manager has been detached from its parent, no child link leads into the household: a
manager is a child only of the one that it was made for.  And none of its managers is a root.
-/
import ArrayLifetimes.Proofs.World.Seclusion

namespace ArrayLifetimes

namespace World

variable {w v : World} {m n p c : ManagerId} {key k : Label} {x y : Resource}

/-! ### Who holds what -/

/-- All that managers track: the manager, the key, and the resource. -/
def holdings (w : World) : List (ManagerId × Label × Resource) :=
  w.managers.toList.zipIdx.flatMap fun r => r.1.resources.entries.map fun e => (⟨r.2⟩, e)

/-- The managers that track a resource, with the keys. -/
def holders (w : World) (x : Resource) : List (ManagerId × Label) :=
  (w.holdings.filter fun e => e.2.2 = x).map fun e => (e.1, e.2.1)

theorem mem_holdings : (m, key, x) ∈ w.holdings ↔
    ∃ r, w.manager? m = some r ∧ (key, x) ∈ r.resources.entries := by
  simp only [holdings, List.mem_flatMap, List.mem_map, Prod.mk.injEq, Prod.exists,
    List.mem_zipIdx_iff_getElem?, Array.getElem?_toList, manager?]
  constructor
  · rintro ⟨r, i, hr, key', x', he, rfl, rfl, rfl⟩
    exact ⟨r, hr, he⟩
  · rintro ⟨r, hr, he⟩
    exact ⟨r, m.index, hr, key, x, he, rfl, rfl, rfl⟩

theorem mem_holders : (m, key) ∈ w.holders x ↔ (m, key, x) ∈ w.holdings := by
  simp only [holders, List.mem_map, List.mem_filter, decide_eq_true_eq, Prod.mk.injEq]
  constructor
  · rintro ⟨⟨m', key', x'⟩, ⟨he, rfl⟩, rfl, rfl⟩
    exact he
  · exact fun he => ⟨(m, key, x), ⟨he, rfl⟩, rfl, rfl⟩

/-- A manager owns its children and what it tracks. -/
theorem owns_iff : w.Owns m x ↔
    (∃ c, x = .manager c ∧ w.Child m c) ∨ ∃ key, (m, key, x) ∈ w.holdings := by
  simp only [Owns, Manager.owned, List.mem_append, List.mem_map, Keyed.values, Child, mem_holdings]
  constructor
  · rintro ⟨r, hr, ⟨c, hc, rfl⟩ | ⟨⟨key, x⟩, he, rfl⟩⟩
    · exact Or.inl ⟨c, rfl, r, hr, hc⟩
    · exact Or.inr ⟨key, r, hr, he⟩
  · rintro (⟨c, rfl, r, hr, hc⟩ | ⟨key, r, hr, he⟩)
    · exact ⟨r, hr, Or.inl ⟨c, hc, rfl⟩⟩
    · exact ⟨r, hr, Or.inr ⟨_, he, rfl⟩⟩

/-- A detach takes one key away from one manager. -/
theorem manager?_of_detach {q : Manager} (hx : (w.detach m key).2 = some x)
    (hq : (w.detach m key).1.manager? n = some q) :
    ∃ r, w.manager? n = some r ∧ q.children = r.children ∧
      q.resources = if m = n then r.resources.erase key else r.resources := by
  rcases detach_cases w m key with hd | ⟨r, z, -, -, hd⟩ <;> rw [hd] at hx hq
  · cases hx
  · replace hq : (w.modifyManager m fun r =>
      { r with resources := r.resources.erase key }).manager? n = some q := hq
    rw [manager?_modifyManager] at hq
    split at hq
    · rename_i hmn
      obtain ⟨r, hr, rfl⟩ := Option.map_eq_some_iff.mp hq
      exact ⟨r, hr, rfl, (if_pos hmn).symm⟩
    · rename_i hmn
      exact ⟨q, hq, rfl, (if_neg hmn).symm⟩

/-- What is still tracked after a detach was so before, and is not what was detached. -/
theorem mem_holdings_of_detach (hx : (w.detach m key).2 = some x)
    (h : (n, k, y) ∈ (w.detach m key).1.holdings) :
    (n, k, y) ∈ w.holdings ∧ (n, k) ≠ (m, key) := by
  obtain ⟨q, hq, he⟩ := mem_holdings.mp h
  obtain ⟨r, hr, -, hres⟩ := manager?_of_detach hx hq
  rw [hres] at he
  by_cases hmn : m = n
  · rw [if_pos hmn] at he
    obtain ⟨he, hk⟩ := List.mem_filter.mp he
    refine ⟨mem_holdings.mpr ⟨r, hr, he⟩, fun heq => ?_⟩
    exact of_decide_eq_true hk (Prod.mk.inj heq).2
  · rw [if_neg hmn] at he
    exact ⟨mem_holdings.mpr ⟨r, hr, he⟩, fun heq => hmn (Prod.mk.inj heq).1.symm⟩

/-- What has been detached from its only key is owned as a child at most. -/
theorem owns_of_detach (hone : w.holders x = [(m, key)]) (hx : (w.detach m key).2 = some x)
    (h : (w.detach m key).1.Owns n x) : ∃ c, x = .manager c ∧ w.Child n c := by
  rcases owns_iff.mp h with ⟨c, hc, q, hq, hchild⟩ | ⟨k, hk⟩
  · obtain ⟨r, hr, hchildren, -⟩ := manager?_of_detach hx hq
    exact ⟨c, hc, r, hr, hchildren ▸ hchild⟩
  · obtain ⟨hold, hne⟩ := mem_holdings_of_detach hx hk
    rw [← mem_holders, hone, List.mem_singleton] at hold
    exact absurd hold hne

/-! ### Households -/

/-- The second manager is the first one or below it. -/
def Below (w : World) : ManagerId → ManagerId → Prop := Relation.ReflTransGen w.Child

/-- The resource is one of the managers from the given one downwards, or one of them owns it.
A manager in the middle of its close has nothing left, and does not count. -/
def Household (w : World) (c : ManagerId) (x : Resource) : Prop :=
  (∃ m, w.Below c m ∧ (x = .manager m ∨ w.Owns m x)) ∧
    ∀ m k, x = .manager m → w.lifecycle? m ≠ some (.closing k)

variable {made : Owner → ManagerId → Prop} {parted : ManagerId → ManagerId → Prop}

/-- The managers, and what they own. -/
def estates (w : World) (ms : List ManagerId) : List Resource :=
  ms.flatMap fun m => .manager m :: ((w.manager? m).map Manager.owned).getD []

/-- The managers have no children but each other. -/
def FamilyOf (w : World) (ms : List ManagerId) : Prop :=
  ∀ m ∈ ms, ∀ r ∈ w.manager? m, ∀ c ∈ r.children, c ∈ ms

instance (w : World) (ms : List ManagerId) : Decidable (w.FamilyOf ms) :=
  inferInstanceAs (Decidable (∀ m ∈ ms, ∀ r ∈ w.manager? m, ∀ c ∈ r.children, c ∈ ms))

theorem Below.mem {ms : List ManagerId} (h : w.Below c m) (hms : w.FamilyOf ms) (hc : c ∈ ms) :
    m ∈ ms := by
  induction h with
  | refl => exact hc
  | tail _ hchild ih =>
      obtain ⟨r, hr, hd⟩ := hchild
      exact hms _ ih r hr _ hd

theorem Household.mem {ms : List ManagerId} (h : w.Household c x) (hms : w.FamilyOf ms)
    (hc : c ∈ ms) : x ∈ w.estates ms := by
  obtain ⟨⟨m, hm, hx⟩, -⟩ := h
  refine List.mem_flatMap.mpr ⟨m, hm.mem hms hc, ?_⟩
  rcases hx with rfl | ⟨r, hr, hx⟩
  · exact List.mem_cons_self ..
  · refine List.mem_cons_of_mem _ ?_
    rw [hr]
    exact hx

/-- A child is no root. -/
theorem Planted.not_mem_roots (hp : w.Planted made parted) (hm : made (.parent p) c) :
    c ∉ w.roots := by
  intro hroot
  by_cases hreg : w.HasRegistry
  · obtain ⟨k, hk, ho, -⟩ := (hp.mem_roots hreg c).mp hroot
    cases hp.owner_unique hm ((hp.made_iff _ c).mpr ⟨k, hk, ho⟩)
  · rw [hp.dropped hreg] at hroot
    cases hroot

/-- A manager that has been detached from the parent it was made for is nobody's child. -/
theorem Planted.not_child (hp : w.Planted made parted) (hw : w.WellOwned)
    (hm : made (.parent p) c) (hd : parted p c) (q : ManagerId) : ¬ w.Child q c := by
  intro h
  obtain rfl : q = p := Owner.parent.inj (hp.owner_unique (hp.child hw h) hm)
  obtain ⟨r, hr, hc⟩ := h
  have ho := hw.opened_of_owned hr (List.mem_append_left _ (List.mem_map_of_mem hc))
  exact ((hp.mem_children q _ (kin?_of_manager? hr) ho c).mp hc).2 hd

/-- Below such a manager there are no roots, and nothing above it. -/
theorem Planted.below (hp : w.Planted made parted) (hw : w.WellOwned)
    (hm : made (.parent p) c) (hd : parted p c) (h : w.Below c n) :
    n ∉ w.roots ∧ ∀ q, w.Child q n → w.Below c q := by
  rcases h.cases_tail with rfl | ⟨q, hq, hchild⟩
  · exact ⟨hp.not_mem_roots hm, fun q hq => absurd hq (hp.not_child hw hm hd q)⟩
  · have hmade := hp.child hw hchild
    refine ⟨hp.not_mem_roots hmade, fun q' hq' => ?_⟩
    obtain rfl : q' = q := Owner.parent.inj (hp.owner_unique (hp.child hw hq') hmade)
    exact hq

/-- A manager that is open is not in the middle of its close. -/
theorem Below.household (hm : w.Below c m) (hl : w.lifecycle? m = some .opened) :
    w.Household c (.manager m) := by
  refine ⟨⟨m, hm, Or.inl rfl⟩, fun n k hn hk => ?_⟩
  obtain rfl := Resource.manager.inj hn
  rw [hl] at hk
  cases hk

/-- Whoever owns something is open. -/
theorem Owns.opened (ho : w.Owns m x) (hw : w.WellOwned) : w.lifecycle? m = some .opened := by
  obtain ⟨r, hr, hx⟩ := ho
  exact lifecycle?_eq_some.mpr ⟨r, hr, hw.opened_of_owned hr hx⟩

theorem Household.has (h : w.Household c x) (hw : w.WellOwned) (hc : w.Has (.manager c)) :
    w.Has x := by
  have owned : ∀ m y, w.Owns m y → w.Has y := by
    rintro m y ⟨r, hr, hy⟩
    exact hw.owned m r hr y hy
  obtain ⟨⟨m, hm, rfl | ho⟩, -⟩ := h
  · rcases hm.cases_tail with rfl | ⟨q, -, hchild⟩
    · exact hc
    · exact owned q _ (owns_iff.mpr (Or.inl ⟨_, rfl, hchild⟩))
  · exact owned m x ho

theorem child_of_parted? {command : Command} (h : w.parted? command = some (p, c)) :
    w.Child p c := by
  cases command <;> try cases h
  case detachSub manager child =>
    simp only [parted?, Option.bind_eq_bind, Option.bind_eq_some_iff, pure, Option.some.injEq,
      Prod.mk.injEq] at h
    obtain ⟨p, -, k, -, found, hfound, rfl, rfl⟩ := h
    rcases detachSub_cases w p k with hd | ⟨r, hr, hc, hd⟩ <;> rw [hd] at hfound
    · cases hfound
    · obtain rfl := Option.some.inj hfound
      exact ⟨r, (openManager_eq_ok.mp hr).1, hc⟩

end World

end ArrayLifetimes
