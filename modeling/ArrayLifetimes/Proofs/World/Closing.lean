/-
The two ends of a close.

They are what moves leave out.  A close begins with an open manager: it becomes closing on
the thread, and owns nothing from then on.  It ends with a manager that is closing, which
becomes closed and leaves the list of an open parent.  Nothing else changes that matters to
the invariants: arrays, hooks and the engine stay as they are.  So a list of the managers
that close grows by one at the begin, and loses one at the end.
-/
import ArrayLifetimes.Proofs.World.Ledger

namespace ArrayLifetimes

namespace World

variable {w : World}

/-! ### The begin -/

theorem manager?_beginClose (w : World) (m : ManagerId) (r : Manager) (k : ThreadId)
    (n : ManagerId) :
    (w.beginClose m r k).1.manager? n =
      if m = n then (w.manager? n).map fun r =>
        { r with lifecycle := .closing k, resources := {}, children := [] }
      else w.manager? n := manager?_modifyManager w m _ n

theorem lifecycle?_beginClose (w : World) {m : ManagerId} {r : Manager} (k : ThreadId)
    (hm : w.openManager m = .ok r) (n : ManagerId) :
    (w.beginClose m r k).1.lifecycle? n =
      if m = n then some (.closing k) else w.lifecycle? n := by
  simp only [lifecycle?, manager?_beginClose]
  split
  · rename_i hmn
    subst hmn
    rw [(openManager_eq_ok.mp hm).1]
    rfl
  · rfl

theorem has_beginClose (w : World) (m : ManagerId) (r : Manager) (k : ThreadId) (x : Resource)
    (hx : w.Has x) : (w.beginClose m r k).1.Has x := by
  cases x with
  | manager n =>
      show n.index < (w.managers.modify m.index _).size
      rw [Array.size_modify]
      exact hx
  | array a => exact hx
  | hook h => exact hx

theorem later_beginClose (w : World) {m : ManagerId} {r : Manager} (k : ThreadId)
    (hm : w.openManager m = .ok r) : w.Later (w.beginClose m r k).1 where
  has x hx := has_beginClose w m r k x hx
  lifecycle n l hl := by
    rw [lifecycle?_beginClose w k hm]
    by_cases hmn : m = n
    · subst hmn
      obtain ⟨hr, ho⟩ := openManager_eq_ok.mp hm
      rw [lifecycle?, hr, Option.map_some, Option.some.injEq] at hl
      rw [if_pos rfl, ← hl, ho]
      exact ⟨_, rfl, trivial⟩
    · rw [if_neg hmn]
      exact ⟨l, hl, .refl l⟩
  released x hx := by
    cases x with
    | manager n =>
        rw [isReleased_manager] at hx ⊢
        rw [lifecycle?_beginClose w k hm]
        by_cases hmn : m = n
        · subst hmn
          obtain ⟨hr, ho⟩ := openManager_eq_ok.mp hm
          rw [lifecycle?, hr, Option.map_some, ho] at hx
          cases hx
        · rwa [if_neg hmn]
    | array a => exact hx
    | hook h => exact hx
  threads := Nat.le_refl _

theorem WellOwned.beginClose (h : w.WellOwned) (m : ManagerId) (r : Manager) (k : ThreadId) :
    (w.beginClose m r k).1.WellOwned := by
  refine ⟨?_, ?_, h.client.mono (has_beginClose w m r k), h.threads⟩
  · intro n q hq x hx
    rw [manager?_beginClose] at hq
    split at hq
    · obtain ⟨p, -, rfl⟩ := Option.map_eq_some_iff.mp hq
      cases hx
    · exact has_beginClose w m r k x (h.owned n q hq x hx)
  · intro n q hq hne
    rw [manager?_beginClose] at hq
    split at hq
    · obtain ⟨p, -, rfl⟩ := Option.map_eq_some_iff.mp hq
      exact ⟨rfl, rfl⟩
    · exact h.given n q hq hne

theorem Ledger.beginClose {ns : List NativeArray} (h : w.Ledger ns) (m : ManagerId) (r : Manager)
    (k : ThreadId) : (w.beginClose m r k).1.Ledger ns := h.of_same rfl rfl fun _ => id

/-! ### The end -/

/-- The end of a close is its marks on the managers, and notes in the journal. -/
structure Ended (w : World) (m : ManagerId) (v : World) : Prop where
  manager : ∀ n q, v.manager? n = some q → ∃ r, w.manager? n = some r ∧
    q.lifecycle = (if m = n then .closed else r.lifecycle) ∧ q.resources = r.resources ∧
    q.children ⊆ r.children
  missing : ∀ n, v.manager? n = none → w.manager? n = none
  arrays : v.arrays = w.arrays
  hooks : v.hooks = w.hooks
  engine : v.engine = w.engine
  client : v.client = w.client
  threads : v.threads = w.threads
  coreCalls : v.coreCalls = w.coreCalls

theorem Ended.note {v : World} {m : ManagerId} (h : w.Ended m v) (e : Event) :
    w.Ended m (v.note e) :=
  ⟨h.manager, h.missing, h.arrays, h.hooks, h.engine, h.client, h.threads, h.coreCalls⟩

theorem ended_unlink (w : World) (m : ManagerId) (o : Owner) :
    w.Ended m ((w.modifyManager m fun r => { r with lifecycle := .closed }).unlink m o) := by
  have closed : w.Ended m (w.modifyManager m fun r => { r with lifecycle := .closed }) := by
    refine ⟨?_, ?_, rfl, rfl, rfl, rfl, rfl, rfl⟩
    · intro n q hq
      rw [manager?_modifyManager] at hq
      split at hq
      · rename_i hmn
        obtain ⟨r, hr, rfl⟩ := Option.map_eq_some_iff.mp hq
        exact ⟨r, hr, (if_pos hmn).symm, rfl, List.Subset.refl _⟩
      · rename_i hmn
        exact ⟨q, hq, (if_neg hmn).symm, rfl, List.Subset.refl _⟩
    · intro n hn
      rw [manager?_modifyManager] at hn
      split at hn
      · exact Option.map_eq_none_iff.mp hn
      · exact hn
  cases o with
  | registry =>
      simp only [unlink]
      split
      · refine Ended.note ?_ _
        exact ⟨closed.manager, closed.missing, rfl, rfl, rfl, rfl, rfl, rfl⟩
      · exact closed
  | parent p =>
      refine ⟨?_, ?_, rfl, rfl, rfl, rfl, rfl, rfl⟩
      · intro n q hq
        rw [unlink, manager?_modifyManager] at hq
        split at hq
        · obtain ⟨r, hr, rfl⟩ := Option.map_eq_some_iff.mp hq
          obtain ⟨r', hr', hl, hres, hch⟩ := closed.manager n r hr
          refine ⟨r', hr', ?_, ?_, ?_⟩
          · split <;> exact hl
          · split <;> exact hres
          · split
            · intro c hc
              exact hch (List.mem_of_mem_erase hc)
            · exact hch
        · exact closed.manager n q hq
      · intro n hn
        rw [unlink, manager?_modifyManager] at hn
        split at hn
        · exact closed.missing n (Option.map_eq_none_iff.mp hn)
        · exact closed.missing n hn

theorem ended_endCascade {m : ManagerId} (hm : w.Has (.manager m)) (failures : ReleaseFailures) :
    w.Ended m (w.endCascade m failures).1 := by
  obtain ⟨r, hr⟩ := exists_of_has_manager hm
  have h := ended_unlink w m r.owner
  simp only [endCascade, finishClose, hr]
  split
  · exact h
  · exact h.note _

theorem Ended.lifecycle? {v : World} {m : ManagerId} (h : w.Ended m v)
    (hm : w.Has (.manager m)) (n : ManagerId) :
    v.lifecycle? n = if m = n then some .closed else w.lifecycle? n := by
  cases hv : v.manager? n with
  | none =>
      have hw := h.missing n hv
      have hmn : m ≠ n := by
        rintro rfl
        obtain ⟨r, hr⟩ := exists_of_has_manager hm
        rw [hw] at hr
        cases hr
      simp only [World.lifecycle?, hv, hw, if_neg hmn, Option.map_none]
  | some q =>
      obtain ⟨r, hr, hl, -, -⟩ := h.manager n q hv
      simp only [World.lifecycle?, hv, hr, Option.map_some, hl]
      split <;> rfl

theorem Ended.has {v : World} {m : ManagerId} (h : w.Ended m v) (x : Resource) (hx : w.Has x) :
    v.Has x := by
  cases x with
  | manager n =>
      obtain ⟨r, hr⟩ := exists_of_has_manager hx
      cases hv : v.manager? n with
      | none =>
          rw [h.missing n hv] at hr
          cases hr
      | some q => exact has_manager_of hv
  | array a =>
      simp only [Has, h.arrays]
      exact hx
  | hook g =>
      simp only [Has, h.hooks]
      exact hx

theorem Ended.later {v : World} {m : ManagerId} (h : w.Ended m v) (hm : w.Has (.manager m)) :
    w.Later v where
  has := h.has
  lifecycle n l hl := by
    rw [h.lifecycle? hm]
    by_cases hmn : m = n
    · rw [if_pos hmn]
      refine ⟨_, rfl, ?_⟩
      cases l with
      | opened => trivial
      | closing k => exact Or.inr rfl
      | closed => rfl
    · rw [if_neg hmn]
      exact ⟨l, hl, .refl l⟩
  released x hx := by
    cases x with
    | manager n =>
        rw [isReleased_manager] at hx ⊢
        rw [h.lifecycle? hm]
        split
        · rfl
        · exact hx
    | array a => simpa only [isReleased, array?, h.arrays] using hx
    | hook g => simpa only [isReleased, hook?, h.hooks] using hx
  threads := Nat.le_of_eq h.threads.symm

theorem Ended.wellOwned {v : World} {m : ManagerId} {k : ThreadId} (h : w.Ended m v)
    (hw : w.WellOwned) (hm : w.lifecycle? m = some (.closing k)) : v.WellOwned := by
  have hclient : v.client.Within v := by
    rw [h.client]
    exact hw.client.mono h.has
  refine ⟨?_, ?_, hclient, h.threads ▸ hw.threads⟩
  · intro n q hq x hx
    obtain ⟨r, hr, -, hres, hch⟩ := h.manager n q hq
    refine h.has x (hw.owned n r hr x ?_)
    simp only [Manager.owned, hres, List.mem_append, List.mem_map] at hx ⊢
    rcases hx with ⟨c, hc, rfl⟩ | hx
    · exact Or.inl ⟨c, hch hc, rfl⟩
    · exact Or.inr hx
  · intro n q hq hne
    obtain ⟨r, hr, hl, hres, hch⟩ := h.manager n q hq
    have hrne : r.lifecycle ≠ .opened := by
      by_cases hmn : m = n
      · subst hmn
        obtain ⟨r', hr', hl'⟩ := lifecycle?_eq_some.mp hm
        rw [hr] at hr'
        cases hr'
        simp [hl']
      · rw [if_neg hmn] at hl
        exact hl ▸ hne
    obtain ⟨hr₁, hr₂⟩ := hw.given n r hr hrne
    rw [hr₂] at hch
    exact ⟨hres.trans hr₁, List.subset_nil.mp hch⟩

theorem Ended.ledger {v : World} {m : ManagerId} {ns : List NativeArray} (h : w.Ended m v)
    (hl : w.Ledger ns) : v.Ledger ns :=
  hl.of_same h.arrays h.coreCalls (h.engine ▸ fun _ => id)

theorem Ended.agenda {v : World} {m : ManagerId} (h : w.Ended m v) : v.agenda = w.agenda := by
  simp only [World.agenda, h.hooks, h.engine]

/-! ### The list of cascades -/

/-- The managers that close, each once, with the threads they close on. -/
structure Cascading (w : World) (cascades : List (ManagerId × ThreadId)) : Prop where
  closing : ∀ m k, w.lifecycle? m = some (.closing k) ↔ (m, k) ∈ cascades
  once : (cascades.map Prod.fst).Nodup

section Cascading

variable {v : World} {m : ManagerId} {k : ThreadId} {cs ds : List (ManagerId × ThreadId)}

theorem Cascading.perm (h : w.Cascading cs) (hp : cs.Perm ds) : w.Cascading ds := by
  refine ⟨?_, (hp.map _).nodup_iff.mp h.once⟩
  intro m k
  rw [h.closing, hp.mem_iff]

theorem Cascading.steady (h : w.Cascading cs) (hv : w.Steady v) : v.Cascading cs := by
  refine ⟨?_, h.once⟩
  intro m k
  rw [← h.closing]
  exact ⟨fun hl => hv.of_ne_opened hl (by simp), fun hl => hv.of_some hl⟩

theorem Cascading.beginClose (h : w.Cascading cs) {r : Manager} (hm : w.openManager m = .ok r)
    (k : ThreadId) : (w.beginClose m r k).1.Cascading ((m, k) :: cs) := by
  have hopen : w.lifecycle? m = some .opened :=
    lifecycle?_eq_some.mpr ⟨r, openManager_eq_ok.mp hm⟩
  have hnot : ∀ l, (m, l) ∉ cs := by
    intro l hl
    rw [← h.closing, hopen] at hl
    cases hl
  refine ⟨?_, ?_⟩
  · intro n l
    rw [lifecycle?_beginClose _ _ hm, List.mem_cons]
    by_cases hmn : m = n
    · subst hmn
      rw [if_pos rfl]
      constructor
      · rintro ⟨⟩
        exact Or.inl rfl
      · rintro (hl | hl)
        · rw [(Prod.mk.inj hl).2]
        · exact absurd hl (hnot l)
    · rw [if_neg hmn, h.closing]
      refine ⟨Or.inr, ?_⟩
      rintro (hl | hl)
      · exact absurd (Prod.mk.inj hl).1.symm hmn
      · exact hl
  · rw [List.map_cons, List.nodup_cons]
    refine ⟨?_, h.once⟩
    intro hmem
    obtain ⟨⟨n, l⟩, hl, rfl⟩ := List.mem_map.mp hmem
    exact hnot l hl

theorem Cascading.endCascade (h : w.Cascading ((m, k) :: cs)) (failures : ReleaseFailures) :
    (w.endCascade m failures).1.Cascading cs := by
  obtain ⟨r, hr, -⟩ := lifecycle?_eq_some.mp ((h.closing m k).mpr (List.mem_cons_self ..))
  have hx := has_manager_of hr
  have honce := h.once
  rw [List.map_cons, List.nodup_cons] at honce
  refine ⟨?_, honce.2⟩
  intro n l
  rw [(ended_endCascade hx failures).lifecycle? hx]
  by_cases hmn : m = n
  · subst hmn
    rw [if_pos rfl]
    constructor
    · rintro ⟨⟩
    · intro hl
      exact absurd (List.mem_map.mpr ⟨(m, l), hl, rfl⟩) honce.1
  · rw [if_neg hmn, h.closing, List.mem_cons]
    constructor
    · rintro (hl | hl)
      · exact absurd (Prod.mk.inj hl).1.symm hmn
      · exact hl
    · exact Or.inr

end Cascading

end World

end ArrayLifetimes
