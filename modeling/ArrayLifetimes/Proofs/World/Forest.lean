/-
The forest of managers and its roots.

Every manager is made for an owner, the registry or a parent that is older than itself.  The
lists of children and of roots are an index of that: a manager is on the list of its owner until
it is closed or detached, as long as the owner keeps a list at all.  `Planted` says so, given
which managers were made for whom and which were detached.

Resources play no part in it.  So all that counts of a manager is its owner, its lifecycle and its
children, and what changes none of them keeps the forest.
-/
import ArrayLifetimes.Proofs.Cascade.Cleared
import ArrayLifetimes.Proofs.World.Deeds

namespace ArrayLifetimes

/-- What counts of a manager in the forest. -/
structure Kin where
  owner : Owner
  lifecycle : Lifecycle
  children : List ManagerId

def Manager.kin (r : Manager) : Kin := ⟨r.owner, r.lifecycle, r.children⟩

namespace World

/-- Somebody holds the registry: the client, or a shutdown that is going on. -/
def HasRegistry (w : World) : Prop := w.registered = true ∨ 0 < w.shutdowns

def kin? (w : World) (m : ManagerId) : Option Kin := (w.manager? m).map Manager.kin

/-- The manager is one of an owner's, and not closed. -/
def Under (w : World) (o : Owner) (c : ManagerId) : Prop :=
  ∃ k, w.kin? c = some k ∧ k.owner = o ∧ k.lifecycle ≠ .closed

variable {w v : World} {made : Owner → ManagerId → Prop} {parted : ManagerId → ManagerId → Prop}

theorem kin?_of_manager? {m : ManagerId} {r : Manager} (h : w.manager? m = some r) :
    w.kin? m = some r.kin := by rw [kin?, h, Option.map_some]

/-- The lists of children and of roots agree with what was made and what was detached. -/
structure Planted (made : Owner → ManagerId → Prop) (parted : ManagerId → ManagerId → Prop)
    (w : World) : Prop where
  made_iff : ∀ o c, made o c ↔ ∃ k, w.kin? c = some k ∧ k.owner = o
  has_parted : ∀ p c, parted p c → w.Has (.manager c)
  older : ∀ p c, made (.parent p) c → p.index < c.index
  nodup : ∀ p k, w.kin? p = some k → k.children.Nodup
  mem_children : ∀ p k, w.kin? p = some k → k.lifecycle = .opened →
    ∀ c, c ∈ k.children ↔ w.Under (.parent p) c ∧ ¬ parted p c
  nodup_roots : w.roots.Nodup
  mem_roots : w.HasRegistry → ∀ c, c ∈ w.roots ↔ w.Under .registry c
  dropped : ¬ w.HasRegistry → w.roots = []

/-! ### What keeps the forest -/

/-- The forest is the same. -/
structure SameForest (w v : World) : Prop where
  kin : ∀ m, v.kin? m = w.kin? m
  registry : v.registry = w.registry

theorem SameForest.refl (w : World) : w.SameForest w := ⟨fun _ => rfl, rfl⟩

theorem SameForest.trans {u : World} (h : w.SameForest v) (h' : v.SameForest u) :
    w.SameForest u := ⟨fun m => (h'.kin m).trans (h.kin m), h'.registry.trans h.registry⟩

theorem Aside.sameForest (h : w.Aside v) : w.SameForest v :=
  ⟨fun m => by rw [kin?, h.manager?, kin?], h.registry⟩

/-- Nothing but the resources of a manager changes. -/
theorem sameForest_modifyManager (w : World) (m : ManagerId) {f : Manager → Manager}
    (hf : ∀ r, (f r).kin = r.kin) : w.SameForest (w.modifyManager m f) := by
  refine ⟨fun n => ?_, rfl⟩
  rw [kin?, manager?_modifyManager]
  split
  · rw [Option.map_map]
    exact congrArg (Option.map · (w.manager? n)) (funext hf)
  · rfl

theorem SameForest.under (h : w.SameForest v) {o : Owner} {c : ManagerId} :
    v.Under o c ↔ w.Under o c := by
  simp only [Under, h.kin]

theorem has_manager_iff {m : ManagerId} : w.Has (.manager m) ↔ ∃ k, w.kin? m = some k := by
  refine ⟨fun h => ?_, ?_⟩
  · obtain ⟨r, hr⟩ := exists_of_has_manager h
    exact ⟨_, kin?_of_manager? hr⟩
  · rintro ⟨k, hk⟩
    obtain ⟨r, hr, -⟩ := Option.map_eq_some_iff.mp hk
    exact has_manager_of hr

theorem not_released_of_under {o : Owner} {m : ManagerId} (h : w.Under o m) :
    w.isReleased (.manager m) = false := by
  obtain ⟨k, hk, -, hl⟩ := h
  obtain ⟨r, hr, rfl⟩ := Option.map_eq_some_iff.mp hk
  rw [← Bool.not_eq_true, isReleased_manager, lifecycle?, hr, Option.map_some, Option.some.injEq]
  exact hl

theorem SameForest.hasRegistry (h : w.SameForest v) : v.HasRegistry ↔ w.HasRegistry := by
  have hr := h.registry
  simp only [World.registry, Registry.mk.injEq] at hr
  simp only [HasRegistry, hr.1, hr.2.1]

theorem SameForest.roots (h : w.SameForest v) : v.roots = w.roots :=
  congrArg Registry.roots h.registry

theorem Planted.same (hp : w.Planted made parted) (h : w.SameForest v) : v.Planted made parted where
  made_iff o c := by simp only [h.kin, hp.made_iff o c]
  has_parted p c hpc := by
    have hc := hp.has_parted p c hpc
    rw [has_manager_iff] at hc ⊢
    simpa only [h.kin] using hc
  older := hp.older
  nodup p k hk := hp.nodup p k (h.kin p ▸ hk)
  mem_children p k hk ho c := by
    rw [h.under]
    exact hp.mem_children p k (h.kin p ▸ hk) ho c
  nodup_roots := h.roots ▸ hp.nodup_roots
  mem_roots hr c := by
    rw [h.roots, h.under]
    exact hp.mem_roots (h.hasRegistry.mp hr) c
  dropped hr := by
    rw [h.roots]
    exact hp.dropped fun hw => hr (h.hasRegistry.mpr hw)

theorem Fills.sameForest (h : w.Fills v) : w.SameForest v := by
  induction h with
  | refl => exact .refl w
  | tail _ hf ih =>
      cases hf with
      | aside h => exact ih.trans h.sameForest
      | hold n h =>
          refine ih.trans ((aside_adopt _ n).sameForest.trans (sameForest_modifyManager _ _ ?_))
          exact fun _ => rfl

theorem Planted.congr {made' : Owner → ManagerId → Prop} {parted' : ManagerId → ManagerId → Prop}
    (hp : w.Planted made parted) (hm : ∀ o c, made' o c ↔ made o c)
    (hd : ∀ p c, parted' p c ↔ parted p c) : w.Planted made' parted' := by
  obtain rfl : made' = made := funext fun o => funext fun c => propext (hm o c)
  obtain rfl : parted' = parted := funext fun p => funext fun c => propext (hd p c)
  exact hp

/-! ### A new manager -/

/-- The next manager has been made for an owner that keeps a list, and stands on it. -/
structure Sprouts (w : World) (o : Owner) (v : World) : Prop where
  kin_new : v.kin? ⟨w.managers.size⟩ = some ⟨o, .opened, []⟩
  kin : ∀ c : ManagerId, c.index < w.managers.size → v.kin? c = (w.kin? c).map fun k =>
    if o = .parent c then { k with children := k.children ++ [⟨w.managers.size⟩] } else k
  only : ∀ c, v.Has (.manager c) → c.index < w.managers.size ∨ c = ⟨w.managers.size⟩
  registered : v.registered = w.registered
  shutdowns : v.shutdowns = w.shutdowns
  roots : v.roots = if o = .registry then w.roots ++ [⟨w.managers.size⟩] else w.roots
  keeper : o = .registry → w.registered = true
  parent : ∀ p, o = .parent p → w.Has (.manager p)

section Sprouts

variable {o : Owner}

theorem Under.has {c : ManagerId} (h : w.Under o c) : w.Has (.manager c) := by
  obtain ⟨k, hk, -⟩ := h
  exact has_manager_iff.mpr ⟨k, hk⟩

/-- A manager of the new world is an old one, with the same owner and lifecycle, or the new. -/
theorem Sprouts.cases (h : w.Sprouts o v) {c : ManagerId} {k : Kin} (hk : v.kin? c = some k) :
    (c = ⟨w.managers.size⟩ ∧ k = ⟨o, .opened, []⟩) ∨
    ∃ q, w.kin? c = some q ∧ k.owner = q.owner ∧ k.lifecycle = q.lifecycle ∧
      k.children = if o = .parent c then q.children ++ [⟨w.managers.size⟩] else q.children := by
  rcases h.only c (has_manager_iff.mpr ⟨k, hk⟩) with hc | rfl
  · rw [h.kin c hc] at hk
    obtain ⟨q, hq, rfl⟩ := Option.map_eq_some_iff.mp hk
    refine Or.inr ⟨q, hq, ?_⟩
    split <;> exact ⟨rfl, rfl, rfl⟩
  · rw [h.kin_new, Option.some.injEq] at hk
    exact Or.inl ⟨rfl, hk.symm⟩

theorem Sprouts.stays (h : w.Sprouts o v) {c : ManagerId} {q : Kin} (hq : w.kin? c = some q) :
    ∃ k, v.kin? c = some k ∧ k.owner = q.owner ∧ k.lifecycle = q.lifecycle := by
  have hk := h.kin c (has_manager_iff.mpr ⟨q, hq⟩)
  rw [hq, Option.map_some] at hk
  refine ⟨_, hk, ?_, ?_⟩ <;> split <;> rfl

theorem Sprouts.under (h : w.Sprouts o v) {o' : Owner} {c : ManagerId} :
    v.Under o' c ↔ w.Under o' c ∨ (o = o' ∧ c = ⟨w.managers.size⟩) := by
  constructor
  · rintro ⟨k, hk, rfl, hl⟩
    rcases h.cases hk with ⟨rfl, rfl⟩ | ⟨q, hq, ho, hlq, -⟩
    · exact Or.inr ⟨rfl, rfl⟩
    · exact Or.inl ⟨q, hq, ho.symm, hlq ▸ hl⟩
  · rintro (⟨q, hq, rfl, hl⟩ | ⟨rfl, rfl⟩)
    · obtain ⟨k, hk, ho, hlk⟩ := h.stays hq
      exact ⟨k, hk, ho, hlk ▸ hl⟩
    · exact ⟨_, h.kin_new, rfl, by simp⟩

theorem Sprouts.hasRegistry (h : w.Sprouts o v) : v.HasRegistry ↔ w.HasRegistry := by
  simp only [HasRegistry, h.registered, h.shutdowns]

theorem ne_of_has {c : ManagerId} (h : w.Has (.manager c)) : c ≠ ⟨w.managers.size⟩ := by
  rintro rfl
  exact Nat.lt_irrefl _ h

/-- The new manager is the last child of its parent; it has no children itself. -/
theorem Planted.children_sprouts (hp : w.Planted made parted) (h : w.Sprouts o v) {p : ManagerId}
    {k : Kin} (hk : v.kin? p = some k) (hl : k.lifecycle = .opened) (c : ManagerId) :
    c ∈ k.children ↔ v.Under (.parent p) c ∧ ¬ parted p c := by
  rw [h.under]
  rcases h.cases hk with ⟨rfl, rfl⟩ | ⟨q, hq, -, hlq, hc⟩
  · refine iff_of_false List.not_mem_nil ?_
    rintro ⟨hu | ⟨ho, -⟩, -⟩
    · obtain ⟨j, hj, ho, -⟩ := hu
      have hlt : w.managers.size < c.index := hp.older _ c ((hp.made_iff _ c).mpr ⟨j, hj, ho⟩)
      exact Nat.lt_asymm hlt (has_manager_iff.mpr ⟨j, hj⟩)
    · exact Nat.lt_irrefl _ (h.parent _ ho)
  · have hold := hp.mem_children p q hq (hlq ▸ hl) c
    have hapart : c = ⟨w.managers.size⟩ → ¬ parted p c :=
      fun hc hpc => ne_of_has (hp.has_parted p c hpc) hc
    rw [hc]
    by_cases ho : o = .parent p
    · rw [if_pos ho, List.mem_append, List.mem_singleton, hold]
      constructor
      · rintro (⟨hu, hn⟩ | hc)
        · exact ⟨Or.inl hu, hn⟩
        · exact ⟨Or.inr ⟨ho, hc⟩, hapart hc⟩
      · rintro ⟨hu | ⟨-, hc⟩, hn⟩
        · exact Or.inl ⟨hu, hn⟩
        · exact Or.inr hc
    · rw [if_neg ho, hold]
      simp only [ho, false_and, or_false]

theorem Planted.roots_sprouts (hp : w.Planted made parted) (h : w.Sprouts o v)
    (hr : w.HasRegistry) (c : ManagerId) : c ∈ v.roots ↔ v.Under .registry c := by
  rw [h.roots, h.under]
  by_cases ho : o = .registry
  · rw [if_pos ho, List.mem_append, List.mem_singleton, hp.mem_roots hr]
    simp only [ho, true_and]
  · rw [if_neg ho, hp.mem_roots hr]
    simp only [ho, false_and, or_false]

theorem Planted.sprouts (hp : w.Planted made parted) (hw : w.WellOwned) (h : w.Sprouts o v) :
    v.Planted (fun o' c => made o' c ∨ (o, (⟨w.managers.size⟩ : ManagerId)) = (o', c)) parted where
  made_iff o' c := by
    rw [hp.made_iff, Prod.mk.injEq]
    constructor
    · rintro (⟨q, hq, rfl⟩ | ⟨rfl, rfl⟩)
      · obtain ⟨k, hk, ho, -⟩ := h.stays hq
        exact ⟨k, hk, ho⟩
      · exact ⟨_, h.kin_new, rfl⟩
    · rintro ⟨k, hk, rfl⟩
      rcases h.cases hk with ⟨rfl, rfl⟩ | ⟨q, hq, ho, -, -⟩
      · exact Or.inr ⟨rfl, rfl⟩
      · exact Or.inl ⟨q, hq, ho.symm⟩
  has_parted p c hpc := by
    obtain ⟨q, hq⟩ := has_manager_iff.mp (hp.has_parted p c hpc)
    obtain ⟨k, hk, -⟩ := h.stays hq
    exact has_manager_iff.mpr ⟨k, hk⟩
  older p c := by
    rintro (hm | hm)
    · exact hp.older p c hm
    · obtain ⟨rfl, rfl⟩ := Prod.mk.inj hm
      exact h.parent p rfl
  nodup p k hk := by
    rcases h.cases hk with ⟨rfl, rfl⟩ | ⟨q, hq, -, -, hc⟩
    · exact List.nodup_nil
    · have hold := hp.nodup p q hq
      obtain ⟨r, hr, rfl⟩ := Option.map_eq_some_iff.mp hq
      rw [hc]
      split
      · refine List.nodup_append.mpr ⟨hold, List.pairwise_singleton _ _, ?_⟩
        rintro c hc' d hd rfl
        have hhas := hw.owned p r hr _ (List.mem_append_left _ (List.mem_map_of_mem hc'))
        exact ne_of_has hhas (List.mem_singleton.mp hd)
      · exact hold
  mem_children p k hk hl c := hp.children_sprouts h hk hl c
  nodup_roots := by
    rw [h.roots]
    split
    · rename_i ho
      refine List.nodup_append.mpr ⟨hp.nodup_roots, List.pairwise_singleton _ _, ?_⟩
      rintro c hc d hd rfl
      have hu := (hp.mem_roots (Or.inl (h.keeper ho)) c).mp hc
      exact ne_of_has hu.has (List.mem_singleton.mp hd)
    · exact hp.nodup_roots
  mem_roots hr c := hp.roots_sprouts h (h.hasRegistry.mp hr) c
  dropped hr := by
    rw [h.roots, if_neg, hp.dropped fun hw => hr (h.hasRegistry.mpr hw)]
    intro ho
    exact hr (h.hasRegistry.mpr (Or.inl (h.keeper ho)))

end Sprouts

/-! ### Managers that are there already -/

/-- No manager is made, and each keeps its owner. -/
structure Reshapes (w : World) (g : ManagerId → Kin → Kin) (v : World) : Prop where
  kin : ∀ n, v.kin? n = (w.kin? n).map (g n)
  owner : ∀ n k, (g n k).owner = k.owner
  registered : v.registered = w.registered
  shutdowns : v.shutdowns = w.shutdowns

section Reshapes

variable {g : ManagerId → Kin → Kin} {parted' : ManagerId → ManagerId → Prop}

theorem Reshapes.under (h : w.Reshapes g v) {o : Owner} {c : ManagerId} :
    v.Under o c ↔ ∃ k, w.kin? c = some k ∧ k.owner = o ∧ (g c k).lifecycle ≠ .closed := by
  simp only [Under, h.kin, Option.map_eq_some_iff]
  constructor
  · rintro ⟨_, ⟨k, hk, rfl⟩, ho, hl⟩
    exact ⟨k, hk, (h.owner c k) ▸ ho, hl⟩
  · rintro ⟨k, hk, ho, hl⟩
    exact ⟨_, ⟨k, hk, rfl⟩, (h.owner c k).trans ho, hl⟩

/-- Where no manager is closed by it, each is still its owner's. -/
theorem Reshapes.under_iff (h : w.Reshapes g v) (hl : ∀ c k, w.kin? c = some k →
    ((g c k).lifecycle = .closed ↔ k.lifecycle = .closed)) (o : Owner) (c : ManagerId) :
    v.Under o c ↔ w.Under o c := by
  rw [h.under]
  exact exists_congr fun k => and_congr_right fun hk => and_congr_right fun _ =>
    not_congr (hl c k hk)

theorem Reshapes.hasRegistry (h : w.Reshapes g v) : v.HasRegistry ↔ w.HasRegistry := by
  simp only [HasRegistry, h.registered, h.shutdowns]

/-- What is left to show when managers are reshaped: that the lists are right. -/
theorem Planted.reshapes (hp : w.Planted made parted) (h : w.Reshapes g v)
    (has : ∀ p c, parted' p c → w.Has (.manager c))
    (nodup : ∀ n k, w.kin? n = some k → (g n k).children.Nodup)
    (children : ∀ p k, w.kin? p = some k → (g p k).lifecycle = .opened →
      ∀ c, c ∈ (g p k).children ↔ v.Under (.parent p) c ∧ ¬ parted' p c)
    (rootsNodup : v.roots.Nodup)
    (roots : w.HasRegistry → ∀ c, c ∈ v.roots ↔ v.Under .registry c)
    (dropped : ¬ w.HasRegistry → v.roots = []) : v.Planted made parted' where
  made_iff o c := by
    rw [hp.made_iff]
    simp only [h.kin, Option.map_eq_some_iff]
    constructor
    · rintro ⟨k, hk, ho⟩
      exact ⟨_, ⟨k, hk, rfl⟩, (h.owner c k).trans ho⟩
    · rintro ⟨_, ⟨k, hk, rfl⟩, ho⟩
      exact ⟨k, hk, (h.owner c k) ▸ ho⟩
  has_parted p c hpc := by
    obtain ⟨k, hk⟩ := has_manager_iff.mp (has p c hpc)
    exact has_manager_iff.mpr ⟨g c k, by rw [h.kin, hk, Option.map_some]⟩
  older := hp.older
  nodup n k hk := by
    rw [h.kin] at hk
    obtain ⟨q, hq, rfl⟩ := Option.map_eq_some_iff.mp hk
    exact nodup n q hq
  mem_children p k hk hl := by
    rw [h.kin] at hk
    obtain ⟨q, hq, rfl⟩ := Option.map_eq_some_iff.mp hk
    exact children p q hq hl
  nodup_roots := rootsNodup
  mem_roots hr := roots (h.hasRegistry.mp hr)
  dropped hr := dropped fun hw => hr (h.hasRegistry.mpr hw)

end Reshapes

theorem reshapes_modifyManager (w : World) (m : ManagerId) {f : Manager → Manager} (g : Kin → Kin)
    (hf : ∀ r, (f r).kin = g r.kin) (hg : ∀ k, (g k).owner = k.owner) :
    w.Reshapes (fun n k => if m = n then g k else k) (w.modifyManager m f) := by
  refine ⟨fun n => ?_, fun n k => ?_, rfl, rfl⟩
  · rw [kin?, manager?_modifyManager, kin?, Option.map_map]
    by_cases hmn : m = n
    · simp only [if_pos hmn, Option.map_map]
      exact congrArg (Option.map · (w.manager? n)) (funext hf)
    · simp only [if_neg hmn]
      rfl
  · split
    · exact hg k
    · rfl

theorem kin?_of_openManager {p : ManagerId} {r : Manager} (h : w.openManager p = .ok r) :
    w.kin? p = some r.kin ∧ r.kin.lifecycle = .opened :=
  ⟨kin?_of_manager? (openManager_eq_ok.mp h).1, (openManager_eq_ok.mp h).2⟩

theorem Planted.detachSub (hp : w.Planted made parted) (p c : ManagerId) :
    (w.detachSub p c).1.Planted made
      (fun q d => parted q d ∨ (w.detachSub p c).2.map (p, ·) = some (q, d)) := by
  rcases detachSub_cases w p c with h | ⟨r, hr, hc, h⟩ <;> rw [h]
  · refine hp.congr (fun _ _ => Iff.rfl) fun q d => ?_
    simp
  obtain ⟨hk, hl⟩ := kin?_of_openManager hr
  have hv := reshapes_modifyManager w p (f := fun r => { r with children := r.children.erase c })
    (fun k => { k with children := k.children.erase c }) (fun _ => rfl) (fun _ => rfl)
  have hunder := hv.under_iff fun n k _ => by split <;> exact Iff.rfl
  have hhas := ((hp.mem_children p _ hk hl c).mp hc).1.has
  refine hp.reshapes hv ?_ ?_ ?_ hp.nodup_roots ?_ hp.dropped
  · rintro q d (hd | hd)
    · exact hp.has_parted q d hd
    · cases hd
      exact hhas
  · intro n k hn
    split
    · exact (hp.nodup n k hn).erase c
    · exact hp.nodup n k hn
  · intro q k hq hlq d
    rw [hunder, Option.map_some, Option.some.injEq, Prod.mk.injEq]
    by_cases hpq : p = q
    · subst hpq
      rw [if_pos rfl] at hlq ⊢
      rw [(hp.nodup p k hq).mem_erase_iff, hp.mem_children p k hq hlq d]
      simp only [true_and, not_or, ne_eq, eq_comm (a := c)]
      exact ⟨fun h => ⟨h.2.1, h.2.2, h.1⟩, fun h => ⟨h.2.2, h.1, h.2.1⟩⟩
    · rw [if_neg hpq] at hlq ⊢
      rw [hp.mem_children q k hq hlq d]
      simp only [hpq, false_and, or_false]
  · intro hreg d
    rw [hunder]
    exact hp.mem_roots hreg d

/-! ### The registry -/

/-- Whoever holds the registry lets go of it; the last one lets go of its roots. -/
theorem Planted.dropRoots (hp : w.Planted made parted) (registered : Bool) (shutdowns : Nat)
    (h : registered = true ∨ 0 < shutdowns → w.HasRegistry) :
    World.Planted made parted { w with registered, shutdowns }.dropRoots := by
  unfold World.dropRoots
  split
  · rename_i hgone
    simp only [Bool.and_eq_true, Bool.not_eq_true', beq_iff_eq] at hgone
    obtain ⟨hr, hs⟩ := hgone
    refine ⟨hp.made_iff, hp.has_parted, hp.older, hp.nodup, hp.mem_children, List.nodup_nil,
      ?_, fun _ => rfl⟩
    rintro (hheld | hheld)
    · exact absurd (hr.symm.trans hheld) (by simp)
    · exact absurd hs (Nat.ne_of_gt hheld)
  · rename_i hheld
    replace hheld : registered = true ∨ 0 < shutdowns := by
      simp only [Bool.and_eq_true, Bool.not_eq_true', beq_iff_eq, not_and_or,
        Bool.not_eq_false] at hheld
      exact hheld.imp_right Nat.pos_of_ne_zero
    exact ⟨hp.made_iff, hp.has_parted, hp.older, hp.nodup, hp.mem_children, hp.nodup_roots,
      fun _ => hp.mem_roots (h hheld), fun hn => absurd hheld hn⟩

/-! ### The ends of a close -/

theorem Planted.beginClose (hp : w.Planted made parted) {m : ManagerId} {r : Manager}
    (hm : w.openManager m = .ok r) (k : ThreadId) :
    (w.beginClose m r k).1.Planted made parted := by
  obtain ⟨hk, hl⟩ := kin?_of_openManager hm
  have hv := reshapes_modifyManager w m
    (f := fun r => { r with lifecycle := .closing k, resources := {}, children := [] })
    (fun q => ⟨q.owner, .closing k, []⟩) (fun _ => rfl) (fun _ => rfl)
  have hunder := hv.under_iff fun n q hq => by
    split
    · rename_i hmn
      subst hmn
      obtain rfl := Option.some.inj (hk.symm.trans hq)
      simp [hl]
    · exact Iff.rfl
  refine Planted.same (hp.reshapes hv hp.has_parted ?_ ?_ hp.nodup_roots ?_ hp.dropped)
    (told_note _ _).aside.sameForest
  · intro n q hq
    split
    · exact List.nodup_nil
    · exact hp.nodup n q hq
  · intro p q hq hlq d
    rw [hunder]
    by_cases hmp : m = p
    · rw [if_pos hmp] at hlq
      cases hlq
    · rw [if_neg hmp] at hlq ⊢
      exact hp.mem_children p q hq hlq d
  · intro hreg d
    rw [hunder]
    exact hp.mem_roots hreg d

/-- The end of a close in the forest: the manager is closed, and leaves the list of its owner. -/
theorem reshapes_endCascade {m : ManagerId} {r : Manager} (hr : w.manager? m = some r)
    (failures : ReleaseFailures) :
    w.Reshapes (fun n k =>
      if m = n then { k with lifecycle := .closed }
      else if r.owner = .parent n ∧ k.lifecycle = .opened then
        { k with children := k.children.erase m }
      else k) (w.endCascade m failures).1 ∧
    (w.endCascade m failures).1.roots =
      if r.owner = .registry then w.roots.erase m else w.roots := by
  have hnote : (w.finishClose m).Aside (w.endCascade m failures).1 := by
    simp only [endCascade]
    split
    · exact .refl _
    · exact (told_note _ _).aside
  obtain ⟨hregistered, hshutdowns, hroots⟩ := Registry.mk.inj hnote.registry
  obtain ⟨managers, roots, journal, hfinish⟩ := exists_finishClose_eq w m
  refine ⟨⟨fun n => ?_, fun n k => ?_, ?_, ?_⟩, ?_⟩
  · rw [hnote.sameForest.kin, kin?, manager?_finishClose hr, Option.map_map, kin?, Option.map_map]
    refine congrArg (Option.map · (w.manager? n)) (funext fun q => ?_)
    simp only [Function.comp_apply]
    by_cases hmn : m = n
    · rw [if_pos hmn, if_pos hmn]
      rfl
    · rw [if_neg hmn, if_neg hmn]
      by_cases ho : r.owner = .parent n <;> by_cases hl : q.lifecycle = .opened <;>
        simp [ho, hl, Manager.kin, Manager.without, Manager.isOpen]
  · split
    · rfl
    · split <;> rfl
  · rw [hregistered, hfinish]
  · rw [hshutdowns, hfinish]
  · rw [hroots]
    simp only [finishClose, hr]
    exact roots_unlink _ m r.owner

/-- What is its owner's afterwards is what was before, without the manager. -/
theorem under_endCascade {m : ManagerId} {r : Manager} (hr : w.manager? m = some r)
    (failures : ReleaseFailures) {o : Owner} {c : ManagerId} :
    (w.endCascade m failures).1.Under o c ↔ w.Under o c ∧ c ≠ m := by
  rw [(reshapes_endCascade hr failures).1.under]
  by_cases hmc : m = c
  · simp [hmc]
  · have hcm : c ≠ m := fun h => hmc h.symm
    simp only [if_neg hmc, hcm, ne_eq, not_false_eq_true, and_true, Under]
    refine exists_congr fun q => and_congr_right fun _ => and_congr_right fun _ => ?_
    split <;> exact Iff.rfl

theorem Under.owner_eq {o : Owner} {m : ManagerId} {r : Manager} (h : w.Under o m)
    (hr : w.manager? m = some r) : o = r.owner := by
  obtain ⟨q, hq, rfl, -⟩ := h
  obtain rfl := Option.some.inj ((kin?_of_manager? hr).symm.trans hq)
  rfl

theorem Planted.endCascade (hp : w.Planted made parted) {m : ManagerId} {k : ThreadId}
    (hm : w.lifecycle? m = some (.closing k)) (failures : ReleaseFailures) :
    (w.endCascade m failures).1.Planted made parted := by
  obtain ⟨r, hr, hl⟩ := lifecycle?_eq_some.mp hm
  obtain ⟨hv, hroots⟩ := reshapes_endCascade hr failures
  refine hp.reshapes hv hp.has_parted ?_ ?_ ?_ ?_ ?_
  · intro n q hq
    have hold := hp.nodup n q hq
    split
    · exact hold
    · split
      · exact hold.erase m
      · exact hold
  · intro p q hq hlq d
    rw [under_endCascade hr]
    by_cases hmp : m = p
    · rw [if_pos hmp] at hlq
      cases hlq
    rw [if_neg hmp] at hlq ⊢
    by_cases ho : r.owner = .parent p ∧ q.lifecycle = .opened
    · rw [if_pos ho, (hp.nodup p q hq).mem_erase_iff, hp.mem_children p q hq ho.2 d]
      tauto
    · rw [if_neg ho] at hlq ⊢
      rw [hp.mem_children p q hq hlq d]
      have hne : w.Under (.parent p) d → d ≠ m := by
        rintro hu rfl
        exact ho ⟨(hu.owner_eq hr).symm, hlq⟩
      tauto
  · rw [hroots]
    split
    · exact hp.nodup_roots.erase m
    · exact hp.nodup_roots
  · intro hreg d
    rw [hroots, under_endCascade hr]
    by_cases ho : r.owner = .registry
    · rw [if_pos ho, hp.nodup_roots.mem_erase_iff, hp.mem_roots hreg]
      tauto
    · rw [if_neg ho, hp.mem_roots hreg]
      have hne : w.Under .registry d → d ≠ m := by
        rintro hu rfl
        exact ho (hu.owner_eq hr).symm
      tauto
  · intro hreg
    rw [hroots, hp.dropped hreg]
    split <;> rfl

/-! ### Deeds -/

theorem sprouts_newBase (hr : w.registered = true) (d : Device) :
    w.Sprouts .registry (w.newBase d).1 := by
  have hm : ∀ c, (w.newBase d).1.manager? c =
      if c.index = w.managers.size then some { device := d, owner := .registry }
      else w.manager? c := manager?_addManager w _
  refine ⟨?_, ?_, ?_, rfl, rfl, (if_pos rfl).symm, fun _ => hr, fun p hp => by cases hp⟩
  · rw [kin?, hm, if_pos rfl]
    rfl
  · intro c hc
    rw [kin?, hm, if_neg (Nat.ne_of_lt hc), kin?, Option.map_map]
    rfl
  · intro c hc
    have hlt : c.index < (w.managers.push { device := d, owner := .registry }).size := hc
    rw [Array.size_push] at hlt
    rcases Nat.lt_succ_iff_lt_or_eq.mp hlt with h | h
    · exact Or.inl h
    · exact Or.inr (by cases c; exact congrArg ManagerId.mk h)

theorem sprouts_newSub {p c : ManagerId} {d : Option Device} (h : w.newSub p d = .ok (v, c)) :
    w.Sprouts (.parent p) v ∧ c = ⟨w.managers.size⟩ := by
  obtain ⟨r, hr, rfl, rfl⟩ := newSub_eq_ok h
  have hp : w.Has (.manager p) := has_manager_of (openManager_eq_ok.mp hr).1
  have hne : Owner.parent p ≠ .registry := by simp
  refine ⟨⟨?_, ?_, ?_, rfl, rfl, (if_neg hne).symm, fun ho => absurd ho hne, ?_⟩, rfl⟩
  · have hne : p ≠ ⟨w.managers.size⟩ := ne_of_has hp
    rw [(told_note _ _).aside.sameForest.kin, kin?, manager?_modifyManager, if_neg hne,
      manager?_addManager, if_pos rfl]
    rfl
  · intro c hc
    rw [(told_note _ _).aside.sameForest.kin, kin?, manager?_modifyManager, manager?_addManager,
      if_neg (Nat.ne_of_lt hc), kin?, Option.map_map]
    by_cases hpc : p = c
    · simp only [hpc, if_true, Option.map_map]
      rfl
    · have hne : Owner.parent p ≠ .parent c := fun h => hpc (Owner.parent.inj h)
      simp only [if_neg hpc, if_neg hne]
      rfl
  · intro c hc
    have hlt : c.index < ((w.managers.push _).modify p.index _).size := hc
    rw [Array.size_modify, Array.size_push] at hlt
    rcases Nat.lt_succ_iff_lt_or_eq.mp hlt with h | h
    · exact Or.inl h
    · exact Or.inr (by cases c; exact congrArg ManagerId.mk h)
  · rintro q ⟨⟩
    exact hp

theorem sameForest_attach {m : ManagerId} {key : Label} {x : Resource} {old : Option Resource}
    (h : w.attach m key x = .ok (v, old)) : w.SameForest v := by
  obtain ⟨r, u, -, -, hu, rfl⟩ := attach_eq_ok h
  have hw : w.SameForest u := by
    rcases hu with rfl | rfl
    · exact .refl _
    · exact (told_note _ _).aside.sameForest
  exact hw.trans (sameForest_modifyManager u m fun _ => rfl)

theorem sameForest_detach (w : World) (m : ManagerId) (key : Label) :
    w.SameForest (w.detach m key).1 := by
  rcases detach_cases w m key with h | ⟨r, x, -, -, h⟩ <;> rw [h]
  · exact .refl w
  · refine .trans (sameForest_modifyManager w m ?_) (told_note _ _).aside.sameForest
    exact fun _ => rfl

theorem sameForest_releaseArray (w : World) (a : ArrayId) :
    w.SameForest (w.releaseArray a).1 := by
  have hmark : w.SameForest (w.markReleased a) := ⟨fun _ => rfl, rfl⟩
  rcases releaseArray_eq_or_told w a with h | h
  · rw [h]
    exact .refl w
  · exact hmark.trans h.aside.sameForest

/-- **Deeds keep the forest**, with what they make and part. -/
theorem Planted.deed (hp : w.Planted made parted) (hw : w.WellOwned)
    {new : Option (Owner × ManagerId)} {gone : Option (ManagerId × ManagerId)}
    {attached : Option Resource} (h : w.Deed new gone attached v) :
    v.Planted (fun o c => made o c ∨ new = some (o, c))
      (fun p c => parted p c ∨ gone = some (p, c)) := by
  have same : ∀ {u : World}, w.SameForest u →
      u.Planted (fun o c => made o c ∨ none = some (o, c))
        (fun p c => parted p c ∨ none = some (p, c)) := by
    intro u hu
    exact (hp.same hu).congr (fun _ _ => by simp) (fun _ _ => by simp)
  cases h with
  | fills h => exact same h.sameForest
  | base d hr h =>
      have hs := hp.sprouts hw (sprouts_newBase hr d)
      refine Planted.congr (hs.same h.sameForest) (fun o c => ?_) (fun _ _ => by simp)
      exact or_congr_right (by rw [Option.some.injEq]; rfl)
  | sub hu h =>
      obtain ⟨hsprouts, rfl⟩ := sprouts_newSub hu
      have hs := hp.sprouts hw hsprouts
      refine Planted.congr (hs.same h.sameForest) (fun o c => ?_) (fun _ _ => by simp)
      rw [Option.some.injEq]
  | attach hu hkey ha h =>
      exact same ((hu.sameForest.trans (sameForest_attach ha)).trans h.sameForest)
  | detach m key h => exact same ((sameForest_detach w m key).trans h.sameForest)
  | detachSub p c h =>
      exact Planted.congr ((hp.detachSub p c).same h.sameForest) (fun _ _ => by simp)
        (fun _ _ => Iff.rfl)
  | shutdown hr h =>
      have hb : w.beginShutdown.Planted made parted :=
        ⟨hp.made_iff, hp.has_parted, hp.older, hp.nodup, hp.mem_children, hp.nodup_roots,
          fun _ => hp.mem_roots (Or.inl hr), fun hn => absurd (Or.inl hr) hn⟩
      exact (hb.same h.sameForest).congr (fun _ _ => by simp) (fun _ _ => by simp)
  | dropRegistry h =>
      have hd : World.Planted made parted { w with registered := false }.dropRoots :=
        hp.dropRoots false w.shutdowns fun hr => Or.inr (hr.resolve_left (by simp))
      exact (hd.same h.sameForest).congr (fun _ _ => by simp) (fun _ _ => by simp)

theorem Planted.endShutdown (hp : w.Planted made parted) : w.endShutdown.Planted made parted := by
  refine hp.dropRoots w.registered (w.shutdowns - 1) ?_
  exact Or.imp_right fun h => Nat.lt_of_lt_of_le h (Nat.sub_le _ _)

/-! ### Parents and children -/

/-- The manager has the other one among its children. -/
def Child (w : World) (p c : ManagerId) : Prop := ∃ r, w.manager? p = some r ∧ c ∈ r.children

/-- Only an open manager owns anything. -/
theorem WellOwned.opened_of_owned (hw : w.WellOwned) {m : ManagerId} {r : Manager}
    (hr : w.manager? m = some r) {x : Resource} (hx : x ∈ r.owned) : r.lifecycle = .opened := by
  by_contra hne
  obtain ⟨hresources, hchildren⟩ := hw.given m r hr hne
  rw [Manager.owned, hresources, hchildren] at hx
  cases hx

/-- A new child is open, and on the list of its parent. -/
theorem child_newSub {p c : ManagerId} {d : Option Device} (h : w.newSub p d = .ok (v, c)) :
    ¬ w.Has (.manager c) ∧ v.lifecycle? c = some .opened ∧ v.Child p c := by
  obtain ⟨hs, rfl⟩ := sprouts_newSub h
  obtain ⟨r, hr, hkin⟩ := Option.map_eq_some_iff.mp hs.kin_new
  have hlt := hs.parent p rfl
  obtain ⟨q, hq⟩ := exists_of_has_manager hlt
  have hp := hs.kin p hlt
  rw [kin?_of_manager? hq, Option.map_some, if_pos rfl] at hp
  obtain ⟨q', hq', hkin'⟩ := Option.map_eq_some_iff.mp hp
  have hchildren : q'.children = q.children ++ [⟨w.managers.size⟩] := congrArg Kin.children hkin'
  refine ⟨Nat.lt_irrefl _, lifecycle?_eq_some.mpr ⟨r, hr, congrArg Kin.lifecycle hkin⟩, q', hq', ?_⟩
  rw [hchildren]
  exact List.mem_append_right _ (List.mem_singleton_self _)

/-- The parent of a child is the manager it was made for. -/
theorem Planted.child (hp : w.Planted made parted) (hw : w.WellOwned) {p c : ManagerId}
    (h : w.Child p c) : made (.parent p) c := by
  obtain ⟨r, hr, hc⟩ := h
  have ho := hw.opened_of_owned hr (List.mem_append_left _ (List.mem_map_of_mem hc))
  obtain ⟨k, hk, hown, -⟩ := ((hp.mem_children p _ (kin?_of_manager? hr) ho c).mp hc).1
  exact (hp.made_iff _ c).mpr ⟨k, hk, hown⟩

/-- A manager is made for one owner. -/
theorem Planted.owner_unique (hp : w.Planted made parted) {o o' : Owner} {c : ManagerId}
    (h : made o c) (h' : made o' c) : o = o' := by
  obtain ⟨k, hk, rfl⟩ := (hp.made_iff _ c).mp h
  obtain ⟨j, hj, rfl⟩ := (hp.made_iff _ c).mp h'
  rw [Option.some.inj (hk.symm.trans hj)]

end World

end ArrayLifetimes
