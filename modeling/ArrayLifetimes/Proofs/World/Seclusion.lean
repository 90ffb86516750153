/-
What commands and releases leave alone.

A command that attaches something may make a manager the owner of it.  No other command makes any
manager the owner of what there was before, or any of that a root: a manager comes to own
nothing but what is new.  `Confined` says so of two worlds.  Releases and closes take from
managers only.

And a command leaves each single thing as it was.  Releases are the work of threads, and a
command only starts them.  A release changes what it releases, and nothing else.
-/
import ArrayLifetimes.Proofs.World.Forest

namespace ArrayLifetimes

namespace World

variable {w v u : World} {m : ManagerId} {x : Resource}

/-- The manager owns the resource: it is a child, or it is under some key. -/
def Owns (w : World) (m : ManagerId) (x : Resource) : Prop :=
  ∃ r, w.manager? m = some r ∧ x ∈ r.owned

/-- The resource is in one world as it is in another. -/
def SameAs (w v : World) : Resource → Prop
  | .array a => v.array? a = w.array? a
  | .manager m => v.lifecycle? m = w.lifecycle? m
  | .hook h => v.hook? h = w.hook? h

theorem SameAs.refl (w : World) (x : Resource) : w.SameAs w x := by cases x <;> exact rfl

theorem SameAs.trans (h : w.SameAs v x) (h' : v.SameAs u x) : w.SameAs u x := by
  cases x <;> exact Eq.trans h' h

theorem SameAs.isReleased (h : w.SameAs v x) : v.isReleased x = w.isReleased x := by
  cases x with
  | array a => simp only [World.isReleased, show v.array? a = w.array? a from h]
  | manager m =>
      rw [Bool.eq_iff_iff, isReleased_manager, isReleased_manager,
        show v.lifecycle? m = w.lifecycle? m from h]
  | hook g => simp only [World.isReleased, show v.hook? g = w.hook? g from h]

/-- From one world to another, no manager has come to own what there was, but some, and nothing
of it has become a root. -/
structure Confined (w v : World) (extra : Resource → Prop) : Prop where
  has : ∀ x, w.Has x → v.Has x
  owns : ∀ m x, w.Has x → v.Owns m x → w.Owns m x ∨ extra x
  roots : ∀ m, w.Has (.manager m) → m ∈ v.roots → m ∈ w.roots

section Confined

variable {extra : Resource → Prop}

theorem owns_of_eq (hm : v.managers = w.managers) (h : v.Owns m x) : w.Owns m x := by
  obtain ⟨r, hr, hx⟩ := h
  refine ⟨r, ?_, hx⟩
  simpa only [manager?, hm] using hr

theorem Aside.confined (h : w.Aside v) : w.Confined v extra where
  has := h.has
  owns _ _ _ ho := Or.inl (owns_of_eq h.managers ho)
  roots _ _ hm := by
    rwa [show v.roots = w.roots from congrArg Registry.roots h.registry] at hm

theorem Confined.trans (h : w.Confined v extra) (h' : v.Confined u extra) :
    w.Confined u extra where
  has x hx := h'.has x (h.has x hx)
  owns m x hx ho := by
    rcases h'.owns m x (h.has x hx) ho with ho | he
    · exact h.owns m x hx ho
    · exact Or.inr he
  roots m hm hr := h.roots m hm (h'.roots m (h.has _ hm) hr)

/-- What is given to a manager is new. -/
theorem Confined.of_new {new : Resource → Prop} (h : w.Confined v new)
    (hn : ∀ x, new x → ¬ w.Has x) : w.Confined v extra :=
  ⟨h.has, fun m x hx ho => Or.inl ((h.owns m x hx ho).resolve_right fun hnew => hn x hnew hx),
    h.roots⟩

/-- A manager owns nothing new but what has been given to it. -/
theorem confined_modifyManager (w : World) (m : ManagerId) {f : Manager → Manager}
    (hf : ∀ r x, x ∈ (f r).owned → x ∈ r.owned ∨ extra x) :
    w.Confined (w.modifyManager m f) extra where
  has x hx := by
    cases x with
    | manager n => simpa only [Has, modifyManager, Array.size_modify] using hx
    | array a => exact hx
    | hook h => exact hx
  owns n x hx := by
    rintro ⟨q, hq, ho⟩
    rw [manager?_modifyManager] at hq
    split at hq
    · obtain ⟨r, hr, rfl⟩ := Option.map_eq_some_iff.mp hq
      exact (hf r x ho).imp_left fun ho => ⟨r, hr, ho⟩
    · exact Or.inl ⟨q, hq, ho⟩
  roots _ _ hm := hm

/-- A new manager owns nothing. -/
theorem confined_addManager (w : World) {r : Manager} (hr : r.owned = []) :
    w.Confined (w.addManager r).1 extra where
  has x hx := by
    cases x with
    | manager n =>
        simp only [Has, addManager, Array.size_push] at hx ⊢
        exact Nat.lt_succ_of_lt hx
    | array a => exact hx
    | hook h => exact hx
  owns n x hx := by
    rintro ⟨q, hq, ho⟩
    rw [manager?_addManager] at hq
    split at hq
    · obtain rfl := Option.some.inj hq
      rw [hr] at ho
      cases ho
    · exact Or.inl ⟨q, hq, ho⟩
  roots _ _ hm := hm

theorem confined_newBase (w : World) (d : Device) : w.Confined (w.newBase d).1 extra := by
  have h : w.Confined (w.addManager { device := d, owner := .registry }).1 extra :=
    confined_addManager w rfl
  refine ⟨h.has, h.owns, fun m hm hr => ?_⟩
  rcases List.mem_append.mp hr with hr | hr
  · exact hr
  · rw [List.mem_singleton.mp hr] at hm
    exact absurd hm (Nat.lt_irrefl _)

/-- A child is new. -/
theorem confined_newSub {p c : ManagerId} {d : Option Device} (h : w.newSub p d = .ok (v, c)) :
    w.Confined v extra := by
  obtain ⟨r, -, rfl, rfl⟩ := newSub_eq_ok h
  have hgiven : w.Confined _ fun x => x = .manager ⟨w.managers.size⟩ :=
    (confined_addManager w rfl).trans (Confined.trans
      (confined_modifyManager (w.addManager { device := d.getD r.device, owner := .parent p }).1 p
        (f := fun r => { r with children := r.children ++ [⟨w.managers.size⟩] }) ?_)
      (told_note _ (.subCreated p ⟨w.managers.size⟩ (d.getD r.device))).aside.confined)
  · exact hgiven.of_new fun x hx hw => Nat.lt_irrefl _ (hx ▸ hw : w.Has (.manager _))
  · intro q x hx
    simp only [Manager.owned, List.map_append, List.mem_append, List.map_cons, List.map_nil,
      List.mem_singleton] at hx ⊢
    rcases hx with (hx | hx) | hx
    · exact Or.inl (Or.inl hx)
    · exact Or.inr hx
    · exact Or.inl (Or.inr hx)

/-- Something is put under a key. -/
theorem confined_insert (w : World) (m : ManagerId) (key : Label) (x : Resource) :
    w.Confined (w.modifyManager m fun r => { r with resources := r.resources.insert key x })
      fun y => y = x := by
  refine confined_modifyManager w m fun q y hy => ?_
  rcases List.mem_append.mp hy with hy | hy
  · exact Or.inl (List.mem_append_left _ hy)
  · rcases Keyed.mem_values_insert hy with rfl | hy
    · exact Or.inr rfl
    · exact Or.inl (List.mem_append_right _ hy)

theorem confined_attach {key : Label} {old : Option Resource}
    (h : w.attach m key x = .ok (v, old)) : w.Confined v fun y => y = x := by
  obtain ⟨r, u, -, -, hu, rfl⟩ := attach_eq_ok h
  have hwu : w.Aside u := by
    rcases hu with rfl | rfl
    · exact .refl u
    · exact (told_note w _).aside
  exact hwu.confined.trans (confined_insert u m key x)

theorem confined_detach (w : World) (m : ManagerId) (key : Label) :
    w.Confined (w.detach m key).1 extra := by
  rcases detach_cases w m key with h | ⟨r, x, -, -, h⟩ <;> rw [h]
  · exact (Aside.refl w).confined
  · refine Confined.trans (confined_modifyManager w m ?_) (told_note _ _).aside.confined
    intro q y hy
    rcases List.mem_append.mp hy with hy | hy
    · exact Or.inl (List.mem_append_left _ hy)
    · exact Or.inl (List.mem_append_right _ (Keyed.mem_values_erase hy))

theorem confined_detachSub (w : World) (m c : ManagerId) :
    w.Confined (w.detachSub m c).1 extra := by
  rcases detachSub_cases w m c with h | ⟨r, -, -, h⟩ <;> rw [h]
  · exact (Aside.refl w).confined
  · refine confined_modifyManager w m ?_
    intro q y hy
    rcases List.mem_append.mp hy with hy | hy
    · obtain ⟨d, hd, rfl⟩ := List.mem_map.mp hy
      exact Or.inl (List.mem_append_left _ (List.mem_map_of_mem (List.mem_of_mem_erase hd)))
    · exact Or.inl (List.mem_append_right _ hy)

theorem confined_dropRoots (w : World) (registered : Bool) (shutdowns : Nat) :
    w.Confined { w with registered, shutdowns }.dropRoots extra := by
  unfold dropRoots
  split
  · refine ⟨fun _ => id, fun _ _ _ ho => Or.inl (owns_of_eq rfl ho), fun _ _ hm => ?_⟩
    cases hm
  · exact ⟨fun _ => id, fun _ _ _ ho => Or.inl (owns_of_eq rfl ho), fun _ _ hm => hm⟩

/-- The begin of a close gives everything away. -/
theorem confined_beginClose (w : World) (m : ManagerId) (r : Manager) (k : ThreadId) :
    w.Confined (w.beginClose m r k).1 extra := by
  refine Confined.trans (confined_modifyManager w m (f := fun r =>
    { r with lifecycle := .closing k, resources := {}, children := [] }) fun q x hx => ?_)
    (told_note _ _).aside.confined
  cases hx

theorem confined_endCascade {r : Manager} (hr : w.manager? m = some r)
    (failures : ReleaseFailures) : w.Confined (w.endCascade m failures).1 extra := by
  have he := ended_endCascade (has_manager_of hr) failures
  refine ⟨he.has, ?_, ?_⟩
  · rintro n x - ⟨q, hq, ho⟩
    obtain ⟨r, hr, -, hres, hch⟩ := he.manager n q hq
    refine Or.inl ⟨r, hr, ?_⟩
    rcases List.mem_append.mp ho with ho | ho
    · obtain ⟨c, hc, rfl⟩ := List.mem_map.mp ho
      exact List.mem_append_left _ (List.mem_map_of_mem (hch hc))
    · exact List.mem_append_right _ (hres ▸ ho)
  · intro n _ hn
    rw [(reshapes_endCascade hr failures).2] at hn
    split at hn
    · exact List.mem_of_mem_erase hn
    · exact hn

theorem confined_releaseArray (w : World) (a : ArrayId) :
    w.Confined (w.releaseArray a).1 extra := by
  have he : (w.releaseArray a).1.managers = w.managers ∧ (w.releaseArray a).1.roots = w.roots := by
    rcases releaseArray_eq_or_told w a with h | ⟨engine, journal, h⟩ <;> rw [h] <;>
      exact ⟨rfl, rfl⟩
  exact ⟨(steady_releaseArray w a).has, fun _ _ _ ho => Or.inl (owns_of_eq he.1 ho),
    fun _ _ hm => he.2 ▸ hm⟩

theorem confined_takeHook (w : World) (h : HookId) : w.Confined (w.takeHook h) extra :=
  ⟨(steady_takeHook w h).has, fun _ _ _ ho => Or.inl (owns_of_eq rfl ho), fun _ _ hm => hm⟩

/-- A manager that takes a new array owns nothing else that is new. -/
theorem Fill.confined (h : w.Fill v) : w.Confined v extra := by
  cases h with
  | aside h => exact h.confined
  | @hold n k r h =>
      have hgiven := (aside_adopt w n).confined.trans
        (confined_insert (w.adopt n).1 k (.array (w.adopt n).2) (.array (w.adopt n).2))
      exact hgiven.of_new fun x hx hw => Nat.lt_irrefl _ (hx ▸ hw : w.Has (.array _))

theorem Fills.confined (h : w.Fills v) : w.Confined v extra := by
  induction h with
  | refl => exact (Aside.refl w).confined
  | tail _ h ih => exact ih.trans h.confined

theorem Fills.has (h : w.Fills v) (x : Resource) (hx : w.Has x) : v.Has x := by
  have hc : w.Confined v fun _ => False := h.confined
  exact hc.has x hx

/-- **No manager comes to own what there was**, but what the command attaches. -/
theorem Deed.confined {made : Option (Owner × ManagerId)}
    {parted : Option (ManagerId × ManagerId)} {attached : Option Resource}
    (h : w.Deed made parted attached v) : w.Confined v fun x => attached = some x := by
  cases h with
  | fills h => exact h.confined
  | base d hr h => exact (confined_newBase w d).trans h.confined
  | sub hu h => exact (confined_newSub hu).trans h.confined
  | attach hu hkey ha h =>
      have hv := confined_attach ha
      have hv' : World.Confined _ _ fun y => some _ = some y :=
        ⟨hv.has, fun m y hy ho => (hv.owns m y hy ho).imp_right fun h => congrArg some h.symm,
          hv.roots⟩
      exact hu.confined.trans (hv'.trans h.confined)
  | detach m key h => exact (confined_detach w m key).trans h.confined
  | detachSub p c h => exact (confined_detachSub w p c).trans h.confined
  | shutdown hr h =>
      have hb : w.Confined w.beginShutdown fun x => none = some x :=
        ⟨fun _ => id, fun _ _ _ ho => Or.inl (owns_of_eq rfl ho), fun _ _ hm => hm⟩
      exact hb.trans h.confined
  | dropRegistry h => exact (confined_dropRoots w false w.shutdowns).trans h.confined

end Confined

/-! ### What stays as it was -/

theorem Aside.sameAs (h : w.Aside v) (hx : w.Has x) : w.SameAs v x := by
  cases x with
  | array a => exact h.arrays a hx
  | manager m => exact congrArg (Option.map Manager.lifecycle) (h.manager? m)
  | hook g => exact h.hooks g hx

/-- Arrays and hooks are as they were, and no manager that there was moves on. -/
theorem Steady.sameAs (h : w.Steady v) (ha : v.arrays = w.arrays) (hh : v.hooks = w.hooks)
    (hx : w.Has x) : w.SameAs v x := by
  cases x with
  | array a => simp only [SameAs, array?, ha]
  | manager m =>
      obtain ⟨r, hr⟩ := exists_of_has_manager hx
      have hl : w.lifecycle? m = some r.lifecycle := lifecycle?_eq_some.mpr ⟨r, hr, rfl⟩
      exact (h.of_some hl).trans hl.symm
  | hook g => simp only [SameAs, hook?, hh]

theorem Fill.sameAs (h : w.Fill v) (hx : w.Has x) : w.SameAs v x := by
  cases h with
  | aside h => exact h.sameAs hx
  | @hold n k r h =>
      have ha := aside_adopt w n
      have hs := steady_modifyManager (w.adopt n).1 k (f := fun r => r.holding (w.adopt n).2)
        fun _ => rfl
      exact (ha.sameAs hx).trans (hs.sameAs rfl rfl (ha.has x hx))

theorem Fills.sameAs (h : w.Fills v) (hx : w.Has x) : w.SameAs v x := by
  induction h with
  | refl => exact .refl w x
  | tail hu h ih => exact ih.trans (h.sameAs (Fills.has hu x hx))

theorem sameAs_dropRoots (w : World) (registered : Bool) (shutdowns : Nat) (x : Resource) :
    w.SameAs { w with registered, shutdowns }.dropRoots x := by
  unfold dropRoots
  split <;> cases x <;> exact rfl

theorem sameAs_releaseArray (w : World) {a : ArrayId} (h : x ≠ .array a) :
    w.SameAs (w.releaseArray a).1 x := by
  rcases releaseArray_eq_or_told w a with hv | ⟨engine, journal, hv⟩ <;> rw [hv]
  · exact .refl w x
  · cases x with
    | array b =>
        show (w.markReleased a).array? b = w.array? b
        rw [array?_markReleased, if_neg]
        rintro rfl
        exact h rfl
    | manager m => exact rfl
    | hook g => exact rfl

theorem sameAs_takeHook (w : World) {g : HookId} (h : x ≠ .hook g) : w.SameAs (w.takeHook g) x := by
  cases x with
  | array a => exact rfl
  | manager m => exact rfl
  | hook f =>
      show (w.takeHook g).hook? f = w.hook? f
      rw [hook?_takeHook, if_neg]
      rintro rfl
      exact h rfl

theorem sameAs_beginClose {r : Manager} (hm : w.openManager m = .ok r) (k : ThreadId)
    (h : x ≠ .manager m) : w.SameAs (w.beginClose m r k).1 x := by
  cases x with
  | array a => exact rfl
  | manager n =>
      show (w.beginClose m r k).1.lifecycle? n = w.lifecycle? n
      rw [lifecycle?_beginClose w k hm, if_neg]
      rintro rfl
      exact h rfl
  | hook g => exact rfl

theorem sameAs_endCascade (hm : w.Has (.manager m)) (failures : ReleaseFailures)
    (h : x ≠ .manager m) : w.SameAs (w.endCascade m failures).1 x := by
  have he := ended_endCascade hm failures
  cases x with
  | array a => simp only [SameAs, array?, he.arrays]
  | manager n =>
      show (w.endCascade m failures).1.lifecycle? n = w.lifecycle? n
      rw [he.lifecycle? hm, if_neg]
      rintro rfl
      exact h rfl
  | hook g => simp only [SameAs, hook?, he.hooks]

/-- **A command leaves everything as it was.** -/
theorem Deed.sameAs {made : Option (Owner × ManagerId)} {parted : Option (ManagerId × ManagerId)}
    {attached : Option Resource} (h : w.Deed made parted attached v) (hx : w.Has x) :
    w.SameAs v x := by
  cases h with
  | fills h => exact h.sameAs hx
  | base d hr h =>
      have hb := steady_newBase w d
      exact (hb.sameAs rfl rfl hx).trans (h.sameAs (hb.has x hx))
  | @sub u v p c d hu h =>
      have hs := steady_newSub hu
      obtain ⟨r, -, -, rfl⟩ := newSub_eq_ok hu
      exact (hs.sameAs rfl rfl hx).trans (h.sameAs (hs.has x hx))
  | @attach u u' v m key y old hu hkey ha h =>
      have hs := steady_attach ha
      have hsame : u.SameAs u' x := by
        obtain ⟨r, u₁, -, -, hu₁, rfl⟩ := attach_eq_ok ha
        rcases hu₁ with rfl | rfl <;> exact hs.sameAs rfl rfl (hu.has x hx)
      exact (hu.sameAs hx).trans (hsame.trans (h.sameAs (hs.has x (hu.has x hx))))
  | detach m key h =>
      have hs := steady_detach w m key
      have hsame : w.SameAs (w.detach m key).1 x := by
        refine hs.sameAs ?_ ?_ hx <;>
          rcases detach_cases w m key with h | ⟨r, y, -, -, h⟩ <;> rw [h] <;> rfl
      exact hsame.trans (h.sameAs (hs.has x hx))
  | detachSub p c h =>
      have hs := steady_detachSub w p c
      have hsame : w.SameAs (w.detachSub p c).1 x := by
        refine hs.sameAs ?_ ?_ hx <;>
          rcases detachSub_cases w p c with h | ⟨r, -, -, h⟩ <;> rw [h] <;> rfl
      exact hsame.trans (h.sameAs (hs.has x hx))
  | shutdown hr h =>
      have hb : w.SameAs w.beginShutdown x := by cases x <;> exact rfl
      exact hb.trans (h.sameAs hx)
  | dropRegistry h =>
      have hd : w.Confined { w with registered := false }.dropRoots fun _ => False :=
        confined_dropRoots w false w.shutdowns
      exact (sameAs_dropRoots w false w.shutdowns x).trans (h.sameAs (hd.has x hx))

end World

end ArrayLifetimes
