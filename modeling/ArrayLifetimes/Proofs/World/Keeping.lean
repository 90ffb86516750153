/-
What a move keeps.

No move takes a manager from one lifecycle to the next: `Steady` holds of each.  From this
and from the few moves that change what a manager owns, the invariants of `Ownership`
follow for chains of moves.  So does the property of the commands on the agenda.
-/
import ArrayLifetimes.Proofs.World.Move

namespace ArrayLifetimes

namespace World

variable {P : List Command → Prop}

/-! ### Moves are steady -/

theorem steady_of_eq {w v : World} (hm : v.managers = w.managers) (ha : v.arrays = w.arrays)
    (hh : v.hooks = w.hooks) (ht : w.threads ≤ v.threads) : w.Steady v where
  has x hx := by
    cases x <;> simpa only [Has, hm, ha, hh] using hx
  lifecycle m := by
    simp only [lifecycle?, manager?, hm]
    exact Or.inl trivial
  released x hx := by
    cases x <;> simpa only [isReleased, manager?, array?, hook?, hm, ha, hh] using hx
  threads := ht

theorem steady_note (w : World) (e : Event) : w.Steady (w.note e) :=
  steady_of_eq rfl rfl rfl (Nat.le_refl _)

theorem Heard.steady {w v : World} {caller : Caller} {c : EngineCall} (h : w.Heard caller c v) :
    w.Steady v :=
  steady_of_eq h.managers h.arrays h.hooks (Nat.le_of_eq h.threads.symm)

theorem lifecycle?_modifyManager (w : World) (m : ManagerId) {f : Manager → Manager}
    (hf : ∀ r, (f r).lifecycle = r.lifecycle) (n : ManagerId) :
    (w.modifyManager m f).lifecycle? n = w.lifecycle? n := by
  simp only [lifecycle?, manager?_modifyManager]
  split
  · simp [Option.map_map, Function.comp_def, hf]
  · rfl

theorem steady_modifyManager (w : World) (m : ManagerId) {f : Manager → Manager}
    (hf : ∀ r, (f r).lifecycle = r.lifecycle) : w.Steady (w.modifyManager m f) where
  has x hx := by
    cases x with
    | manager n => simpa only [Has, modifyManager, Array.size_modify] using hx
    | array a => exact hx
    | hook h => exact hx
  lifecycle n := Or.inl (lifecycle?_modifyManager w m hf n)
  released x hx := by
    cases x with
    | manager n =>
        rw [isReleased_manager] at hx ⊢
        rwa [lifecycle?_modifyManager w m hf]
    | array a => exact hx
    | hook h => exact hx
  threads := Nat.le_refl _

theorem manager?_addManager (w : World) (r : Manager) (n : ManagerId) :
    (w.addManager r).1.manager? n =
      if n.index = w.managers.size then some r else w.manager? n := by
  simp only [manager?, addManager, Array.getElem?_push]

theorem steady_addManager (w : World) {r : Manager} (hr : r.lifecycle = .opened) :
    w.Steady (w.addManager r).1 where
  has x hx := by
    cases x with
    | manager n =>
        simp only [Has, addManager, Array.size_push] at hx ⊢
        exact Nat.lt_succ_of_lt hx
    | array a => exact hx
    | hook h => exact hx
  lifecycle n := by
    simp only [lifecycle?, manager?_addManager]
    split
    · rename_i hn
      refine Or.inr ⟨?_, by simp [hr]⟩
      simp [manager?, hn]
    · exact Or.inl rfl
  released x hx := by
    cases x with
    | manager n =>
        rw [isReleased_manager] at hx ⊢
        have hn : n.index ≠ w.managers.size := by
          intro hc
          simp [lifecycle?, manager?, hc] at hx
        simpa only [lifecycle?, manager?_addManager, if_neg hn] using hx
    | array a => exact hx
    | hook h => exact hx
  threads := Nat.le_refl _

theorem steady_newBase (w : World) (d : Device) : w.Steady (w.newBase d).1 :=
  (steady_addManager w (r := { device := d, owner := .registry }) rfl).trans
    (steady_of_eq rfl rfl rfl (Nat.le_refl _))

/-- What making a child does. -/
theorem newSub_eq_ok {w v : World} {p c : ManagerId} {d : Option Device}
    (h : w.newSub p d = .ok (v, c)) :
    ∃ r, w.openManager p = .ok r ∧ c = ⟨w.managers.size⟩ ∧
      v = (((w.addManager { device := d.getD r.device, owner := .parent p }).1.modifyManager p
        fun r => { r with children := r.children ++ [c] }).note
          (.subCreated p c (d.getD r.device))) := by
  simp only [newSub, bind_eq_ok, pure, Except.pure, Except.ok.injEq, Prod.mk.injEq] at h
  obtain ⟨r, hr, rfl, rfl⟩ := h
  exact ⟨r, hr, rfl, rfl⟩

theorem steady_newSub {w v : World} {p c : ManagerId} {d : Option Device}
    (h : w.newSub p d = .ok (v, c)) : w.Steady v := by
  obtain ⟨r, -, -, rfl⟩ := newSub_eq_ok h
  refine Steady.trans (steady_addManager w rfl) (Steady.trans (steady_modifyManager _ p ?_)
    (steady_note _ _))
  intro r
  rfl

/-- What attaching does. -/
theorem attach_eq_ok {w v : World} {m : ManagerId} {key : Label} {x : Resource}
    {old : Option Resource} (h : w.attach m key x = .ok (v, old)) :
    ∃ r u, w.openManager m = .ok r ∧ old = r.resources.get? key ∧
      (u = w ∨ u = w.note (.keyTakenOver m key)) ∧
      v = u.modifyManager m fun r => { r with resources := r.resources.insert key x } := by
  simp only [attach, bind_eq_ok, pure, Except.pure] at h
  obtain ⟨r, hr, h⟩ := h
  split at h
  · cases h
  · simp only [Except.ok.injEq, Prod.mk.injEq] at h
    obtain ⟨rfl, rfl⟩ := h
    refine ⟨r, _, hr, rfl, ?_, rfl⟩
    split
    · exact Or.inr rfl
    · exact Or.inl rfl

theorem steady_attach {w v : World} {m : ManagerId} {key : Label} {x : Resource}
    {old : Option Resource} (h : w.attach m key x = .ok (v, old)) : w.Steady v := by
  obtain ⟨r, u, -, -, hu, rfl⟩ := attach_eq_ok h
  have hw : w.Steady u := by
    rcases hu with rfl | rfl
    · exact .refl _
    · exact steady_note _ _
  refine hw.trans (steady_modifyManager u m ?_)
  intro r
  rfl

/-- Detaching does nothing, or it takes one resource away from an open manager. -/
theorem detach_cases (w : World) (m : ManagerId) (key : Label) :
    w.detach m key = (w, none) ∨
    ∃ r x, w.openManager m = .ok r ∧ r.resources.get? key = some x ∧
      w.detach m key = ((w.modifyManager m fun r =>
        { r with resources := r.resources.erase key }).note (.detached m key), some x) := by
  unfold detach
  split
  · exact Or.inl rfl
  · rename_i r hr
    split
    · exact Or.inl rfl
    · rename_i x hx
      exact Or.inr ⟨r, x, hr, hx, rfl⟩

theorem steady_detach (w : World) (m : ManagerId) (key : Label) :
    w.Steady (w.detach m key).1 := by
  rcases detach_cases w m key with h | ⟨r, x, -, -, h⟩ <;> rw [h]
  · exact .refl w
  · refine Steady.trans (steady_modifyManager w m ?_) (steady_note _ _)
    intro r
    rfl

theorem detachSub_cases (w : World) (m c : ManagerId) :
    w.detachSub m c = (w, none) ∨
    ∃ r, w.openManager m = .ok r ∧ c ∈ r.children ∧
      w.detachSub m c =
        (w.modifyManager m fun r => { r with children := r.children.erase c }, some c) := by
  unfold detachSub
  split
  · exact Or.inl rfl
  · rename_i r hr
    split
    · rename_i hc
      exact Or.inr ⟨r, hr, hc, rfl⟩
    · exact Or.inl rfl

theorem steady_detachSub (w : World) (m c : ManagerId) : w.Steady (w.detachSub m c).1 := by
  rcases detachSub_cases w m c with h | ⟨r, -, -, h⟩ <;> rw [h]
  · exact .refl w
  · refine steady_modifyManager w m ?_
    intro r
    rfl

theorem array?_markReleased (w : World) (a b : ArrayId) :
    (w.markReleased a).array? b =
      if a = b then (w.array? b).map fun r => { r with mark := r.mark.begin.1 }
      else w.array? b := by
  simp only [array?, markReleased, Array.getElem?_modify]
  have hab : a.index = b.index ↔ a = b := by
    cases a
    cases b
    simp
  simp [hab]

theorem steady_markReleased (w : World) (a : ArrayId) : w.Steady (w.markReleased a) where
  has x hx := by
    cases x with
    | array b => simpa only [Has, markReleased, Array.size_modify] using hx
    | manager n => exact hx
    | hook h => exact hx
  lifecycle n := Or.inl rfl
  released x hx := by
    cases x with
    | array b =>
        simp only [isReleased, array?_markReleased, Option.any_eq_true] at hx ⊢
        obtain ⟨r, hr, hrel⟩ := hx
        split
        · exact ⟨_, by rw [hr]; rfl, rfl⟩
        · exact ⟨r, hr, hrel⟩
    | manager n => exact hx
    | hook h => exact hx
  threads := Nat.le_refl _

/-- Releasing an array does nothing the second time; the first time it sets the mark, and the
managers ask the engine. -/
theorem releaseArray_cases (w : World) (a : ArrayId) :
    ((w.releaseArray a).1 = w ∧ (w.releaseArray a).2 = .ok ∧
      ∀ r, w.array? a = some r → r.released = true) ∨
    ∃ r, w.array? a = some r ∧ r.released = false ∧
      (((w.markReleased a).note (.releasingArray a r.handle)).Heard .managers
        (.release r.handle) (w.releaseArray a).1) := by
  unfold releaseArray
  cases ha : w.array? a with
  | none => simp
  | some r =>
      cases hm : r.mark.isSet with
      | true =>
          simp only [ReleaseMark.begin, hm, Bool.not_true, Bool.false_eq_true, if_false]
          refine Or.inl ⟨trivial, trivial, ?_⟩
          rintro q ⟨⟩
          exact hm
      | false =>
          simp only [ReleaseMark.begin, hm, Bool.not_false, if_true]
          exact Or.inr ⟨r, rfl, hm, heard_callRelease r.handle⟩

/-- An array that is asked to release itself is released then, if it exists. -/
theorem released_releaseArray (w : World) (a : ArrayId) :
    (w.releaseArray a).1.isReleased (.array a) = true ∨ ¬ w.Has (.array a) := by
  rcases releaseArray_cases w a with ⟨hv, -, hr⟩ | ⟨r, ha, -, hv⟩
  · rw [hv]
    by_cases hx : w.Has (.array a)
    · obtain ⟨r, ha⟩ := exists_of_has_array hx
      refine Or.inl ?_
      simp only [isReleased, ha, Option.any_some]
      exact hr r ha
    · exact Or.inr hx
  · have harray : (w.releaseArray a).1.array? a = (w.markReleased a).array? a := by
      simp only [array?, hv.arrays]
      rfl
    refine Or.inl ?_
    simp only [isReleased, harray, array?_markReleased, if_true, ha]
    rfl

theorem steady_releaseArray (w : World) (a : ArrayId) : w.Steady (w.releaseArray a).1 := by
  rcases releaseArray_cases w a with ⟨h, -, -⟩ | ⟨r, -, -, h⟩
  · rw [h]
    exact .refl w
  · exact (steady_markReleased w a).trans ((steady_note _ _).trans h.steady)

theorem array?_adopt (w : World) (n : NativeArray) (b : ArrayId) :
    (w.adopt n).1.array? b =
      if b.index = w.arrays.size then some ⟨n.handle, n.shape, n.dataType, n.device, {}⟩
      else w.array? b := by
  simp only [array?, adopt, addArray, Array.getElem?_push]

theorem steady_adopt (w : World) (n : NativeArray) : w.Steady (w.adopt n).1 where
  has x hx := by
    cases x with
    | array b =>
        simp only [Has, adopt, addArray, Array.size_push] at hx ⊢
        exact Nat.lt_succ_of_lt hx
    | manager n => exact hx
    | hook h => exact hx
  lifecycle n := Or.inl rfl
  released x hx := by
    cases x with
    | array b =>
        have hb : b.index ≠ w.arrays.size := by
          intro hc
          simp [isReleased, array?, hc] at hx
        simpa only [isReleased, array?_adopt, if_neg hb] using hx
    | manager n => exact hx
    | hook h => exact hx
  threads := Nat.le_refl _

theorem has_adopt (w : World) (n : NativeArray) : (w.adopt n).1.Has (.array (w.adopt n).2) := by
  simp [Has, adopt, addArray]

theorem hook?_takeHook (w : World) (h g : HookId) :
    (w.takeHook h).hook? g =
      if h = g then (w.hook? g).map fun r => { r with work := none } else w.hook? g := by
  simp only [hook?, takeHook, Array.getElem?_modify]
  have hhg : h.index = g.index ↔ h = g := by
    cases h
    cases g
    simp
  simp [hhg]

/-- A release hook without work is released, if it exists. -/
theorem released_of_no_work {w : World} {h : HookId}
    (hw : ∀ label work, w.hook? h ≠ some ⟨label, some work⟩) :
    w.isReleased (.hook h) = true ∨ ¬ w.Has (.hook h) := by
  by_cases hx : w.Has (.hook h)
  · obtain ⟨⟨label, work⟩, hr⟩ := exists_of_has_hook hx
    refine Or.inl ?_
    cases work with
    | some work => exact absurd hr (hw label work)
    | none => simp [isReleased, hr]
  · exact Or.inr hx

theorem steady_takeHook (w : World) (h : HookId) : w.Steady (w.takeHook h) where
  has x hx := by
    cases x with
    | hook g => simpa only [Has, takeHook, Array.size_modify] using hx
    | manager n => exact hx
    | array a => exact hx
  lifecycle n := Or.inl rfl
  released x hx := by
    cases x with
    | hook g =>
        simp only [isReleased, hook?_takeHook, Option.any_eq_true] at hx ⊢
        obtain ⟨r, hr, hrel⟩ := hx
        split
        · exact ⟨_, by rw [hr]; rfl, rfl⟩
        · exact ⟨r, hr, hrel⟩
    | manager n => exact hx
    | array a => exact hx
  threads := Nat.le_refl _

theorem hook?_addHook (w : World) (r : Hook) (g : HookId) :
    (w.addHook r).1.hook? g = if g.index = w.hooks.size then some r else w.hook? g := by
  simp only [hook?, addHook, Array.getElem?_push]

theorem steady_addHook (w : World) (r : Hook) : w.Steady (w.addHook r).1 where
  has x hx := by
    cases x with
    | hook g =>
        simp only [Has, addHook, Array.size_push] at hx ⊢
        exact Nat.lt_succ_of_lt hx
    | manager n => exact hx
    | array a => exact hx
  lifecycle n := Or.inl rfl
  released x hx := by
    cases x with
    | hook g =>
        have hg : g.index ≠ w.hooks.size := by
          intro hc
          simp [isReleased, hook?, hc] at hx
        simpa only [isReleased, hook?_addHook, if_neg hg] using hx
    | manager n => exact hx
    | array a => exact hx
  threads := Nat.le_refl _

theorem steady_hold (w : World) (m : ManagerId) (a : ArrayId) :
    w.Steady (w.modifyManager m fun r =>
      { r with resources := r.resources.insert (.array a) (.array a) }) := by
  refine steady_modifyManager w m ?_
  intro r
  rfl

/-- No move takes a manager that exists from one lifecycle to the next. -/
theorem Move.steady {p q : World × List NativeArray} (h : Move P p q) : p.1.Steady q.1 := by
  cases h with
  | noted | named | rooted | armed => exact steady_of_eq rfl rfl rfl (Nat.le_refl _)
  | thread => exact steady_of_eq rfl rfl rfl (Nat.le_succ _)
  | base w ns d => exact steady_newBase w d
  | sub w v ns p d c h => exact steady_newSub h
  | attach w v ns m key x old hx h => exact steady_attach h
  | detach w ns m key => exact steady_detach w m key
  | detachSub w ns m c => exact steady_detachSub w m c
  | hook w ns label work h => exact steady_addHook w _
  | spent w ns h => exact steady_takeHook w h
  | releaseArray w ns a => exact steady_releaseArray w a
  | release w ns x => exact (heard_callRelease x).steady
  | read w ns caller x h => exact (heard_callRead x).steady
  | create w v ns caller r n h =>
      have hh := heard_of_callCreate h
      exact hh.steady
  | notCreated w v ns caller r f h =>
      have hh := heard_of_callCreate h
      exact hh.steady
  | invoke w v ns caller operation inputs ps made hx h =>
      have hh := heard_of_callInvoke h
      exact hh.steady
  | notInvoked w v ns caller operation inputs ps f hx h =>
      have hh := heard_of_callInvoke h
      exact hh.steady
  | invokeInto w ns caller operation inputs outputs ps hx =>
      exact (heard_callInvokeInto operation inputs outputs ps).steady
  | adopt w n ns => exact steady_adopt w n
  | hold w ns m r a h ha => exact steady_hold w m a
  | lost => exact .refl _

theorem Moves.steady {p q : World × List NativeArray} (h : Moves P p q) : p.1.Steady q.1 := by
  induction h with
  | refl => exact .refl _
  | tail _ hm ih => exact ih.trans hm.steady

/-! ### What is owned exists -/

theorem WellOwned.of_steady {w v : World} (h : w.WellOwned) (hs : w.Steady v)
    (hm : v.managers = w.managers) (hc : v.client = w.client) : v.WellOwned where
  owned m r hr x hx := by
    simp only [manager?, hm] at hr
    exact hs.has x (h.owned m r hr x hx)
  given m r hr := by
    simp only [manager?, hm] at hr
    exact h.given m r hr
  client := hc ▸ h.client.mono hs.has
  threads := Nat.lt_of_lt_of_le h.threads hs.threads

theorem WellOwned.heard {w v : World} {caller : Caller} {c : EngineCall} (h : w.WellOwned)
    (hv : w.Heard caller c v) : v.WellOwned := h.of_steady hv.steady hv.managers hv.client

theorem WellOwned.note {w : World} (h : w.WellOwned) (e : Event) : (w.note e).WellOwned :=
  h.of_steady (steady_note w e) rfl rfl

/-- An open manager may own anything that exists. -/
theorem WellOwned.modifyManager {w : World} (h : w.WellOwned) {m : ManagerId} {r : Manager}
    (hm : w.openManager m = .ok r) {f : Manager → Manager}
    (hl : ∀ r, (f r).lifecycle = r.lifecycle) (hf : ∀ x ∈ (f r).owned, w.Has x) :
    (w.modifyManager m f).WellOwned := by
  obtain ⟨hr, ho⟩ := openManager_eq_ok.mp hm
  have hs := steady_modifyManager w m hl
  refine ⟨?_, ?_, h.client.mono hs.has, h.threads⟩
  · intro n q hq x hx
    rw [manager?_modifyManager] at hq
    split at hq
    · rename_i hmn
      subst hmn
      rw [hr, Option.map_some, Option.some.injEq] at hq
      subst hq
      exact hs.has x (hf x hx)
    · exact hs.has x (h.owned n q hq x hx)
  · intro n q hq hne
    rw [manager?_modifyManager] at hq
    split at hq
    · rename_i hmn
      subst hmn
      rw [hr, Option.map_some, Option.some.injEq] at hq
      subst hq
      exact absurd ((hl r).trans ho) hne
    · exact h.given n q hq hne

theorem WellOwned.addManager {w : World} (h : w.WellOwned) {r : Manager}
    (hl : r.lifecycle = .opened) (ho : r.owned = []) : (w.addManager r).1.WellOwned := by
  have hs := steady_addManager w hl
  refine ⟨?_, ?_, h.client.mono hs.has, h.threads⟩
  · intro n q hq x hx
    rw [manager?_addManager] at hq
    split at hq
    · cases hq
      simp [ho] at hx
    · exact hs.has x (h.owned n q hq x hx)
  · intro n q hq hne
    rw [manager?_addManager] at hq
    split at hq
    · cases hq
      exact absurd hl hne
    · exact h.given n q hq hne

theorem WellOwned.newSub {w v : World} {p c : ManagerId} {d : Option Device} (h : w.WellOwned)
    (hv : w.newSub p d = .ok (v, c)) : v.WellOwned := by
  obtain ⟨r, hr, rfl, rfl⟩ := newSub_eq_ok hv
  obtain ⟨hp, ho⟩ := openManager_eq_ok.mp hr
  refine WellOwned.note (WellOwned.modifyManager (r := r) (h.addManager rfl rfl) ?_ ?_ ?_) _
  · rw [openManager_eq_ok, manager?_addManager]
    have hne : p.index ≠ w.managers.size := Nat.ne_of_lt (has_manager_of hp)
    rw [if_neg hne]
    exact ⟨hp, ho⟩
  · intro r
    rfl
  · intro x hx
    simp only [Manager.owned, List.map_append, List.map_cons, List.map_nil, List.mem_append,
      List.mem_singleton] at hx
    rcases hx with (hx | rfl) | hx
    · exact (steady_addManager w rfl).has x (h.owned p r hp x (List.mem_append_left _ hx))
    · show w.managers.size < (w.managers.push _).size
      simp
    · exact (steady_addManager w rfl).has x (h.owned p r hp x (List.mem_append_right _ hx))

theorem WellOwned.insert {w : World} (h : w.WellOwned) {m : ManagerId} {r : Manager}
    (hm : w.openManager m = .ok r) (key : Label) {x : Resource} (hx : w.Has x) :
    (w.modifyManager m fun r => { r with resources := r.resources.insert key x }).WellOwned := by
  obtain ⟨hr, -⟩ := openManager_eq_ok.mp hm
  refine h.modifyManager hm (fun _ => rfl) ?_
  intro y hy
  simp only [Manager.owned, List.mem_append] at hy
  rcases hy with hy | hy
  · exact h.owned m r hr y (List.mem_append_left _ hy)
  · rcases Keyed.mem_values_insert hy with rfl | hy
    · exact hx
    · exact h.owned m r hr y (List.mem_append_right _ hy)

theorem WellOwned.attach {w v : World} {m : ManagerId} {key : Label} {x : Resource}
    {old : Option Resource} (h : w.WellOwned) (hx : w.Has x)
    (hv : w.attach m key x = .ok (v, old)) : v.WellOwned := by
  obtain ⟨r, u, hr, -, hu, rfl⟩ := attach_eq_ok hv
  rcases hu with rfl | rfl
  · exact h.insert hr key hx
  · exact (h.note _).insert hr key hx

theorem WellOwned.detach {w : World} (h : w.WellOwned) (m : ManagerId) (key : Label) :
    (w.detach m key).1.WellOwned := by
  rcases detach_cases w m key with hd | ⟨r, x, hr, -, hd⟩ <;> rw [hd]
  · exact h
  · refine WellOwned.note (e := .detached m key) (h.modifyManager hr (f := fun r =>
      { r with resources := r.resources.erase key }) (fun _ => rfl) ?_)
    intro y hy
    obtain ⟨hm, -⟩ := openManager_eq_ok.mp hr
    simp only [Manager.owned, List.mem_append] at hy
    rcases hy with hy | hy
    · exact h.owned m r hm y (List.mem_append_left _ hy)
    · exact h.owned m r hm y (List.mem_append_right _ (Keyed.mem_values_erase hy))

theorem WellOwned.detachSub {w : World} (h : w.WellOwned) (m c : ManagerId) :
    (w.detachSub m c).1.WellOwned := by
  rcases detachSub_cases w m c with hd | ⟨r, hr, -, hd⟩ <;> rw [hd]
  · exact h
  · refine h.modifyManager hr (fun _ => rfl) ?_
    intro y hy
    obtain ⟨hm, -⟩ := openManager_eq_ok.mp hr
    simp only [Manager.owned, List.mem_append, List.mem_map] at hy
    rcases hy with ⟨n, hn, rfl⟩ | hy
    · exact h.owned m r hm _
        (List.mem_append_left _ (List.mem_map_of_mem (List.mem_of_mem_erase hn)))
    · exact h.owned m r hm y (List.mem_append_right _ hy)

theorem WellOwned.releaseArray {w : World} (h : w.WellOwned) (a : ArrayId) :
    (w.releaseArray a).1.WellOwned := by
  rcases releaseArray_cases w a with ⟨hr, -, -⟩ | ⟨r, -, -, hr⟩
  · rw [hr]
    exact h
  · exact ((h.of_steady (steady_markReleased w a) rfl rfl).note _).heard hr

/-- Moves keep what is owned. -/
theorem Move.wellOwned {p q : World × List NativeArray} (h : Move P p q) (hp : p.1.WellOwned) :
    q.1.WellOwned := by
  have hs := h.steady
  cases h with
  | noted | rooted | thread | hook | spent | armed | adopt | lost =>
      exact hp.of_steady hs rfl rfl
  | named w ns c h =>
      exact ⟨hp.owned, hp.given, h.mono fun _ => id, hp.threads⟩
  | base w ns d =>
      exact (hp.addManager (r := { device := d, owner := .registry }) rfl rfl).of_steady
        (steady_of_eq rfl rfl rfl (Nat.le_refl _)) rfl rfl
  | sub w v ns p d c h => exact hp.newSub h
  | attach w v ns m key x old hx h => exact hp.attach hx h
  | detach w ns m key => exact hp.detach m key
  | detachSub w ns m c => exact hp.detachSub m c
  | releaseArray w ns a => exact hp.releaseArray a
  | release w ns x => exact hp.heard (heard_callRelease x)
  | read w ns caller x h => exact hp.heard (heard_callRead x)
  | create w v ns caller r n h =>
      have hh := heard_of_callCreate h
      exact hp.heard hh
  | notCreated w v ns caller r f h =>
      have hh := heard_of_callCreate h
      exact hp.heard hh
  | invoke w v ns caller operation inputs ps made hx h =>
      have hh := heard_of_callInvoke h
      exact hp.heard hh
  | notInvoked w v ns caller operation inputs ps f hx h =>
      have hh := heard_of_callInvoke h
      exact hp.heard hh
  | invokeInto w ns caller operation inputs outputs ps hx =>
      exact hp.heard (heard_callInvokeInto operation inputs outputs ps)
  | hold w ns m r a h ha => exact hp.insert h (.array a) ha

theorem Moves.wellOwned {p q : World × List NativeArray} (h : Moves P p q) (hp : p.1.WellOwned) :
    q.1.WellOwned := by
  induction h with
  | refl => exact hp
  | tail _ hm ih => exact hm.wellOwned ih

/-! ### The agenda -/

/-- What release hooks and the engine have yet to run has a property. -/
structure Agreed (P : List Command → Prop) (w : World) : Prop where
  hooks : ∀ h r work, w.hook? h = some r → r.work = some work → P work.commands
  afterCreate : ∀ c, w.engine.afterCreate = some c → P c.commands
  afterInvoke : ∀ c, w.engine.afterInvoke = some c → P c.commands

theorem agreed_iff {w : World} : w.Agreed P ↔
    (∀ r ∈ w.hooks.toList, ∀ work ∈ r.work, P work.commands) ∧
    (∀ c ∈ w.engine.afterCreate, P c.commands) ∧ ∀ c ∈ w.engine.afterInvoke, P c.commands := by
  constructor
  · intro h
    refine ⟨?_, h.afterCreate, h.afterInvoke⟩
    intro r hr work hwork
    obtain ⟨g, hg, rfl⟩ := List.mem_iff_getElem.mp hr
    refine h.hooks ⟨g⟩ _ work ?_ hwork
    simp only [hook?, Array.getElem_toList, Array.getElem?_eq_getElem (by simpa using hg)]
  · rintro ⟨hh, hc, hi⟩
    refine ⟨?_, hc, hi⟩
    intro g r work hr hwork
    exact hh r (Array.mem_toList_iff.mpr (Array.mem_of_getElem? hr)) work hwork

instance [DecidablePred P] (w : World) : Decidable (w.Agreed P) :=
  decidable_of_iff _ agreed_iff.symm

theorem Agreed.of_agenda {w v : World} (h : w.Agreed P) (ha : v.agenda = w.agenda) :
    v.Agreed P := by
  simp only [agenda, Agenda.mk.injEq] at ha
  obtain ⟨hh, hc, hi⟩ := ha
  refine ⟨?_, hc ▸ h.afterCreate, hi ▸ h.afterInvoke⟩
  intro g r work hr
  simp only [hook?, hh] at hr
  exact h.hooks g r work hr

theorem Heard.agenda {w v : World} {caller : Caller} {c : EngineCall} (h : w.Heard caller c v) :
    v.agenda = w.agenda := by
  simp [World.agenda, h.hooks, h.afterCreate, h.afterInvoke]

/-- Moves keep the property of what there is to run. -/
theorem Move.agreed {p q : World × List NativeArray} (h : Move P p q) (hp : p.1.Agreed P) :
    q.1.Agreed P := by
  cases h with
  | noted | named | rooted | thread | base | adopt | hold | lost => exact hp.of_agenda rfl
  | sub w v ns p d c h => exact hp.of_agenda (agenda_newSub h)
  | attach w v ns m key x old hx h => exact hp.of_agenda (agenda_attach h)
  | detach w ns m key => exact hp.of_agenda (agenda_detach w m key)
  | detachSub w ns m c => exact hp.of_agenda (agenda_detachSub w m c)
  | hook w ns label work hw =>
      refine ⟨?_, hp.afterCreate, hp.afterInvoke⟩
      intro g r work' hr hwork
      rw [hook?_addHook] at hr
      split at hr
      · cases hr
        cases hwork
        exact hw
      · exact hp.hooks g r work' hr hwork
  | spent w ns h =>
      refine ⟨?_, hp.afterCreate, hp.afterInvoke⟩
      intro g r work hr hwork
      rw [hook?_takeHook] at hr
      split at hr
      · obtain ⟨q, -, rfl⟩ := Option.map_eq_some_iff.mp hr
        cases hwork
      · exact hp.hooks g r work hr hwork
  | armed w ns e hk hh hc hac hai =>
      refine ⟨hp.hooks, ?_, ?_⟩
      · intro c hec
        exact (hac c hec).elim (hp.afterCreate c) id
      · intro c hec
        exact (hai c hec).elim (hp.afterInvoke c) id
  | releaseArray w ns a => exact hp.of_agenda (agenda_releaseArray w a)
  | release w ns x => exact hp.of_agenda (agenda_callRelease w .client x)
  | read w ns caller x h => exact hp.of_agenda (heard_callRead x).agenda
  | create w v ns caller r n h =>
      have hh := heard_of_callCreate h
      exact hp.of_agenda hh.agenda
  | notCreated w v ns caller r f h =>
      have hh := heard_of_callCreate h
      exact hp.of_agenda hh.agenda
  | invoke w v ns caller operation inputs ps made hx h =>
      have hh := heard_of_callInvoke h
      exact hp.of_agenda hh.agenda
  | notInvoked w v ns caller operation inputs ps f hx h =>
      have hh := heard_of_callInvoke h
      exact hp.of_agenda hh.agenda
  | invokeInto w ns caller operation inputs outputs ps hx =>
      exact hp.of_agenda (heard_callInvokeInto operation inputs outputs ps).agenda

theorem Moves.agreed {p q : World × List NativeArray} (h : Moves P p q) (hp : p.1.Agreed P) :
    q.1.Agreed P := by
  induction h with
  | refl => exact hp
  | tail _ hm ih => exact hm.agreed ih

end World

end ArrayLifetimes
