/-
The arrays of managers against the buffers of the host engine.

`Tallied` says that the buffers in the engine are those of the arrays that are not released,
and of arrays that it has made just now and that no manager has adopted yet.  As long as the
managers do all the calls, nothing that happens to a world puts it out of order: the release
of an array that is not released never fails, and marks the array and frees its buffer.
-/
import ArrayLifetimes.Machine.Decrease
import ArrayLifetimes.Proofs.Engine.Inventory
import ArrayLifetimes.Proofs.World.Minding

namespace ArrayLifetimes

/-- The array as the engine has made it. -/
def ArrayRecord.native (r : ArrayRecord) : NativeArray := ⟨r.handle, r.shape, r.dataType, r.device⟩

/-- An element that a change takes out of those with a property. -/
theorem perm_filter_modify {α : Type} {p : α → Bool} {f : α → α} {l : List α} {i : Nat} {a : α}
    (h : l[i]? = some a) (ha : p a = true) (hf : p (f a) = false) :
    (l.filter p).Perm (a :: (l.modify i f).filter p) := by
  induction l generalizing i with
  | nil => cases h
  | cons b l ih =>
      cases i with
      | zero =>
          obtain rfl : b = a := Option.some.inj h
          simp [ha, hf]
      | succ i =>
          rw [List.modify_succ_cons, List.filter_cons, List.filter_cons]
          split
          · exact ((ih h).cons b).trans (.swap ..)
          · exact ih h

namespace World

variable {w v u : World} {ns : List NativeArray} {n : NativeArray} {a : ArrayId} {m : ManagerId}
  {gone : ArrayId → Prop}

/-! ### Arrays that are not released -/

/-- The arrays that are not released, as the engine has made them. -/
def stock (w : World) : List NativeArray :=
  (w.arrays.toList.filter fun r => !r.released).map ArrayRecord.native

theorem mem_stock : n ∈ w.stock ↔
    ∃ a r, w.array? a = some r ∧ r.released = false ∧ r.native = n := by
  simp only [stock, List.mem_map, List.mem_filter, Bool.not_eq_true', Array.mem_toList_iff,
    Array.mem_iff_getElem?, array?]
  constructor
  · rintro ⟨r, ⟨⟨i, hi⟩, hr⟩, hn⟩
    exact ⟨⟨i⟩, r, hi, hr, hn⟩
  · rintro ⟨a, r, hi, hr, hn⟩
    exact ⟨r, ⟨⟨a.index, hi⟩, hr⟩, hn⟩

theorem live_iff_mem_stock {x : Handle} : w.Live x ↔ x ∈ w.stock.map NativeArray.handle := by
  rw [List.mem_map]
  constructor
  · rintro ⟨a, r, hr, hx, hrel⟩
    exact ⟨r.native, mem_stock.mpr ⟨a, r, hr, hrel, rfl⟩, hx⟩
  · rintro ⟨n, hn, hx⟩
    obtain ⟨a, r, hr, hrel, rfl⟩ := mem_stock.mp hn
    exact ⟨a, r, hr, hx, hrel⟩

theorem stock_adopt (w : World) (n : NativeArray) : (w.adopt n).1.stock = w.stock ++ [n] := by
  simp [stock, adopt, addArray, ArrayRecord.released, ArrayRecord.native]

theorem stock_markReleased {r : ArrayRecord} (ha : w.array? a = some r)
    (hr : r.released = false) : w.stock.Perm (r.native :: (w.markReleased a).stock) := by
  have hi : w.arrays.toList[a.index]? = some r := by
    rw [Array.getElem?_toList]
    exact ha
  have hperm := perm_filter_modify (p := fun r => !r.released)
    (f := fun r => { r with mark := r.mark.begin.1 }) hi (by simp [hr]) rfl
  simpa only [stock, markReleased, Array.toList_modify, List.map_cons] using
    hperm.map ArrayRecord.native

/-! ### The tally -/

/-- The buffers of the engine are those of the arrays that are not released, and of arrays that
no manager has adopted yet. -/
structure Tallied (w : World) (ns : List NativeArray) : Prop where
  kind : w.engine.kind = .host
  stores : w.engine.host.Stores (ns ++ w.stock)
  /-- What is used as a key is the identity of an array that has been made. -/
  keys : ∀ a, w.IsKey a → w.Has (.array a)

theorem Tallied.still (ht : w.Tallied ns) (h : w.Still v) : v.Tallied ns := by
  refine ⟨h.kind.trans ht.kind, ?_, ?_⟩
  · have hs : v.stock = w.stock := by
      simp only [stock, h.arrays]
    rw [h.host, hs]
    exact ht.stores
  · intro a ha
    simp only [Has, h.arrays]
    exact ht.keys a (h.keys a ha)

/-- The world is tallied and has minded its arrays. -/
structure Carries (w : World) (gone : ArrayId → Prop) (v : World) : Prop where
  tallied : v.Tallied []
  minds : w.Minds v gone

theorem Carries.trans (h : w.Carries gone v) (h' : v.Carries gone u) :
    w.Carries gone u := ⟨h'.tallied, h.minds.trans h'.minds⟩

theorem Still.carries (h : w.Still v) (ht : w.Tallied []) :
    w.Carries gone v := ⟨ht.still h, h.minds⟩

theorem Carries.after (h : v.Carries gone u) (hw : w.Minds v gone) :
    w.Carries gone u := ⟨h.tallied, hw.trans h.minds⟩

theorem Carries.still (h : w.Carries gone v) (hu : v.Still u) :
    w.Carries gone u := h.trans (hu.carries h.tallied)

/-! ### Calls to the engine -/

theorem Tallied.callCreate (ht : w.Tallied ns) {caller : Caller} {r : AllocationRequest}
    {answer : Except EngineFault NativeArray} (h : w.callCreate caller r = (v, answer)) :
    v.Tallied (answer.toOption.toList ++ ns) := by
  have hk : (w.tell caller (.create r)).engine.kind = .host := ht.kind
  have hs : (w.tell caller (.create r)).engine.host.Stores (ns ++ w.stock) := ht.stores
  simp only [World.callCreate, Engine.create, hk, Engine.createHosted, Engine.dueError,
    Engine.isPlain, if_true] at h
  split at h
  · rename_i hc
    split at hc
    · rename_i host native hmade
      cases hc
      cases h
      exact ⟨rfl, hs.create hmade, fun a ha => ht.keys a (isKey_of_eq rfl ha)⟩
    · cases hc
  · rename_i hc
    split at hc
    · cases hc
    · cases hc
      cases h
      exact ht.still (.of_eq rfl rfl rfl rfl)

theorem Tallied.callInvoke (ht : w.Tallied ns) {caller : Caller} {operation : String}
    {inputs : List Handle} {ps : Params} {answer : Except EngineFault (List NativeArray)}
    (h : w.callInvoke caller operation inputs ps = (v, answer)) :
    v.Tallied (answer.toOption.getD [] ++ ns) := by
  have hk : (w.tell caller (.invoke operation inputs ps)).engine.kind = .host := ht.kind
  have hs : (w.tell caller (.invoke operation inputs ps)).engine.host.Stores (ns ++ w.stock) :=
    ht.stores
  simp only [World.callInvoke, Engine.invoke, hk, Engine.invokeHosted] at h
  split at h
  · rename_i hi
    simp only [mapError_eq_ok, bind_eq_ok, pure, Except.pure, Except.ok.injEq,
      Prod.mk.injEq] at hi
    obtain ⟨⟨host, n⟩, hmade, rfl, rfl⟩ := hi
    cases h
    exact ⟨rfl, hs.invoke hmade, fun a ha => ht.keys a (isKey_of_eq rfl ha)⟩
  · cases h
    exact ht.still (.of_eq rfl rfl rfl rfl)

theorem Tallied.callInvokeInto (ht : w.Tallied ns) (caller : Caller) (operation : String)
    (inputs outputs : List Handle) (ps : Params) :
    (w.callInvokeInto caller operation inputs outputs ps).1.Tallied ns := by
  have hk : (w.tell caller (.invokeInto operation inputs outputs ps)).engine.kind = .host := ht.kind
  have hs : (w.tell caller (.invokeInto operation inputs outputs ps)).engine.host.Stores
      (ns ++ w.stock) := ht.stores
  simp only [World.callInvokeInto, Engine.invokeInto, hk, Engine.invokeIntoHosted]
  split
  · rename_i hi
    simp only [mapError_eq_ok, bind_eq_ok, pure, Except.pure, Except.ok.injEq] at hi
    obtain ⟨host, hmade, rfl⟩ := hi
    exact ⟨rfl, hs.invokeInto hmade, fun a ha => ht.keys a (isKey_of_eq rfl ha)⟩
  · exact ht.still (.of_eq rfl rfl rfl rfl)

/-- The release of an array that the engine has never fails. -/
theorem Tallied.callRelease (ht : w.Tallied (n :: ns)) (caller : Caller) :
    ∃ v, w.callRelease caller n.handle = (v, .ok ()) ∧ v.Tallied ns := by
  have hk : (w.tell caller (.release n.handle)).engine.kind = .host := ht.kind
  have hs : (w.tell caller (.release n.handle)).engine.host.Stores (n :: (ns ++ w.stock)) :=
    ht.stores
  obtain ⟨host, hrelease, hstores⟩ := hs.release
  simp only [World.callRelease, Engine.release, hk, Engine.releaseHosted, Engine.duePanic,
    Engine.failsAt, Engine.isPlain, if_true, Bool.not_true, Bool.false_and, Bool.false_eq_true,
    if_false, hrelease]
  exact ⟨_, rfl, rfl, hstores, fun a ha => ht.keys a (isKey_of_eq rfl ha)⟩

/-- **Every array that is not released can be read**, and has as many bytes as it should. -/
theorem Tallied.arrayBytes (ht : w.Tallied []) {r : ArrayRecord} (ha : w.array? a = some r)
    (hr : r.released = false) : ∃ bytes, (w.arrayBytes a).2 = .ok bytes ∧
      r.shape.byteLen r.dataType = some bytes.length := by
  obtain ⟨bytes, hread, hlength⟩ := ht.stores.read (mem_stock.mpr ⟨a, r, ha, hr, rfl⟩)
  refine ⟨bytes, ?_, hlength⟩
  have hlive : w.liveArray a = .ok r := by
    simp only [liveArray, ha, hr, Bool.false_eq_true, if_false]
  have hk : (w.tell .managers (.read r.handle)).engine.kind = .host := ht.kind
  have hh : (w.tell .managers (.read r.handle)).engine.host.read r.handle = .ok bytes := hread
  simp only [World.arrayBytes, hlive, callRead, Engine.read, hk, hh]
  rfl

/-! ### Releasing arrays -/

theorem Tallied.markReleased (ht : w.Tallied ns) {r : ArrayRecord} (ha : w.array? a = some r)
    (hr : r.released = false) : (w.markReleased a).Tallied (r.native :: ns) := by
  refine ⟨ht.kind, ?_, ?_⟩
  · refine ht.stores.perm ?_
    exact (List.Perm.append_left ns (stock_markReleased ha hr)).trans List.perm_middle
  · intro b hb
    exact (steady_markReleased w a).has _ (ht.keys b (isKey_of_eq rfl hb))

/-- **The release of an array never fails.** -/
theorem Tallied.releaseArray (ht : w.Tallied ns) (a : ArrayId) :
    ∃ v, w.releaseArray a = (v, .ok) ∧ v.Tallied ns := by
  unfold World.releaseArray
  cases ha : w.array? a with
  | none => exact ⟨w, rfl, ht⟩
  | some r =>
      cases hm : r.mark.isSet with
      | true =>
          simp only [ReleaseMark.begin, hm, Bool.not_true, Bool.false_eq_true, if_false]
          exact ⟨w, rfl, ht⟩
      | false =>
          have hmarked := (ht.markReleased ha hm).still
            (still_note (w.markReleased a) (.releasingArray a r.handle))
          obtain ⟨v, hv, htv⟩ := hmarked.callRelease .managers
          replace hv : ((w.markReleased a).note (.releasingArray a r.handle)).callRelease .managers
            r.handle = (v, .ok ()) := hv
          simp only [ReleaseMark.begin, hm, Bool.not_false, if_true, hv]
          exact ⟨v, rfl, htv⟩

theorem unreleased_of_releaseArray {b : ArrayId} (h : (w.releaseArray a).1.Unreleased b) :
    w.Unreleased b := by
  obtain ⟨r, hr, hrel⟩ := h
  rcases releaseArray_cases w a with ⟨he, -, -⟩ | ⟨q, -, -, he⟩
  · rw [he] at hr
    exact ⟨r, hr, hrel⟩
  · have hmarked : (w.markReleased a).array? b = some r := by
      rw [← hr]
      simp only [array?, he.arrays]
      rfl
    rw [array?_markReleased] at hmarked
    split at hmarked
    · obtain ⟨p, -, rfl⟩ := Option.map_eq_some_iff.mp hmarked
      cases hrel
    · exact ⟨r, hmarked, hrel⟩

theorem Tallied.carries_releaseArray (ht : w.Tallied []) (a : ArrayId) :
    w.Carries gone (w.releaseArray a).1 := by
  obtain ⟨v, hv, htv⟩ := ht.releaseArray a
  refine ⟨hv ▸ htv, .of_managed (fun _ => unreleased_of_releaseArray) ?_⟩
  intro b hb
  exact Or.inl (managed_of_eq (managers_releaseArray w a) hb)

/-! ### New arrays -/

theorem Tallied.adopt (ht : w.Tallied (n :: ns)) : (w.adopt n).1.Tallied ns := by
  refine ⟨ht.kind, ?_, ?_⟩
  · refine ht.stores.perm ?_
    rw [stock_adopt, ← List.append_assoc]
    exact (List.perm_append_singleton n (ns ++ w.stock)).symm
  · intro b hb
    exact (steady_adopt w n).has _ (ht.keys b (isKey_of_eq rfl hb))

/-- An array that is not released is the new one, or was there. -/
theorem unreleased_adopt {b : ArrayId} (h : (w.adopt n).1.Unreleased b) :
    b = (w.adopt n).2 ∨ w.Unreleased b := by
  obtain ⟨r, hr, hrel⟩ := h
  rw [array?_adopt] at hr
  split at hr
  · rename_i hb
    exact Or.inl (congrArg ArrayId.mk hb)
  · exact Or.inr ⟨r, hr, hrel⟩

/-- A new array that is released at once. -/
theorem Tallied.adopt_releaseArray (ht : w.Tallied (n :: ns)) :
    ∃ v, (w.adopt n).1.releaseArray (w.adopt n).2 = (v, .ok) ∧ v.Tallied ns ∧ w.Minds v gone := by
  obtain ⟨v, hv, htv⟩ := ht.adopt.releaseArray (w.adopt n).2
  have hw : ((w.adopt n).1.releaseArray (w.adopt n).2).1 = v := congrArg Prod.fst hv
  refine ⟨v, hv, htv, .of_managed ?_ ?_⟩
  · intro b hb
    rw [← hw] at hb
    rcases unreleased_adopt (unreleased_of_releaseArray hb) with rfl | hold
    · rcases released_releaseArray (w.adopt n).1 (w.adopt n).2 with hr | hx
      · rw [hb.not_released] at hr
        cases hr
      · exact absurd (has_adopt w n) hx
    · exact hold
  · intro b hb
    exact Or.inl (managed_of_eq (hw ▸ managers_releaseArray _ _) hb)

/-- A new array is tracked by its manager, or released at once. -/
theorem Tallied.track (ht : w.Tallied (n :: ns)) (m : ManagerId) :
    (∀ p, (w.track m n).2 ≠ .error (.panic p)) ∧ (w.track m n).1.Tallied ns ∧
    w.Minds (w.track m n).1 gone := by
  cases hm : w.openManager m with
  | ok r =>
      rw [track_of_open hm]
      have hopen : (w.adopt n).1.openManager m = .ok r := hm
      have hl : ∀ q : Manager, (q.holding (w.adopt n).2).lifecycle = q.lifecycle := fun _ => rfl
      refine ⟨(fun p hp => by cases hp), ⟨ht.adopt.kind, ht.adopt.stores, ?_⟩, ?_⟩
      · rintro b ⟨k, q, x, hq, hx⟩
        replace hq : ((w.adopt n).1.modifyManager m
          fun r => r.holding (w.adopt n).2).manager? k = some q := hq
        rw [manager?_modifyManager] at hq
        split at hq
        · obtain ⟨p, hp, rfl⟩ := Option.map_eq_some_iff.mp hq
          rw [Manager.holding, Keyed.get?_insert] at hx
          split at hx
          · rename_i hb
            exact Label.array.inj hb ▸ has_adopt w n
          · exact ht.adopt.keys b ⟨k, p, x, hp, hx⟩
        · exact ht.adopt.keys b ⟨k, q, x, hq, hx⟩
      · intro b hb
        have hnew : ∀ k q, w.openManager k = .ok q →
            (((w.adopt n).1.modifyManager m fun r => r.holding (w.adopt n).2).note
              (.arrayAttached m (w.adopt n).2 n.shape)).openManager k =
              .ok (if m = k then q.holding (w.adopt n).2 else q) :=
          fun k q hq => openManager_modifyManager (w := (w.adopt n).1) hl hq
        rcases unreleased_adopt hb with rfl | hw
        · refine Or.inl ⟨m, _, .array (w.adopt n).2, hnew m r hm, ?_⟩
          rw [if_pos rfl, Manager.holding, Keyed.get?_insert, if_pos rfl]
        · by_cases hmanaged : w.Managed b
          · obtain ⟨k, q, key, hq, hkey⟩ := hmanaged
            refine Or.inl ⟨k, _, key, hnew k q hq, ?_⟩
            split
            · rw [Manager.holding, Keyed.get?_insert, if_neg ?_]
              · exact hkey
              · -- nothing was there under the identity of an array that is new
                rintro rfl
                have hx := ht.keys _ ⟨k, q, _, (openManager_eq_ok.mp hq).1, hkey⟩
                exact Nat.lt_irrefl _ hx
            · exact hkey
          · exact Or.inr (Or.inr ⟨hw, hmanaged⟩)
  | error e =>
      have hclosed : (w.adopt n).1.openManager m = .error e := hm
      obtain ⟨v, hv, htv, hminds⟩ := ht.adopt_releaseArray
      have htrack : w.track m n = (v, .error (.manager e)) := by
        simp only [World.track, hclosed, hv]
      rw [htrack]
      exact ⟨(fun p hp => by cases hp), htv, hminds⟩

theorem Tallied.discard (ht : w.Tallied ns) :
    w.Carries gone (w.discard ns).1 := by
  induction ns generalizing w with
  | nil => exact ⟨ht, .refl w⟩
  | cons n rest ih =>
      obtain ⟨v, hv, htv, hminds⟩ := ht.adopt_releaseArray
      have hrest := ih htv
      have hdiscard : w.discard (n :: rest) = v.discard rest := by
        simp only [World.discard, hv]
      rw [hdiscard]
      exact hrest.after hminds

theorem Tallied.trackAll (ht : w.Tallied ns) (m : ManagerId) :
    w.Carries gone (w.trackAll m ns).1 := by
  induction ns generalizing w with
  | nil => exact ⟨ht, .refl w⟩
  | cons n rest ih =>
      obtain ⟨hpanic, htv, hminds⟩ := ht.track m
      unfold World.trackAll
      split
      · rename_i v a he
        rw [he] at htv hminds
        have hv := ih htv
        split <;> rename_i hall <;> rw [hall] at hv <;>
          exact hv.after hminds
      · rename_i p he
        exact absurd (congrArg Prod.snd he) (hpanic p)
      · rename_i v f _ he
        rw [he] at htv hminds
        have hv : v.Carries gone (v.discard rest).1 := Tallied.discard htv
        split <;> rename_i hd <;> rw [hd] at hv <;>
          exact hv.after hminds

end World

end ArrayLifetimes
