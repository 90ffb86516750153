/-
The inventory of the engine in host memory.

The table of buffers is compared with a list of arrays that the engine has made.  `Stores`
says that it has a buffer for each of them and no other, and that each buffer is one for its
array: of its shape and data type, with as many bytes as these take.  Making an array adds
it to the list, and freeing one that is on the list always succeeds and takes it off.
-/
import ArrayLifetimes.Proofs.Engine.Lengths

namespace ArrayLifetimes

/-- The buffer is one for the array. -/
structure Buffer.Fits (b : Buffer) (n : NativeArray) : Prop where
  shape : b.shape = n.shape
  dataType : b.dataType = n.dataType
  sized : b.Sized

namespace Host

/-- The buffers of the engine are those of the arrays. -/
structure Stores (h : Host) (ns : List NativeArray) : Prop where
  distinct : (ns.map NativeArray.handle).Nodup
  held : ∀ n ∈ ns, ∃ b, h.buffers.get? n.handle = some b ∧ b.Fits n
  /-- There are no other buffers. -/
  only : ∀ x b, h.buffers.get? x = some b → x ∈ ns.map NativeArray.handle
  numbered : ∀ n ∈ ns, n.handle.number < h.nextHandle

variable {h k : Host} {ns ms : List NativeArray} {n : NativeArray}

/-- What else the engine keeps does not matter. -/
theorem Stores.of_eq (hs : h.Stores ns) (hb : k.buffers = h.buffers)
    (hn : k.nextHandle = h.nextHandle) : k.Stores ns :=
  ⟨hs.distinct, hb ▸ hs.held, hb ▸ hs.only, hn ▸ hs.numbered⟩

theorem Stores.perm (hs : h.Stores ns) (hp : ns.Perm ms) : h.Stores ms where
  distinct := (hp.map _).nodup_iff.mp hs.distinct
  held m hm := hs.held m (hp.symm.subset hm)
  only x b hx := (hp.map _).subset (hs.only x b hx)
  numbered m hm := hs.numbered m (hp.symm.subset hm)

/-- **What is live in the engine** are the handles of the arrays. -/
theorem Stores.contains_iff (hs : h.Stores ns) (x : Handle) :
    h.contains x = true ↔ x ∈ ns.map NativeArray.handle := by
  rw [contains, Keyed.contains, Option.isSome_iff_exists]
  constructor
  · rintro ⟨b, hb⟩
    exact hs.only x b hb
  · intro hx
    obtain ⟨n, hn, rfl⟩ := List.mem_map.mp hx
    obtain ⟨b, hb, -⟩ := hs.held n hn
    exact ⟨b, hb⟩

/-- **Every array can be read**, and it has as many bytes as its shape and data type take. -/
theorem Stores.read (hs : h.Stores ns) (hn : n ∈ ns) :
    ∃ bytes, h.read n.handle = .ok bytes ∧ n.shape.byteLen n.dataType = some bytes.length := by
  obtain ⟨b, hb, hfits⟩ := hs.held n hn
  refine ⟨b.bytes, by simp only [Host.read, hb], ?_⟩
  rw [← hfits.shape, ← hfits.dataType]
  exact hfits.sized

theorem Stores.sized (hs : h.Stores ns) {x : Handle} {b : Buffer}
    (hb : h.buffers.get? x = some b) : b.Sized := by
  obtain ⟨n, hn, rfl⟩ := List.mem_map.mp (hs.only x b hb)
  obtain ⟨c, hc, hfits⟩ := hs.held n hn
  obtain rfl : c = b := Option.some.inj (hc.symm.trans hb)
  exact hfits.sized

theorem stores_nil (draws : Draws) : Stores { draws } [] := by
  refine ⟨List.nodup_nil, ?_, ?_, ?_⟩
  · intro n hn
    cases hn
  · intro x b hx
    cases hx
  · intro n hn
    cases hn

/-! ### Making arrays -/

theorem Stores.insert (hs : h.Stores ns) {b : Buffer} (hb : b.Sized) :
    (h.insert b).1.Stores ((h.insert b).2 :: ns) := by
  have hfresh : ∀ n ∈ ns, (⟨h.nextHandle⟩ : Handle) ≠ n.handle := by
    intro n hn he
    have hlt := hs.numbered n hn
    rw [← he] at hlt
    exact Nat.lt_irrefl _ hlt
  refine ⟨?_, ?_, ?_, ?_⟩
  · rw [List.map_cons, List.nodup_cons]
    refine ⟨?_, hs.distinct⟩
    intro hmem
    obtain ⟨n, hn, he⟩ := List.mem_map.mp hmem
    exact hfresh n hn he.symm
  · intro n hn
    rcases List.mem_cons.mp hn with rfl | hn
    · exact ⟨b, by simp [Host.insert], rfl, rfl, hb⟩
    · obtain ⟨c, hc, hfits⟩ := hs.held n hn
      refine ⟨c, ?_, hfits⟩
      rw [Host.insert, Keyed.get?_insert, if_neg (hfresh n hn)]
      exact hc
  · intro x c hx
    rw [Host.insert, Keyed.get?_insert] at hx
    split at hx
    · rename_i he
      exact List.mem_cons.mpr (Or.inl he.symm)
    · exact List.mem_cons_of_mem _ (hs.only x c hx)
  · intro n hn
    rcases List.mem_cons.mp hn with rfl | hn
    · exact Nat.lt_succ_self _
    · exact Nat.lt_succ_of_lt (hs.numbered n hn)

/-- An array that is allocated gets a buffer of the size that it takes. -/
theorem exists_insert_of_create {r : AllocationRequest} (hc : h.create r = .ok (k, n)) :
    ∃ drawn b, Buffer.Sized b ∧ Host.insert { h with drawn } b = (k, n) := by
  unfold Host.create at hc
  split at hc
  · rename_i filled hfilled
    refine ⟨_, _, ?_, Except.ok.inj hc⟩
    unfold fill at hfilled
    split at hfilled
    · cases hfilled
    · rename_i length hlength
      split at hfilled
      · cases hfilled
      · show r.shape.byteLen r.dataType = some filled.bytes.length
        rw [Fill.length_run hlength hfilled]
        exact hlength
  · cases hc

/-- The result of an operation gets a buffer, of the size that it takes if the inputs are of
theirs. -/
theorem exists_insert_of_invoke (hs : ∀ x b, h.buffers.get? x = some b → b.Sized)
    {operation : String} {inputs : List Handle} {ps : Params}
    (hi : h.invoke operation inputs ps = .ok (k, n)) :
    ∃ b, Buffer.Sized b ∧ h.insert b = (k, n) := by
  simp only [Host.invoke, bind_eq_ok, pure, Except.pure, Except.ok.injEq] at hi
  obtain ⟨b, hb, hins⟩ := hi
  exact ⟨b, sized_compute hs hb, hins⟩

theorem Stores.create (hs : h.Stores ns) {r : AllocationRequest} (hc : h.create r = .ok (k, n)) :
    k.Stores (n :: ns) := by
  obtain ⟨drawn, b, hb, hins⟩ := exists_insert_of_create hc
  have hdrawn : Stores { h with drawn } ns := hs.of_eq rfl rfl
  have hstores := hdrawn.insert hb
  rw [hins] at hstores
  exact hstores

theorem Stores.invoke (hs : h.Stores ns) {operation : String} {inputs : List Handle} {ps : Params}
    (hi : h.invoke operation inputs ps = .ok (k, n)) : k.Stores (n :: ns) := by
  obtain ⟨b, hb, hins⟩ := exists_insert_of_invoke (fun _ _ => hs.sized) hi
  have hstores := hs.insert hb
  rw [hins] at hstores
  exact hstores

/-- An operation into an array changes the bytes of one buffer, and not how many they are. -/
theorem exists_of_invokeInto {operation : String} {inputs outputs : List Handle} {ps : Params}
    (hi : h.invokeInto operation inputs outputs ps = .ok k) :
    ∃ x old bytes, outputs.head? = some x ∧ h.buffers.get? x = some old ∧
      old.bytes.length = bytes.length ∧
      k = { h with buffers := h.buffers.insert x { old with bytes } } := by
  unfold Host.invokeInto at hi
  split at hi
  · cases hi
  · rename_i x hx
    simp only [bind_eq_ok] at hi
    obtain ⟨result, -, hi⟩ := hi
    split at hi
    · cases hi
    · rename_i old hold
      split at hi
      · rename_i hsame
        cases hi
        exact ⟨x, old, result.bytes, hx, hold, hsame.1, rfl⟩
      · cases hi

/-- An operation into an array leaves its buffer one for it. -/
theorem Stores.invokeInto (hs : h.Stores ns) {operation : String} {inputs outputs : List Handle}
    {ps : Params} (hi : h.invokeInto operation inputs outputs ps = .ok k) : k.Stores ns := by
  obtain ⟨target, old, bytes, -, hold, hlength, rfl⟩ := exists_of_invokeInto hi
  have hsized : Buffer.Sized { old with bytes } := by
    have hsized := hs.sized hold
    rw [Buffer.Sized, hlength] at hsized
    exact hsized
  refine ⟨hs.distinct, ?_, ?_, hs.numbered⟩
  · intro n hn
    obtain ⟨b, hb, hfits⟩ := hs.held n hn
    rw [Keyed.get?_insert]
    split
    · rename_i he
      obtain rfl : old = b := Option.some.inj ((he ▸ hold).symm.trans hb)
      exact ⟨_, rfl, hfits.shape, hfits.dataType, hsized⟩
    · exact ⟨b, hb, hfits⟩
  · intro x b hx
    rw [Keyed.get?_insert] at hx
    split at hx
    · rename_i he
      exact hs.only x old (he ▸ hold)
    · exact hs.only x b hx

/-! ### Freeing arrays -/

/-- **An array that is there can be freed.** -/
theorem Stores.release (hs : h.Stores (n :: ns)) :
    ∃ k, h.release n.handle = .ok k ∧ k.Stores ns := by
  obtain ⟨b, hb, -⟩ := hs.held n (List.mem_cons_self ..)
  obtain ⟨hn, hdistinct⟩ := List.nodup_cons.mp hs.distinct
  have hne : ∀ m ∈ ns, n.handle ≠ m.handle := by
    intro m hm he
    exact hn (List.mem_map.mpr ⟨m, hm, he.symm⟩)
  refine ⟨_, by rw [Host.release, hb], hdistinct, ?_, ?_, ?_⟩
  · intro m hm
    obtain ⟨c, hc, hfits⟩ := hs.held m (List.mem_cons_of_mem _ hm)
    refine ⟨c, ?_, hfits⟩
    rw [Keyed.get?_erase, if_neg (hne m hm)]
    exact hc
  · intro x c hx
    rw [Keyed.get?_erase] at hx
    split at hx
    · cases hx
    · rename_i hxn
      rcases List.mem_cons.mp (hs.only x c hx) with rfl | hmem
      · exact absurd rfl hxn
      · exact hmem
  · exact fun m hm => hs.numbered m (List.mem_cons_of_mem _ hm)

end Host

end ArrayLifetimes
