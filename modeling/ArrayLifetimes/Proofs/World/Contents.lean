/-
What becomes of a buffer in host memory.

A buffer that the host has made keeps its bytes until it is freed or written into.  Either takes a
call of the engine, and the journal notes every call with who made it.  So a buffer is as it
was whenever the journal has got no such call meanwhile.  Every move is like that.
-/
import ArrayLifetimes.Proofs.World.Ledger

namespace ArrayLifetimes

/-- The call frees the buffer of the handle, or writes into it: an operation writes into its first
output. -/
def EngineCall.touches (x : Handle) : EngineCall → Bool
  | release y => y == x
  | invokeInto _ _ outputs _ => outputs.head? == some x
  | _ => false

/-- The entry notes such a call. -/
def Entry.touches (x : Handle) : Entry → Bool
  | call _ c => c.touches x
  | _ => false

/-- The entry notes that somebody asked the engine itself to free the buffer, or that an operation
had it among its outputs. -/
def Entry.disturbs (x : Handle) : Entry → Bool
  | call .client (.release y) => y == x
  | call _ (.invokeInto _ _ outputs _) => outputs.contains x
  | _ => false

/-- The entry notes that somebody asked the engine itself to free the buffer, or that an operation
wrote into it. -/
def Entry.spoils (x : Handle) : Entry → Bool
  | call .client (.release y) => y == x
  | call _ (.invokeInto _ _ outputs _) => outputs.head? == some x
  | _ => false

theorem Entry.disturbs_of_spoils {x : Handle} {e : Entry} (h : e.spoils x = true) :
    e.disturbs x = true := by
  cases e with
  | event | ran => cases h
  | call caller c =>
      cases c with
      | create | read | invoke => cases caller <;> cases h
      | release y =>
          cases caller with
          | managers => cases h
          | client => exact h
      | invokeInto operation inputs outputs ps =>
          have hmem : x ∈ outputs := by
            cases caller <;> exact List.mem_of_head? (beq_iff_eq.mp h)
          cases caller <;> exact List.contains_iff_mem.mpr hmem

/-- From one host to another, the buffer stays as it was if it has been made already. -/
structure Host.Retains (h k : Host) (x : Handle) : Prop where
  le : h.nextHandle ≤ k.nextHandle
  get? : x.number < h.nextHandle → k.buffers.get? x = h.buffers.get? x

namespace Host

variable {h k l : Host} {x y : Handle}

theorem Retains.of_eq (hb : k.buffers = h.buffers) (hn : k.nextHandle = h.nextHandle) :
    h.Retains k x := ⟨Nat.le_of_eq hn.symm, fun _ => by rw [hb]⟩

theorem Retains.trans (hk : h.Retains k x) (hl : k.Retains l x) : h.Retains l x where
  le := Nat.le_trans hk.le hl.le
  get? hx := (hl.get? (Nat.lt_of_lt_of_le hx hk.le)).trans (hk.get? hx)

/-- A new buffer has a new handle. -/
theorem retains_insert (h : Host) (b : Buffer) : h.Retains (h.insert b).1 x where
  le := Nat.le_succ _
  get? hx := by
    rw [insert, Keyed.get?_insert, if_neg]
    rintro rfl
    exact Nat.lt_irrefl _ hx

theorem retains_create {r : AllocationRequest} {n : NativeArray} (hc : h.create r = .ok (k, n)) :
    h.Retains k x := by
  unfold create at hc
  split at hc
  · rename_i filled _
    cases hc
    have hdrawn : h.Retains { h with drawn := h.drawn + filled.drawn } x := .of_eq rfl rfl
    exact hdrawn.trans (retains_insert _ _)
  · cases hc

theorem retains_invoke {operation : String} {inputs : List Handle} {ps : Params} {n : NativeArray}
    (hi : h.invoke operation inputs ps = .ok (k, n)) : h.Retains k x := by
  simp only [invoke, bind_eq_ok, pure, Except.pure, Except.ok.injEq] at hi
  obtain ⟨b, -, hb⟩ := hi
  have hr : h.Retains (h.insert b).1 x := retains_insert h b
  rwa [hb] at hr

theorem retains_release (hr : h.release y = .ok k) (hne : y ≠ x) : h.Retains k x := by
  unfold release at hr
  split at hr <;> cases hr
  refine ⟨Nat.le_refl _, fun _ => ?_⟩
  rw [Keyed.get?_erase, if_neg hne]

/-- An operation writes into its first output at most. -/
theorem retains_invokeInto {operation : String} {inputs outputs : List Handle} {ps : Params}
    (hi : h.invokeInto operation inputs outputs ps = .ok k) (hx : outputs.head? ≠ some x) :
    h.Retains k x := by
  unfold invokeInto at hi
  split at hi
  · cases hi
  · rename_i target htarget
    have hne : target ≠ x := by
      rintro rfl
      exact hx htarget
    simp only [bind_eq_ok] at hi
    obtain ⟨b, -, hi⟩ := hi
    split at hi
    · cases hi
    · split at hi <;> cases hi
      refine ⟨Nat.le_refl _, fun _ => ?_⟩
      rw [Keyed.get?_insert, if_neg hne]

end Host

namespace Engine

variable {e g : Engine} {x : Handle}

theorem retains_create {r : AllocationRequest} {answer : Except EngineFault NativeArray}
    (h : e.create r = (g, answer)) : e.host.Retains g.host x := by
  unfold create createHosted at h
  split at h
  · cases h
    exact .of_eq rfl rfl
  · split at h
    · cases h
      exact .of_eq rfl rfl
    · split at h <;> cases h
      · rename_i hc
        exact Host.retains_create hc
      · exact .of_eq rfl rfl

theorem retains_release {y : Handle} {answer : Except EngineFault Unit}
    (h : e.release y = (g, answer)) (hne : y ≠ x) : e.host.Retains g.host x := by
  unfold release releaseHosted at h
  split at h
  · cases h
    exact .of_eq rfl rfl
  · split at h
    · cases h
      exact .of_eq rfl rfl
    · split at h
      · cases h
        exact .of_eq rfl rfl
      · split at h <;> cases h
        · rename_i hr
          exact Host.retains_release hr hne
        · exact .of_eq rfl rfl

theorem retains_copies {h k : Host} {inputs : List Handle} {ps : Params} {count : Nat}
    {ns : List NativeArray} (hc : copies h inputs ps count = .ok (k, ns)) : h.Retains k x := by
  induction count generalizing h k ns with
  | zero =>
      cases hc
      exact .of_eq rfl rfl
  | succ count ih =>
      simp only [copies, bind_eq_ok, pure, Except.pure, Except.ok.injEq, Prod.mk.injEq] at hc
      obtain ⟨⟨h₁, n⟩, hn, ⟨h₂, rest⟩, hrest, rfl, rfl⟩ := hc
      exact (Host.retains_invoke hn).trans (ih hrest)

theorem retains_invoke {operation : String} {inputs : List Handle} {ps : Params}
    {ns : List NativeArray} (h : e.invoke operation inputs ps = .ok (g, ns)) :
    e.host.Retains g.host x := by
  have single : ∀ {p : Engine × List NativeArray},
      (e.host.invoke operation inputs ps >>= fun made =>
        Except.ok ({ e with host := made.1 }, [made.2])) = .ok p → e.host.Retains p.1.host x := by
    intro p hp
    obtain ⟨made, hmade, hp⟩ := bind_eq_ok.mp hp
    cases hp
    exact Host.retains_invoke hmade
  unfold invoke at h
  split at h
  · rename_i f _
    cases hf : f.invoke e.calls <;> simp only [hf, Except.map] at h <;> cases h
    exact .of_eq rfl rfl
  · replace h := mapError_eq_ok.mp h
    unfold invokeHosted at h
    split at h
    · exact single h
    · split at h
      · split at h
        · cases h
        · simp only [bind_eq_ok, pure, Except.pure, Except.ok.injEq, Prod.mk.injEq] at h
          obtain ⟨⟨k, made⟩, hmade, rfl, rfl⟩ := h
          exact retains_copies hmade
      · exact single h
    · cases h

theorem retains_invokeInto {operation : String} {inputs outputs : List Handle} {ps : Params}
    (h : e.invokeInto operation inputs outputs ps = .ok g) (hx : outputs.head? ≠ some x) :
    e.host.Retains g.host x := by
  unfold invokeInto at h
  split at h
  · rename_i f _
    cases hf : f.invokeInto e.calls <;> simp only [hf, Except.map] at h <;> cases h
    exact .of_eq rfl rfl
  · replace h := mapError_eq_ok.mp h
    unfold invokeIntoHosted at h
    split at h <;> simp only [bind_eq_ok, pure, Except.pure, Except.ok.injEq, reduceCtorEq] at h
    all_goals
      obtain ⟨k, hk, rfl⟩ := h
      exact Host.retains_invokeInto hk hx

end Engine

namespace World

variable {w v u : World} {x : Handle}

/-- From one world to another, the buffer stays as it was unless the journal has noted a call that
touches it. -/
def Keeps (x : Handle) (w v : World) : Prop :=
  ∃ es, v.journal = es ++ w.journal ∧
    ((∀ e ∈ es, e.touches x = false) → w.engine.host.Retains v.engine.host x)

theorem Keeps.of_host (hh : v.engine.host = w.engine.host) (es : List Entry)
    (hj : v.journal = es ++ w.journal) : w.Keeps x v :=
  ⟨es, hj, fun _ => .of_eq (congrArg Host.buffers hh) (congrArg Host.nextHandle hh)⟩

theorem Keeps.trans (h : w.Keeps x v) (h' : v.Keeps x u) : w.Keeps x u := by
  obtain ⟨es, hj, hk⟩ := h
  obtain ⟨es', hj', hk'⟩ := h'
  refine ⟨es' ++ es, by rw [hj', hj, List.append_assoc], fun hes => ?_⟩
  exact (hk fun e he => hes e (List.mem_append_right _ he)).trans
    (hk' fun e he => hes e (List.mem_append_left _ he))

/-! ### Calls to the engine -/

theorem keeps_callCreate (w : World) (caller : Caller) (r : AllocationRequest) :
    w.Keeps x (w.callCreate caller r).1 := by
  unfold callCreate
  simp only
  split <;> rename_i g _ hc <;> have hr := Engine.retains_create (x := x) hc
  · exact ⟨[_, _], rfl, fun _ => hr⟩
  · exact ⟨[_], rfl, fun _ => hr⟩

theorem keeps_callRelease (w : World) (caller : Caller) (y : Handle) :
    w.Keeps x (w.callRelease caller y).1 := by
  have hne : Entry.touches x (.call caller (.release y)) = false → y ≠ x :=
    fun h => by simpa [Entry.touches, EngineCall.touches] using h
  unfold callRelease
  simp only
  split
  · rename_i g hc
    have hr : y ≠ x → (w.tell caller (.release y)).engine.host.Retains g.host x :=
      Engine.retains_release hc
    refine ⟨[_, .call caller (.release y)], rfl, fun hes => hr (hne (hes _ ?_))⟩
    exact List.mem_cons_of_mem _ (List.mem_singleton_self _)
  · rename_i g _ hc
    have hr : y ≠ x → (w.tell caller (.release y)).engine.host.Retains g.host x :=
      Engine.retains_release hc
    exact ⟨[.call caller (.release y)], rfl,
      fun hes => hr (hne (hes _ (List.mem_singleton_self _)))⟩

theorem keeps_callInvoke (w : World) (caller : Caller) (operation : String)
    (inputs : List Handle) (ps : Params) :
    w.Keeps x (w.callInvoke caller operation inputs ps).1 := by
  unfold callInvoke
  simp only
  split
  · rename_i g made hi
    have hr := Engine.retains_invoke (x := x) hi
    rw [noteAllocated_eq]
    refine ⟨(made.map fun n => Entry.event (.bufferAllocated n.handle n.shape)).reverse ++
      [.call caller (.invoke operation inputs ps)], ?_, fun _ => hr⟩
    rw [List.append_assoc]
    rfl
  · exact .of_host rfl [_] rfl

theorem keeps_callInvokeInto (w : World) (caller : Caller) (operation : String)
    (inputs outputs : List Handle) (ps : Params) :
    w.Keeps x (w.callInvokeInto caller operation inputs outputs ps).1 := by
  unfold callInvokeInto
  simp only
  split
  · rename_i g hi
    have hr : outputs.head? ≠ some x → Host.Retains
        (w.tell caller (.invokeInto operation inputs outputs ps)).engine.host g.host x :=
      Engine.retains_invokeInto hi
    refine ⟨[.call caller (.invokeInto operation inputs outputs ps)], rfl, fun hes => hr ?_⟩
    simpa [Entry.touches, EngineCall.touches] using hes _ (List.mem_singleton_self _)
  · exact .of_host rfl [_] rfl

/-! ### Everything else -/

theorem keeps_releaseArray (w : World) (a : ArrayId) : w.Keeps x (w.releaseArray a).1 := by
  unfold releaseArray
  split
  · exact .of_host rfl [] rfl
  · rename_i r _
    split
    · have hm : w.Keeps x ((w.markReleased a).note (.releasingArray a r.handle)) :=
        .of_host rfl [_] rfl
      exact hm.trans (keeps_callRelease _ .managers r.handle)
    · exact .of_host rfl [] rfl

/-- **Every move keeps a buffer**, unless it touches it. -/
theorem Move.keeps {P : List Command → Prop} {p q : World × List NativeArray} (h : Move P p q) :
    p.1.Keeps x q.1 := by
  cases h with
  | noted w ns e he => exact .of_host rfl [e] rfl
  | named | rooted | thread | hook | spent | adopt | hold | lost => exact .of_host rfl [] rfl
  | base w ns d => exact .of_host rfl [_] rfl
  | sub w v ns p d c h =>
      obtain ⟨r, -, -, rfl⟩ := newSub_eq_ok h
      exact .of_host rfl [_] rfl
  | attach w v ns m key y old hy h =>
      obtain ⟨r, u, -, -, hu, rfl⟩ := attach_eq_ok h
      rcases hu with rfl | rfl
      · exact .of_host rfl [] rfl
      · exact .of_host rfl [_] rfl
  | detach w ns m key =>
      rcases detach_cases w m key with h | ⟨r, y, -, -, h⟩ <;> rw [h]
      · exact .of_host rfl [] rfl
      · exact .of_host rfl [_] rfl
  | detachSub w ns m c =>
      rcases detachSub_cases w m c with h | ⟨r, -, -, h⟩ <;> rw [h] <;> exact .of_host rfl [] rfl
  | armed w ns e hk hh => exact .of_host hh [] rfl
  | releaseArray w ns a => exact keeps_releaseArray w a
  | release w ns y => exact keeps_callRelease w .client y
  | read w ns caller y h => exact .of_host rfl [_] rfl
  | create w v ns caller r n h => exact congrArg Prod.fst h ▸ keeps_callCreate w caller r
  | notCreated w v ns caller r f h => exact congrArg Prod.fst h ▸ keeps_callCreate w caller r
  | invoke w v ns caller operation inputs ps made hx h =>
      exact congrArg Prod.fst h ▸ keeps_callInvoke w caller operation inputs ps
  | notInvoked w v ns caller operation inputs ps f hx h =>
      exact congrArg Prod.fst h ▸ keeps_callInvoke w caller operation inputs ps
  | invokeInto w ns caller operation inputs outputs ps hx =>
      exact keeps_callInvokeInto w caller operation inputs outputs ps

theorem Moves.keeps {P : List Command → Prop} {p q : World × List NativeArray} (h : Moves P p q) :
    p.1.Keeps x q.1 := by
  induction h with
  | refl => exact .of_host rfl [] rfl
  | tail _ hm ih => exact ih.trans hm.keeps

theorem keeps_endCascade (w : World) (m : ManagerId) (failures : ReleaseFailures) :
    w.Keeps x (w.endCascade m failures).1 := by
  have hfinish : w.Keeps x (w.finishClose m) := by
    unfold finishClose
    split
    · exact .of_host rfl [] rfl
    · rename_i r _
      cases r.owner with
      | parent p => exact .of_host rfl [] rfl
      | registry =>
          simp only [unlink]
          split
          · exact .of_host rfl [_] rfl
          · exact .of_host rfl [] rfl
  simp only [endCascade]
  split
  · exact hfinish
  · exact hfinish.trans (.of_host rfl [_] rfl)

/-! ### Records -/

/-- From one world to another, no array goes, and one that is not released is as it was. -/
structure Recalls (w v : World) : Prop where
  has : ∀ a, w.Has (.array a) → v.Has (.array a)
  record : ∀ a r, w.Has (.array a) → v.array? a = some r → r.released = false →
    w.array? a = some r

theorem Recalls.of_eq (h : v.arrays = w.arrays) : w.Recalls v where
  has a ha := by
    rw [Has, h]
    exact ha
  record a r _ hr _ := by
    rw [array?, h] at hr
    exact hr

theorem Recalls.trans (h : w.Recalls v) (h' : v.Recalls u) : w.Recalls u where
  has a ha := h'.has a (h.has a ha)
  record a r ha hr hrel := h.record a r ha (h'.record a r (h.has a ha) hr hrel) hrel

theorem recalls_releaseArray (w : World) (a : ArrayId) : w.Recalls (w.releaseArray a).1 where
  has b hb := (steady_releaseArray w a).has _ hb
  record b r _ hr hrel := by
    rcases releaseArray_cases w a with ⟨he, -, -⟩ | ⟨q, -, -, hheard⟩
    · rw [he] at hr
      exact hr
    · have hmarked : (w.markReleased a).array? b = some r := by
        rw [← hr]
        simp only [array?, hheard.arrays]
        rfl
      rw [array?_markReleased] at hmarked
      split at hmarked
      · obtain ⟨p, -, rfl⟩ := Option.map_eq_some_iff.mp hmarked
        cases hrel
      · exact hmarked

theorem recalls_adopt (w : World) (n : NativeArray) : w.Recalls (w.adopt n).1 where
  has b hb := (steady_adopt w n).has _ hb
  record b r hb hr _ := by
    rw [array?_adopt, if_neg (Nat.ne_of_lt hb)] at hr
    exact hr

/-- **Every move leaves the records alone**, but for the marks that it sets. -/
theorem Move.recalls {P : List Command → Prop} {p q : World × List NativeArray}
    (h : Move P p q) : p.1.Recalls q.1 := by
  cases h with
  | noted | named | rooted | thread | base | hook | spent | armed | hold | lost => exact .of_eq rfl
  | sub w v ns p d c h => exact .of_eq (eq_of_newSub h).2.1
  | attach w v ns m key y old hy h => exact .of_eq (eq_of_attach h).2.1
  | detach w ns m key => exact .of_eq (eq_of_detach w m key).2.1
  | detachSub w ns m c => exact .of_eq (eq_of_detachSub w m c).2.1
  | releaseArray w ns a => exact recalls_releaseArray w a
  | release w ns y => exact .of_eq (heard_callRelease y).arrays
  | read w ns caller y h => exact .of_eq rfl
  | create w v ns caller r n h => exact .of_eq (heard_of_callCreate h).arrays
  | notCreated w v ns caller r f h => exact .of_eq (heard_of_callCreate h).arrays
  | invoke w v ns caller operation inputs ps made hx h =>
      exact .of_eq (heard_of_callInvoke h).arrays
  | notInvoked w v ns caller operation inputs ps f hx h =>
      exact .of_eq (heard_of_callInvoke h).arrays
  | invokeInto w ns caller operation inputs outputs ps hx =>
      exact .of_eq (heard_callInvokeInto operation inputs outputs ps).arrays
  | adopt w n ns => exact recalls_adopt w n

theorem Moves.recalls {P : List Command → Prop} {p q : World × List NativeArray}
    (h : Moves P p q) : p.1.Recalls q.1 := by
  induction h with
  | refl => exact .of_eq rfl
  | tail _ hm ih => exact ih.trans hm.recalls

theorem recalls_endCascade (w : World) (m : ManagerId) (failures : ReleaseFailures) :
    w.Recalls (w.endCascade m failures).1 := by
  refine .of_eq ?_
  have hfinish : (w.finishClose m).arrays = w.arrays := by
    unfold finishClose
    split
    · rfl
    · rename_i r _
      cases r.owner with
      | parent p => rfl
      | registry =>
          simp only [unlink]
          split <;> rfl
  simp only [endCascade]
  split <;> exact hfinish

/-! ### Reading -/

/-- How many such entries there are. -/
def disturbances (w : World) (x : Handle) : Nat := w.journal.countP (Entry.disturbs x)

/-- No entry has come to the journal that notes that somebody asked the engine itself to free the
buffer, or that an operation wrote into it. -/
def Unspoilt (x : Handle) (w v : World) : Prop :=
  ∀ es, v.journal = es ++ w.journal → ∀ e ∈ es, e.spoils x = false

theorem unspoilt_of_disturbances (hd : v.disturbances x = w.disturbances x) : w.Unspoilt x v := by
  intro es hj e he
  have hnone : es.countP (Entry.disturbs x) = 0 := by
    simp only [disturbances, hj, List.countP_append] at hd
    omega
  rw [List.countP_eq_zero] at hnone
  exact Bool.eq_false_iff.mpr fun hs => hnone e he (Entry.disturbs_of_spoils hs)

/-- What touches a buffer, other than what spoils it, is a release by managers. -/
theorem Unspoilt.untouched (hu : w.Unspoilt x v) {es : List Entry}
    (hj : v.journal = es ++ w.journal) (hr : .release x ∉ v.coreCalls) :
    ∀ e ∈ es, e.touches x = false := by
  intro e he
  have hspoils := hu es hj e he
  cases e with
  | event | ran => rfl
  | call caller c =>
      cases c with
      | create | read | invoke => rfl
      | invokeInto operation inputs outputs ps => cases caller <;> exact hspoils
      | release y =>
          cases caller with
          | client => exact hspoils
          | managers =>
              refine Bool.eq_false_iff.mpr fun hy => hr ?_
              obtain rfl : y = x := beq_iff_eq.mp hy
              rw [coreCalls, hj, List.filterMap_append]
              exact List.mem_append_left _ (List.mem_filterMap.mpr ⟨_, he, rfl⟩)

/-- An array is read by asking the host for its buffer. -/
theorem arrayBytes_of_live {a : ArrayId} {r : ArrayRecord} (hk : w.engine.kind = .host)
    (hr : w.liveArray a = .ok r) : (w.arrayBytes a).2 =
      ((w.engine.host.read r.handle).mapError .error).mapError EngineFault.toFault := by
  have hheard : (w.tell .managers (.read r.handle)).engine.kind = .host := hk
  simp only [World.arrayBytes, hr, callRead, Engine.read, hheard]
  rfl

/-- **An array reads back the same bytes** if its record is the same, and nobody has spoilt its
buffer. -/
theorem Keeps.arrayBytes {a : ArrayId} {r : ArrayRecord} {ns ms : List NativeArray}
    (hk : w.Keeps r.handle v) (hw : w.engine.kind = .host) (hv : v.engine.kind = .host)
    (hl : w.Ledger ns) (hl' : v.Ledger ms) (ha : w.array? a = some r) (ha' : v.array? a = some r)
    (hu : w.Unspoilt r.handle v) : (v.arrayBytes a).2 = (w.arrayBytes a).2 := by
  by_cases hr : r.released = true
  · simp only [World.arrayBytes, liveArray, ha, ha', hr, if_true]
  · replace hr := Bool.eq_false_iff.mpr hr
    have hissued : r.handle.number < w.engine.host.nextHandle := by
      have hx : r.handle ∈ w.handles := by
        refine List.mem_of_getElem? (i := a.index) ?_
        rw [getElem?_handles, ha, Option.map_some]
      simpa only [Engine.Issued, hw] using hl.issued _ (List.mem_append_left _ hx)
    obtain ⟨es, hj, hretains⟩ := hk
    have hb := (hretains (hu.untouched hj (hl'.unreleased ⟨a, r, ha', rfl, hr⟩))).get? hissued
    have live : ∀ {u : World}, u.array? a = some r → u.liveArray a = .ok r := by
      intro u hu
      simp only [liveArray, hu, hr, Bool.false_eq_true, if_false]
    rw [arrayBytes_of_live hv (live ha'), arrayBytes_of_live hw (live ha), Host.read, Host.read, hb]

end World

end ArrayLifetimes
