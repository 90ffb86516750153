/-
The ledger of handles.

An engine that never gives a handle twice lets the managers tell arrays apart by their
handles.  The ledger says that they do: no two arrays have one handle, whether a manager
has adopted them or not, and a handle whose release the managers have asked for belongs
to an array that is marked as released.  A mark is never taken back and a marked array is
never used, so after its release no call mentions a handle again.
-/
import ArrayLifetimes.Proofs.World.Commands
import ArrayLifetimes.Proofs.World.Issue

namespace ArrayLifetimes

namespace World

/-- The handles of all arrays, released or not. -/
def handles (w : World) : List Handle := w.arrays.toList.map ArrayRecord.handle

/-- The ledger of a world and of arrays that no manager has adopted yet. -/
structure Ledger (w : World) (ns : List NativeArray) : Prop where
  /-- No two arrays have one handle. -/
  distinct : (w.handles ++ ns.map NativeArray.handle).Nodup
  /-- The engine has given them all. -/
  issued : ∀ x ∈ w.handles ++ ns.map NativeArray.handle, w.engine.Issued x
  /-- Managers ask for the release of an array that is marked. -/
  freed : ∀ x, .release x ∈ w.coreCalls →
    ∃ a r, w.array? a = some r ∧ r.handle = x ∧ r.released = true
  /-- After that, no call of theirs mentions its handle. -/
  unused : w.coreCalls.Pairwise fun later earlier =>
    ∀ x, earlier = .release x → x ∉ later.handles

theorem getElem?_handles (w : World) (a : ArrayId) :
    w.handles[a.index]? = (w.array? a).map ArrayRecord.handle := by
  simp [handles, array?]

/-- Two arrays with one handle are one array. -/
theorem Ledger.eq_of_handle {w : World} {ns : List NativeArray} (h : w.Ledger ns) {a b : ArrayId}
    {r q : ArrayRecord} (ha : w.array? a = some r) (hb : w.array? b = some q)
    (hrq : r.handle = q.handle) : a = b := by
  have hd := (List.nodup_append.mp h.distinct).1
  have hi := getElem?_handles w a
  have hj := getElem?_handles w b
  rw [ha, Option.map_some] at hi
  rw [hb, Option.map_some, ← hrq, ← hi] at hj
  have hlt : a.index < w.handles.length := by
    have hsome : w.handles[a.index]? = some r.handle := hi
    exact (List.getElem?_eq_some_iff.mp hsome).1
  have hindex : a.index = b.index := (List.getElem?_inj hlt hd).mp hj.symm
  cases a
  cases b
  exact congrArg ArrayId.mk hindex

theorem Ledger.same {w : World} {ns : List NativeArray} (h : w.Ledger ns) {a b : ArrayId}
    {r q : ArrayRecord} (ha : w.array? a = some r) (hb : w.array? b = some q)
    (hrq : r.handle = q.handle) : r = q := by
  have hab := h.eq_of_handle ha hb hrq
  subst hab
  rw [ha] at hb
  exact Option.some.inj hb

/-- The handle of a live array has not been released. -/
theorem Ledger.unreleased {w : World} {ns : List NativeArray} (h : w.Ledger ns) {x : Handle}
    (hx : w.Live x) : .release x ∉ w.coreCalls := by
  intro hc
  obtain ⟨a, r, ha, hax, hr⟩ := hx
  obtain ⟨b, q, hb, hbx, hq⟩ := h.freed x hc
  have hrq := h.same ha hb (hax.trans hbx.symm)
  rw [hrq, hq] at hr
  cases hr

/-- The ledger of a world in which arrays, calls of managers and what was issued are as in
another. -/
theorem Ledger.of_same {w v : World} {ns : List NativeArray} (h : w.Ledger ns)
    (ha : v.arrays = w.arrays) (hc : v.coreCalls = w.coreCalls)
    (hi : ∀ x, w.engine.Issued x → v.engine.Issued x) : v.Ledger ns := by
  have hh : v.handles = w.handles := by
    simp only [handles, ha]
  refine ⟨hh ▸ h.distinct, ?_, ?_, hc ▸ h.unused⟩
  · intro x hx
    rw [hh] at hx
    exact hi x (h.issued x hx)
  · intro x hx
    rw [hc] at hx
    simpa only [array?, ha] using h.freed x hx

/-- Arrays may get lost. -/
theorem Ledger.sublist {w : World} {ns ms : List NativeArray} (h : w.Ledger ns)
    (hms : ms.Sublist ns) : w.Ledger ms := by
  have hs : (w.handles ++ ms.map NativeArray.handle).Sublist
      (w.handles ++ ns.map NativeArray.handle) :=
    (List.Sublist.refl _).append (hms.map _)
  refine ⟨h.distinct.sublist hs, ?_, h.freed, h.unused⟩
  intro x hx
  exact h.issued x (hs.subset hx)

/-- It does not matter in which order arrays wait. -/
theorem Ledger.perm {w : World} {ns ms : List NativeArray} (h : w.Ledger ns)
    (hms : ns.Perm ms) : w.Ledger ms := by
  have hp := List.Perm.append_left w.handles (hms.map NativeArray.handle)
  refine ⟨hp.nodup_iff.mp h.distinct, ?_, h.freed, h.unused⟩
  intro x hx
  exact h.issued x (hp.symm.subset hx)

/-- A call of the client, or one of the managers that mentions live handles only. -/
theorem Ledger.heard {w v : World} {ns : List NativeArray} {caller : Caller} {c : EngineCall}
    (h : w.Ledger ns) (hv : w.Heard caller c v)
    (hc : caller = .managers → ∀ x ∈ c.handles, w.Live x)
    (hn : caller = .managers → ∀ x, c ≠ .release x) (made : List NativeArray)
    (hi : w.engine.Issues v.engine (made.map NativeArray.handle)) : v.Ledger (made ++ ns) := by
  have hh : v.handles = w.handles := by
    simp only [handles, hv.arrays]
  have hperm : (v.handles ++ (made ++ ns).map NativeArray.handle).Perm
      (made.map NativeArray.handle ++ (w.handles ++ ns.map NativeArray.handle)) := by
    rw [hh, List.map_append]
    exact List.perm_append_comm_assoc _ _ _
  have hfreed : ∀ x, .release x ∈ w.coreCalls →
      ∃ a r, v.array? a = some r ∧ r.handle = x ∧ r.released = true := by
    simpa only [array?, hv.arrays] using h.freed
  have hcore := hv.coreCalls
  refine ⟨?_, ?_, ?_, ?_⟩
  · rw [hperm.nodup_iff, List.nodup_append]
    refine ⟨hi.distinct, h.distinct, ?_⟩
    rintro x hx y hy rfl
    exact hi.unissued x hx (h.issued x hy)
  · intro x hx
    rcases List.mem_append.mp (hperm.subset hx) with hx | hx
    · exact hi.issued x hx
    · exact hi.earlier x (h.issued x hx)
  · intro x hx
    rw [hcore] at hx
    cases caller with
    | client => exact hfreed x hx
    | managers =>
        rcases List.mem_cons.mp hx with hx | hx
        · exact absurd hx.symm (hn rfl x)
        · exact hfreed x hx
  · rw [hcore]
    cases caller with
    | client => exact h.unused
    | managers =>
        refine List.pairwise_cons.mpr ⟨?_, h.unused⟩
        rintro earlier he x rfl hx
        exact h.unreleased (hc rfl x hx) he

theorem handles_markReleased (w : World) (a : ArrayId) :
    (w.markReleased a).handles = w.handles := by
  simp only [handles, markReleased, Array.toList_modify]
  apply List.ext_getElem?
  intro i
  simp only [List.getElem?_map, List.getElem?_modify]
  by_cases hi : a.index = i <;> cases w.arrays.toList[i]? <;> simp [hi]

/-- The managers release an array: it is marked first. -/
theorem Ledger.releaseArray {w : World} {ns : List NativeArray} (h : w.Ledger ns)
    (hf : w.engine.kind.Fresh) (a : ArrayId) : (w.releaseArray a).1.Ledger ns := by
  rcases releaseArray_cases w a with ⟨hr, -, -⟩ | ⟨r, ha, hr, hv⟩
  · rw [hr]
    exact h
  · have hi : w.engine.Issues (w.releaseArray a).1.engine [] := by
      refine hv.issues hf ?_
      unfold World.releaseArray
      rw [ha]
      simp only [ReleaseMark.begin]
      have hm : r.mark.isSet = false := hr
      simp only [hm, Bool.not_false, if_true]
      exact nextHandle_callRelease _ _ _
    have hh : (w.releaseArray a).1.handles = w.handles := by
      have hs : (w.releaseArray a).1.handles = (w.markReleased a).handles := by
        simp only [handles, hv.arrays]
        rfl
      rw [hs, handles_markReleased]
    have harray : ∀ b, (w.releaseArray a).1.array? b = (w.markReleased a).array? b := by
      intro b
      simp only [array?, hv.arrays]
      rfl
    have hcore : (w.releaseArray a).1.coreCalls = .release r.handle :: w.coreCalls := hv.coreCalls
    refine ⟨by rw [hh]; exact h.distinct, ?_, ?_, ?_⟩
    · intro x hx
      rw [hh] at hx
      exact hi.earlier x (h.issued x hx)
    · intro x hx
      rw [hcore] at hx
      rcases List.mem_cons.mp hx with hx | hx
      · cases hx
        refine ⟨a, { r with mark := r.mark.begin.1 }, ?_, rfl, rfl⟩
        rw [harray, array?_markReleased, if_pos rfl, ha]
        rfl
      · obtain ⟨b, q, hb, hbx, hq⟩ := h.freed x hx
        by_cases hab : a = b
        · subst hab
          refine ⟨a, { q with mark := q.mark.begin.1 }, ?_, hbx, rfl⟩
          rw [harray, array?_markReleased, if_pos rfl, hb]
          rfl
        · refine ⟨b, q, ?_, hbx, hq⟩
          rw [harray, array?_markReleased, if_neg hab, hb]
    · rw [hcore, List.pairwise_cons]
      refine ⟨?_, h.unused⟩
      rintro earlier he x rfl hx
      rw [EngineCall.handles, List.mem_singleton] at hx
      subst hx
      exact h.unreleased ⟨a, r, ha, rfl, hr⟩ he

theorem Ledger.adopt {w : World} {n : NativeArray} {ns : List NativeArray}
    (h : w.Ledger (n :: ns)) : (w.adopt n).1.Ledger ns := by
  have hh : (w.adopt n).1.handles = w.handles ++ [n.handle] := by
    simp [handles, World.adopt, addArray]
  have heq : (w.adopt n).1.handles ++ ns.map NativeArray.handle =
      w.handles ++ (n :: ns).map NativeArray.handle := by
    rw [hh, List.map_cons, List.append_assoc, List.singleton_append]
  refine ⟨heq ▸ h.distinct, heq ▸ h.issued, ?_, h.unused⟩
  intro x hx
  obtain ⟨a, r, ha, hax, hr⟩ := h.freed x hx
  refine ⟨a, r, ?_, hax, hr⟩
  have hne : a.index ≠ w.arrays.size := by
    intro hc
    simp [array?, hc] at ha
  rw [array?_adopt, if_neg hne, ha]

/-! ### Moves keep the ledger -/

theorem eq_of_detach (w : World) (m : ManagerId) (key : Label) :
    (w.detach m key).1.engine = w.engine ∧ (w.detach m key).1.arrays = w.arrays ∧
      (w.detach m key).1.coreCalls = w.coreCalls := by
  rcases detach_cases w m key with h | ⟨r, x, -, -, h⟩ <;> rw [h] <;> exact ⟨rfl, rfl, rfl⟩

theorem eq_of_detachSub (w : World) (m c : ManagerId) :
    (w.detachSub m c).1.engine = w.engine ∧ (w.detachSub m c).1.arrays = w.arrays ∧
      (w.detachSub m c).1.coreCalls = w.coreCalls := by
  rcases detachSub_cases w m c with h | ⟨r, -, -, h⟩ <;> rw [h] <;> exact ⟨rfl, rfl, rfl⟩

theorem eq_of_newSub {w v : World} {p c : ManagerId} {d : Option Device}
    (h : w.newSub p d = .ok (v, c)) :
    v.engine = w.engine ∧ v.arrays = w.arrays ∧ v.coreCalls = w.coreCalls := by
  obtain ⟨r, -, -, rfl⟩ := newSub_eq_ok h
  exact ⟨rfl, rfl, rfl⟩

theorem eq_of_attach {w v : World} {m : ManagerId} {key : Label} {x : Resource}
    {old : Option Resource} (h : w.attach m key x = .ok (v, old)) :
    v.engine = w.engine ∧ v.arrays = w.arrays ∧ v.coreCalls = w.coreCalls := by
  obtain ⟨r, u, -, -, hu, rfl⟩ := attach_eq_ok h
  rcases hu with rfl | rfl <;> exact ⟨rfl, rfl, rfl⟩

/-- The engine stays of its kind. -/
theorem Move.kind {P : List Command → Prop} {p q : World × List NativeArray} (h : Move P p q) :
    q.1.engine.kind = p.1.engine.kind := by
  cases h with
  | noted | named | rooted | thread | base | hook | spent | adopt | hold | lost => rfl
  | sub w v ns p d c h => rw [(eq_of_newSub h).1]
  | attach w v ns m key x old hx h => rw [(eq_of_attach h).1]
  | detach w ns m key => rw [(eq_of_detach w m key).1]
  | detachSub w ns m c => rw [(eq_of_detachSub w m c).1]
  | armed w ns e hk => exact hk
  | releaseArray w ns a =>
      rcases releaseArray_cases w a with ⟨h, -, -⟩ | ⟨r, -, -, h⟩
      · rw [h]
      · exact h.kind
  | release w ns x => exact (heard_callRelease x).kind
  | read w ns caller x h => rfl
  | create w v ns caller r n h => exact (heard_of_callCreate h).kind
  | notCreated w v ns caller r f h => exact (heard_of_callCreate h).kind
  | invoke w v ns caller operation inputs ps made hx h => exact (heard_of_callInvoke h).kind
  | notInvoked w v ns caller operation inputs ps f hx h => exact (heard_of_callInvoke h).kind
  | invokeInto w ns caller operation inputs outputs ps hx =>
      exact (heard_callInvokeInto operation inputs outputs ps).kind

/-- **Moves keep the ledger**, whatever the engine answers. -/
theorem Move.ledger {P : List Command → Prop} {p q : World × List NativeArray} (h : Move P p q)
    (hf : p.1.engine.kind.Fresh) (hp : p.1.Ledger p.2) : q.1.Ledger q.2 := by
  cases h with
  | noted w ns e he =>
      refine hp.of_same rfl ?_ (fun _ => id)
      simp [coreCalls, record, he]
  | named | rooted | thread | base | hook | spent | hold =>
      exact hp.of_same rfl rfl (fun _ => id)
  | sub w v ns p d c h =>
      obtain ⟨he, ha, hc⟩ := eq_of_newSub h
      exact hp.of_same ha hc (he ▸ fun _ => id)
  | attach w v ns m key x old hx h =>
      obtain ⟨he, ha, hc⟩ := eq_of_attach h
      exact hp.of_same ha hc (he ▸ fun _ => id)
  | detach w ns m key =>
      obtain ⟨he, ha, hc⟩ := eq_of_detach w m key
      exact hp.of_same ha hc (he ▸ fun _ => id)
  | detachSub w ns m c =>
      obtain ⟨he, ha, hc⟩ := eq_of_detachSub w m c
      exact hp.of_same ha hc (he ▸ fun _ => id)
  | armed w ns e hk hh hc hac hai =>
      refine hp.of_same rfl rfl ?_
      intro x hx
      simpa only [Engine.Issued, hk, hh, hc] using hx
  | releaseArray w ns a => exact hp.releaseArray hf a
  | release w ns x =>
      have hv : w.Heard .client (.release x) (w.callRelease .client x).1 := heard_callRelease x
      exact hp.heard hv (fun h => by cases h) (fun h => by cases h) []
        (hv.issues hf (nextHandle_callRelease w .client x))
  | read w ns caller x h =>
      have hv : w.Heard caller (.read x) (w.callRead caller x).1 := heard_callRead x
      refine hp.heard hv ?_ (fun _ y hy => by cases hy) [] (hv.issues hf rfl)
      intro hm y hy
      rw [List.mem_singleton.mp hy]
      exact h hm
  | create w v ns caller r n h =>
      refine hp.heard (heard_of_callCreate h) ?_ (fun _ y hy => by cases hy) [n]
        (issues_callCreate hf h)
      intro _ y hy
      cases hy
  | notCreated w v ns caller r f h =>
      refine hp.heard (heard_of_callCreate h) ?_ (fun _ y hy => by cases hy) []
        (issues_callCreate hf h)
      intro _ y hy
      cases hy
  | invoke w v ns caller operation inputs ps made hx h =>
      exact hp.heard (heard_of_callInvoke h) hx (fun _ y hy => by cases hy) made
        (issues_callInvoke hf h)
  | notInvoked w v ns caller operation inputs ps f hx h =>
      have hv := heard_of_callInvoke h
      exact hp.heard hv hx (fun _ y hy => by cases hy) []
        (hv.issues hf (nextHandle_of_refused h))
  | invokeInto w ns caller operation inputs outputs ps hx =>
      have hv : w.Heard caller (.invokeInto operation inputs outputs ps)
          (w.callInvokeInto caller operation inputs outputs ps).1 :=
        heard_callInvokeInto operation inputs outputs ps
      exact hp.heard hv hx (fun _ y hy => by cases hy) []
        (hv.issues hf (nextHandle_callInvokeInto w caller operation inputs outputs ps))
  | adopt w n ns => exact hp.adopt
  | lost w n ns => exact hp.sublist (List.sublist_cons_self n ns)

theorem Moves.kind {P : List Command → Prop} {p q : World × List NativeArray} (h : Moves P p q) :
    q.1.engine.kind = p.1.engine.kind := by
  induction h with
  | refl => rfl
  | tail _ hm ih => exact hm.kind.trans ih

theorem Moves.ledger {P : List Command → Prop} {p q : World × List NativeArray} (h : Moves P p q)
    (hf : p.1.engine.kind.Fresh) (hp : p.1.Ledger p.2) : q.1.Ledger q.2 := by
  induction h with
  | refl => exact hp
  | tail hms hm ih =>
      refine hm.ledger ?_ ih
      rw [Moves.kind hms]
      exact hf

end World

end ArrayLifetimes
