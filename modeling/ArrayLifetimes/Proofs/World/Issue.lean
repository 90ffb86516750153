/-
Handles that an engine gives.

The engines in host memory number the arrays that they make, so they never give a handle
twice.  Of a foreign engine it has to be assumed: that is `Fresh`.  `Issues` says of a call
which handles the engine gave in answer to it, all of them for the first time.
-/
import ArrayLifetimes.Proofs.World.Move

namespace ArrayLifetimes

/-! ### Engines that give no handle twice -/

namespace Foreign

/-- The handles of the arrays that the engine makes in answer to the latest call. -/
def made (f : Foreign) : List EngineCall → List Handle
  | .create r :: earlier => (f.create (.create r :: earlier)).toOption.toList
  | .invoke operation inputs ps :: earlier =>
    ((f.invoke (.invoke operation inputs ps :: earlier)).toOption.getD []).map NativeArray.handle
  | _ => []

/-- The handles that the engine gave in answer to any of the calls. -/
def given (f : Foreign) : List EngineCall → List Handle
  | [] => []
  | c :: earlier => f.made (c :: earlier) ++ f.given earlier

/-- The engine never gives a handle twice. -/
def Fresh (f : Foreign) : Prop := ∀ calls, (f.given calls).Nodup

end Foreign

/-- Engines of the kind never give a handle twice. -/
def EngineKind.Fresh : EngineKind → Prop
  | foreign f => f.Fresh
  | _ => True

/-- The engine has given the handle to somebody. -/
def Engine.Issued (e : Engine) (x : Handle) : Prop :=
  match e.kind with
  | .foreign f => x ∈ f.given e.calls
  | _ => x.number < e.host.nextHandle

/-- Between two states, the engine has given just these handles, each for the first time. -/
structure Engine.Issues (e g : Engine) (xs : List Handle) : Prop where
  distinct : xs.Nodup
  unissued : ∀ x ∈ xs, ¬ e.Issued x
  issued : ∀ x ∈ xs, g.Issued x
  earlier : ∀ x, e.Issued x → g.Issued x

/-- Between two states, the host has numbered just these handles. -/
structure Host.Mints (h k : Host) (xs : List Handle) : Prop where
  distinct : xs.Nodup
  from_here : ∀ x ∈ xs, h.nextHandle ≤ x.number
  to_there : ∀ x ∈ xs, x.number < k.nextHandle
  le : h.nextHandle ≤ k.nextHandle

namespace Host

theorem Mints.none {h k : Host} (hk : k.nextHandle = h.nextHandle) : h.Mints k [] where
  distinct := List.nodup_nil
  from_here _ hx := by cases hx
  to_there _ hx := by cases hx
  le := Nat.le_of_eq hk.symm

theorem Mints.append {h k l : Host} {xs ys : List Handle} (h₁ : h.Mints k xs)
    (h₂ : k.Mints l ys) : h.Mints l (xs ++ ys) where
  distinct := by
    refine List.nodup_append.mpr ⟨h₁.distinct, h₂.distinct, ?_⟩
    rintro x hx y hy rfl
    have hlt := h₁.to_there x hx
    have hle := h₂.from_here x hy
    omega
  from_here x hx := by
    rcases List.mem_append.mp hx with hx | hx
    · exact h₁.from_here x hx
    · exact Nat.le_trans h₁.le (h₂.from_here x hx)
  to_there x hx := by
    rcases List.mem_append.mp hx with hx | hx
    · exact Nat.lt_of_lt_of_le (h₁.to_there x hx) h₂.le
    · exact h₂.to_there x hx
  le := Nat.le_trans h₁.le h₂.le

theorem mints_insert (h : Host) (b : Buffer) : h.Mints (h.insert b).1 [(h.insert b).2.handle] where
  distinct := by simp
  from_here x hx := by
    rw [List.mem_singleton.mp hx]
    exact Nat.le_refl _
  to_there x hx := by
    rw [List.mem_singleton.mp hx]
    exact Nat.lt_succ_self _
  le := Nat.le_succ _

theorem mints_create {h k : Host} {r : AllocationRequest} {n : NativeArray}
    (hc : h.create r = .ok (k, n)) : h.Mints k [n.handle] := by
  unfold create at hc
  split at hc
  · rename_i filled _
    simp only [Except.ok.injEq] at hc
    have hm := mints_insert { h with drawn := h.drawn + filled.drawn }
      ⟨filled.bytes, r.shape, r.dataType, r.device⟩
    rw [hc] at hm
    exact ⟨hm.distinct, hm.from_here, hm.to_there, hm.le⟩
  · cases hc

theorem mints_invoke {h k : Host} {operation : String} {inputs : List Handle} {ps : Params}
    {n : NativeArray} (hc : h.invoke operation inputs ps = .ok (k, n)) :
    h.Mints k [n.handle] := by
  simp only [invoke, bind_eq_ok, pure, Except.pure, Except.ok.injEq] at hc
  obtain ⟨b, -, hb⟩ := hc
  have hm := mints_insert h b
  rwa [hb] at hm

theorem nextHandle_release {h k : Host} {x : Handle} (hr : h.release x = .ok k) :
    k.nextHandle = h.nextHandle := by
  unfold release at hr
  split at hr <;> cases hr
  rfl

theorem nextHandle_invokeInto {h k : Host} {operation : String} {inputs outputs : List Handle}
    {ps : Params} (hi : h.invokeInto operation inputs outputs ps = .ok k) :
    k.nextHandle = h.nextHandle := by
  unfold invokeInto at hi
  split at hi
  · cases hi
  · simp only [bind_eq_ok] at hi
    obtain ⟨b, -, hi⟩ := hi
    split at hi
    · cases hi
    · split at hi <;> cases hi
      rfl

end Host

namespace Engine

theorem mints_copies {h k : Host} {inputs : List Handle} {ps : Params} {count : Nat}
    {ns : List NativeArray} (hc : copies h inputs ps count = .ok (k, ns)) :
    h.Mints k (ns.map NativeArray.handle) := by
  induction count generalizing h k ns with
  | zero =>
      cases hc
      exact .none rfl
  | succ count ih =>
      simp only [copies, bind_eq_ok, pure, Except.pure, Except.ok.injEq, Prod.mk.injEq] at hc
      obtain ⟨⟨h₁, n⟩, hn, ⟨h₂, rest⟩, hrest, rfl, rfl⟩ := hc
      exact (Host.mints_invoke hn).append (ih hrest)

/-- What the host numbers, an engine on the host issues. -/
theorem issues_of_mints {e g : Engine} {xs : List Handle} (hk : g.kind = e.kind)
    (hn : ∀ f, e.kind ≠ .foreign f) (h : e.host.Mints g.host xs) : e.Issues g xs := by
  have issued_iff : ∀ d : Engine, d.kind = e.kind → ∀ x,
      d.Issued x ↔ x.number < d.host.nextHandle := by
    intro d hd x
    unfold Issued
    rw [hd]
    split
    · rename_i f hf
      exact absurd hf (hn f)
    · exact Iff.rfl
  refine ⟨h.distinct, ?_, ?_, ?_⟩
  · intro x hx
    rw [issued_iff e rfl]
    exact Nat.not_lt.mpr (h.from_here x hx)
  · intro x hx
    exact (issued_iff g hk x).mpr (h.to_there x hx)
  · intro x hx
    exact (issued_iff g hk x).mpr (Nat.lt_of_lt_of_le ((issued_iff e rfl x).mp hx) h.le)

/-- What a foreign engine makes in answer to a call, it issues. -/
theorem issues_made {e g : Engine} {f : Foreign} {c : EngineCall} (hf : f.Fresh)
    (he : e.kind = .foreign f) (hg : g.kind = .foreign f) (hc : g.calls = c :: e.calls) :
    e.Issues g (f.made (c :: e.calls)) := by
  have hd := hf (c :: e.calls)
  simp only [Foreign.given, List.nodup_append] at hd
  obtain ⟨hmade, -, hdisjoint⟩ := hd
  refine ⟨hmade, ?_, ?_, ?_⟩
  · intro x hx hi
    simp only [Issued, he] at hi
    exact hdisjoint x hx x hi rfl
  · intro x hx
    simp only [Issued, hg, hc, Foreign.given]
    exact List.mem_append_left _ hx
  · intro x hx
    simp only [Issued, he] at hx
    simp only [Issued, hg, hc, Foreign.given]
    exact List.mem_append_right _ hx

theorem Issues.none {e g : Engine} {xs : List Handle} (h : e.Issues g xs) : e.Issues g [] where
  distinct := List.nodup_nil
  unissued _ hx := by cases hx
  issued _ hx := by cases hx
  earlier := h.earlier

/-- After any call, what was issued before is. -/
theorem issues_nothing {e g : Engine} {c : EngineCall} (hf : e.kind.Fresh) (hk : g.kind = e.kind)
    (hc : g.calls = c :: e.calls) (hh : g.host.nextHandle = e.host.nextHandle) :
    e.Issues g [] := by
  cases he : e.kind with
  | foreign f =>
      rw [he] at hf hk
      exact (issues_made hf he hk hc).none
  | host | recording | bare | lying =>
      refine issues_of_mints hk ?_ (.none hh)
      intro f
      simp [he]

theorem issues_create {e g : Engine} {r : AllocationRequest}
    {answer : Except EngineFault NativeArray} (hf : e.kind.Fresh)
    (h : (e.hear (.create r)).create r = (g, answer)) :
    e.Issues g (answer.toOption.toList.map NativeArray.handle) := by
  unfold create at h
  split at h
  · rename_i f he
    simp only [Prod.mk.injEq] at h
    obtain ⟨rfl, rfl⟩ := h
    replace he : e.kind = .foreign f := he
    rw [he] at hf
    have hm := issues_made (g := e.hear (.create r)) hf he he rfl
    simp only [Foreign.made] at hm
    have hc : (e.hear (.create r)).calls = .create r :: e.calls := rfl
    rw [hc]
    cases hr : f.create (.create r :: e.calls) <;> rw [hr] at hm <;> exact hm
  · rename_i hn
    unfold createHosted at h
    split at h
    · cases h
      exact issues_of_mints rfl hn (.none rfl)
    · split at h
      · rename_i hc
        cases h
        exact issues_of_mints rfl hn (Host.mints_create hc)
      · cases h
        exact issues_of_mints rfl hn (.none rfl)

theorem nextHandle_release {e g : Engine} {x : Handle} {answer : Except EngineFault Unit}
    (h : e.release x = (g, answer)) : g.host.nextHandle = e.host.nextHandle := by
  unfold release releaseHosted at h
  split at h
  · cases h
    rfl
  · split at h
    · cases h
      rfl
    · split at h
      · cases h
        rfl
      · split at h
        · rename_i hr
          cases h
          exact Host.nextHandle_release hr
        · cases h
          rfl

theorem mints_invokeHosted {e g : Engine} {operation : String} {inputs : List Handle} {ps : Params}
    {ns : List NativeArray} (h : e.invokeHosted operation inputs ps = .ok (g, ns)) :
    e.host.Mints g.host (ns.map NativeArray.handle) := by
  have single : ∀ {g ns}, (e.host.invoke operation inputs ps >>= fun made =>
        Except.ok ({ e with host := made.1 }, [made.2])) = .ok (g, ns) →
      e.host.Mints g.host (ns.map NativeArray.handle) := by
    intro g ns h
    obtain ⟨made, hmade, h⟩ := bind_eq_ok.mp h
    cases h
    exact Host.mints_invoke hmade
  unfold invokeHosted at h
  split at h
  · exact single h
  · split at h
    · split at h
      · cases h
      · simp only [bind_eq_ok, pure, Except.pure, Except.ok.injEq, Prod.mk.injEq] at h
        obtain ⟨⟨k, made⟩, hmade, rfl, rfl⟩ := h
        exact mints_copies hmade
    · exact single h
  · cases h

theorem issues_invoke {e g : Engine} {operation : String} {inputs : List Handle} {ps : Params}
    {ns : List NativeArray} (hf : e.kind.Fresh)
    (h : (e.hear (.invoke operation inputs ps)).invoke operation inputs ps = .ok (g, ns)) :
    e.Issues g (ns.map NativeArray.handle) := by
  have hg := World.eq_of_invoke h
  have hk : g.kind = e.kind := by
    rw [hg]
    rfl
  unfold invoke at h
  split at h
  · rename_i f he
    replace he : e.kind = .foreign f := he
    have hc : (e.hear (.invoke operation inputs ps)).calls =
      .invoke operation inputs ps :: e.calls := rfl
    rw [hc] at h
    rw [he] at hf
    have hm := issues_made (g := e.hear (.invoke operation inputs ps)) hf he he rfl
    cases hi : f.invoke (.invoke operation inputs ps :: e.calls) with
    | error x => simp [hi, Except.map] at h
    | ok made =>
        simp only [hi, Except.map, Except.ok.injEq, Prod.mk.injEq] at h
        obtain ⟨rfl, rfl⟩ := h
        simp only [Foreign.made, hi] at hm
        exact hm
  · rename_i hn
    have hm := mints_invokeHosted (mapError_eq_ok.mp h)
    exact issues_of_mints hk hn hm

theorem nextHandle_invokeInto {e g : Engine} {operation : String} {inputs outputs : List Handle}
    {ps : Params} (h : e.invokeInto operation inputs outputs ps = .ok g) :
    g.host.nextHandle = e.host.nextHandle := by
  unfold invokeInto at h
  split at h
  · rename_i f _
    cases hf : f.invokeInto e.calls with
    | error x => simp [hf, Except.map] at h
    | ok u =>
        simp only [hf, Except.map, Except.ok.injEq] at h
        rw [h]
  · have hg := mapError_eq_ok.mp h
    unfold invokeIntoHosted at hg
    split at hg
    · simp only [bind_eq_ok, pure, Except.pure, Except.ok.injEq] at hg
      obtain ⟨k, hk, rfl⟩ := hg
      exact Host.nextHandle_invokeInto hk
    · simp only [bind_eq_ok, pure, Except.pure, Except.ok.injEq] at hg
      obtain ⟨k, hk, rfl⟩ := hg
      exact Host.nextHandle_invokeInto hk
    · cases hg

end Engine

namespace World

/-! ### What calls issue -/

section Calls

variable {w v : World} {caller : Caller}

theorem issues_callCreate {r : AllocationRequest} {answer : Except EngineFault NativeArray}
    (hf : w.engine.kind.Fresh) (h : w.callCreate caller r = (v, answer)) :
    w.engine.Issues v.engine (answer.toOption.toList.map NativeArray.handle) := by
  unfold callCreate at h
  simp only at h
  split at h <;> rename_i hc <;> cases h <;> exact Engine.issues_create hf hc

theorem issues_callInvoke {operation : String} {inputs : List Handle} {ps : Params}
    {ns : List NativeArray} (hf : w.engine.kind.Fresh)
    (h : w.callInvoke caller operation inputs ps = (v, .ok ns)) :
    w.engine.Issues v.engine (ns.map NativeArray.handle) := by
  unfold callInvoke at h
  simp only at h
  split at h
  · rename_i g made hi
    cases h
    rw [noteAllocated_eq]
    exact Engine.issues_invoke hf hi
  · cases h

/-- A call that makes no array issues nothing. -/
theorem Heard.issues {c : EngineCall} (h : w.Heard caller c v) (hf : w.engine.kind.Fresh)
    (hn : v.engine.host.nextHandle = w.engine.host.nextHandle) : w.engine.Issues v.engine [] :=
  Engine.issues_nothing hf h.kind h.calls hn

theorem nextHandle_callRelease (w : World) (caller : Caller) (x : Handle) :
    (w.callRelease caller x).1.engine.host.nextHandle = w.engine.host.nextHandle := by
  unfold callRelease
  simp only
  split <;> rename_i hr <;> have hn := Engine.nextHandle_release hr <;> exact hn

theorem nextHandle_of_refused {operation : String} {inputs : List Handle} {ps : Params}
    {f : EngineFault} (h : w.callInvoke caller operation inputs ps = (v, .error f)) :
    v.engine.host.nextHandle = w.engine.host.nextHandle := by
  unfold callInvoke at h
  simp only at h
  split at h <;> cases h
  rfl

theorem nextHandle_callInvokeInto (w : World) (caller : Caller) (operation : String)
    (inputs outputs : List Handle) (ps : Params) :
    (w.callInvokeInto caller operation inputs outputs ps).1.engine.host.nextHandle =
      w.engine.host.nextHandle := by
  unfold callInvokeInto
  simp only
  split
  · rename_i hi
    have hn := Engine.nextHandle_invokeInto hi
    exact hn
  · rfl

end Calls

end World

end ArrayLifetimes
