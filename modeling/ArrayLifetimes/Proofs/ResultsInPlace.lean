/-
Results that go into an array.

An operation gives a result, and either a new array is made of it or its bytes go into an
array that is there.  Both ways compute the result first, from the buffers as they are, so it
does not matter whether the array is also an input.  The second way then looks at the array: it
has to be live, and to be of the data type and the number of bytes of the result.  It keeps its
shape, which may be another one than that of the result.

What the result is can be seen from the first way alone, in the buffer of the new array.
`Agrees` compares the two ways by it, in success and in failure.
-/
import ArrayLifetimes.Proofs.Engine.Books
import ArrayLifetimes.Proofs.Engine.Words

namespace ArrayLifetimes

/-- The bytes of the result can go into the buffer. -/
structure Buffer.CanHold (old result : Buffer) : Prop where
  dataType : old.dataType = result.dataType
  length : old.bytes.length = result.bytes.length

namespace Host

/-- The operation makes a new array with the buffer. -/
def Makes (h : Host) (operation : String) (inputs : List Handle) (ps : Params)
    (result : Buffer) : Prop :=
  ∃ k n, h.invoke operation inputs ps = .ok (k, n) ∧ k.buffers.get? n.handle = some result

/-- The array has got other bytes, and nothing else has changed. -/
structure Overwritten (h k : Host) (target : Handle) (old : Buffer) (bytes : List UInt8) :
    Prop where
  written : k.buffers.get? target = some { old with bytes }
  others : ∀ x, x ≠ target → k.buffers.get? x = h.buffers.get? x
  keys : k.buffers.keys = h.buffers.keys
  nextHandle : k.nextHandle = h.nextHandle
  allocated : k.allocated = h.allocated
  released : k.released = h.released
  draws : k.draws = h.draws ∧ k.drawn = h.drawn

/-- An operation into arrays, of which the first one counts, compared with the operation that
makes a new array. -/
structure Agrees (h : Host) (operation : String) (inputs : List Handle) (target : Handle)
    (others : List Handle) (ps : Params) : Prop where
  /-- It succeeds just when the other one would and the array can hold the result. -/
  succeeds : (∃ k, h.invokeInto operation inputs (target :: others) ps = .ok k) ↔
    ∃ result old, h.Makes operation inputs ps result ∧ h.buffers.get? target = some old ∧
      old.CanHold result
  /-- Then the array has the bytes of the result. -/
  overwrites : ∀ k result old, h.invokeInto operation inputs (target :: others) ps = .ok k →
    h.Makes operation inputs ps result → h.buffers.get? target = some old →
    h.Overwritten k target old result.bytes
  /-- It fails as the other one would. -/
  fails : ∀ e, h.invoke operation inputs ps = .error e →
    h.invokeInto operation inputs (target :: others) ps = .error e
  /-- If only the array is at fault, the error says so. -/
  dead : ∀ result, h.Makes operation inputs ps result → h.buffers.get? target = none →
    h.invokeInto operation inputs (target :: others) ps = .error (.invalidHandle target.number)
  mismatched : ∀ result old, h.Makes operation inputs ps result →
    h.buffers.get? target = some old → ¬ old.CanHold result →
    h.invokeInto operation inputs (target :: others) ps = .error (.invalidArgument
      (.outputMismatch old.shape old.dataType result.shape result.dataType))

variable {h k : Host} {operation : String} {inputs others : List Handle} {target : Handle}
  {ps : Params} {result old : Buffer} {e : EngineError}

/-! ### What both ways compute -/

theorem invoke_of_compute (hc : h.compute operation inputs ps = .ok result) :
    h.invoke operation inputs ps = .ok (h.insert result) := by
  unfold invoke
  rw [hc, ok_bind]
  rfl

theorem invoke_of_error (hc : h.compute operation inputs ps = .error e) :
    h.invoke operation inputs ps = .error e := by
  unfold invoke
  rw [hc, error_bind]

/-- The new array shows the result. -/
theorem makes_iff : h.Makes operation inputs ps result ↔
    h.compute operation inputs ps = .ok result := by
  have hshown : ∀ b, (h.insert b).1.buffers.get? (h.insert b).2.handle = some b := by
    intro b
    show (h.buffers.insert ⟨h.nextHandle⟩ b).get? ⟨h.nextHandle⟩ = some b
    rw [Keyed.get?_insert, if_pos rfl]
  constructor
  · intro hm
    obtain ⟨k, n, hi, hb⟩ := hm
    cases hc : h.compute operation inputs ps with
    | error f =>
        rw [invoke_of_error hc] at hi
        cases hi
    | ok r =>
        rw [invoke_of_compute hc] at hi
        have hpair : h.insert r = (k, n) := Except.ok.inj hi
        have hr := hshown r
        rw [hpair, hb] at hr
        rw [Option.some.inj hr]
  · intro hc
    exact ⟨_, _, invoke_of_compute hc, hshown result⟩

/-! ### What becomes of the array -/

theorem invokeInto_of_error (hc : h.compute operation inputs ps = .error e) :
    h.invokeInto operation inputs (target :: others) ps = .error e := by
  show (h.compute operation inputs ps >>= _) = _
  rw [hc, error_bind]

theorem invokeInto_of_dead (hc : h.compute operation inputs ps = .ok result)
    (ht : h.buffers.get? target = none) :
    h.invokeInto operation inputs (target :: others) ps =
      .error (.invalidHandle target.number) := by
  show (h.compute operation inputs ps >>= _) = _
  rw [hc, ok_bind]
  simp only [ht]

theorem invokeInto_of_live (hc : h.compute operation inputs ps = .ok result)
    (ht : h.buffers.get? target = some old) :
    h.invokeInto operation inputs (target :: others) ps =
      if old.bytes.length = result.bytes.length ∧ old.dataType = result.dataType then
        .ok { h with buffers := h.buffers.insert target { old with bytes := result.bytes } }
      else .error (.invalidArgument
        (.outputMismatch old.shape old.dataType result.shape result.dataType)) := by
  show (h.compute operation inputs ps >>= _) = _
  rw [hc, ok_bind]
  simp only [ht]

/-- **What can hold the result gets it**, and keeps its place in the table. -/
theorem exists_overwritten (hc : h.compute operation inputs ps = .ok result)
    (ht : h.buffers.get? target = some old) (hold : old.CanHold result) :
    ∃ k, h.invokeInto operation inputs (target :: others) ps = .ok k ∧
      h.Overwritten k target old result.bytes := by
  have hi : h.invokeInto operation inputs (target :: others) ps =
      .ok { h with buffers := h.buffers.insert target { old with bytes := result.bytes } } := by
    rw [invokeInto_of_live hc ht, if_pos ⟨hold.length, hold.dataType⟩]
  refine ⟨_, hi, ?_, ?_, ?_, rfl, rfl, rfl, rfl, rfl⟩
  · show (h.buffers.insert target _).get? target = _
    rw [Keyed.get?_insert, if_pos rfl]
  · intro x hx
    show (h.buffers.insert target _).get? x = _
    rw [Keyed.get?_insert, if_neg (Ne.symm hx)]
  · show (h.buffers.insert target _).keys = _
    rw [Keyed.keys_insert, if_pos (Keyed.mem_keys_of_get? ht)]

theorem invokeInto_of_not_canHold (hc : h.compute operation inputs ps = .ok result)
    (ht : h.buffers.get? target = some old) (hold : ¬ old.CanHold result) :
    h.invokeInto operation inputs (target :: others) ps = .error (.invalidArgument
      (.outputMismatch old.shape old.dataType result.shape result.dataType)) := by
  rw [invokeInto_of_live hc ht, if_neg]
  intro hsame
  exact hold ⟨hsame.2, hsame.1⟩

/-- The array that an operation went into can hold what the operation computed. -/
theorem exists_canHold_of_invokeInto
    (hi : h.invokeInto operation inputs (target :: others) ps = .ok k) :
    ∃ result old, h.compute operation inputs ps = .ok result ∧
      h.buffers.get? target = some old ∧ old.CanHold result := by
  cases hc : h.compute operation inputs ps with
  | error e =>
      rw [invokeInto_of_error hc] at hi
      cases hi
  | ok result =>
      cases ht : h.buffers.get? target with
      | none =>
          rw [invokeInto_of_dead hc ht] at hi
          cases hi
      | some old =>
          by_cases hold : old.CanHold result
          · exact ⟨result, old, rfl, rfl, hold⟩
          · rw [invokeInto_of_not_canHold hc ht hold] at hi
            cases hi

/-! ### The two ways compared -/

/-- **An operation into an array agrees with the operation that makes one**, in every state of the
engine and for all operations and inputs, of which the array may be one.  It succeeds just when
the other one would and the array is live and can hold the result; then the array has the bytes of
the result, and nothing else has changed.  It fails as the other one does, and if that one would
succeed, with an error about the array.  Without an array to go into it is refused, and the
engine is as it was. -/
theorem invokeInto_agrees (h : Host) (operation : String) (inputs : List Handle) (ps : Params) :
    (∀ target others, h.Agrees operation inputs target others ps) ∧
      h.invokeInto operation inputs [] ps = .error (.invalidArgument .missingOutput) ∧
      h.serve (.invokeInto operation inputs [] ps) = (h, none) := by
  refine ⟨?_, rfl, rfl⟩
  intro target others
  refine ⟨⟨?_, ?_⟩, ?_, ?_, ?_, ?_⟩
  · intro hk
    obtain ⟨k, hi⟩ := hk
    obtain ⟨result, old, hc, ht, hold⟩ := exists_canHold_of_invokeInto hi
    exact ⟨result, old, makes_iff.mpr hc, ht, hold⟩
  · intro hr
    obtain ⟨result, old, hm, ht, hold⟩ := hr
    obtain ⟨k, hi, -⟩ := exists_overwritten (makes_iff.mp hm) ht hold
    exact ⟨k, hi⟩
  · intro k result old hi hm ht
    obtain ⟨r, b, hc, hb, hold⟩ := exists_canHold_of_invokeInto hi
    obtain rfl : r = result := Except.ok.inj (hc.symm.trans (makes_iff.mp hm))
    obtain rfl : b = old := Option.some.inj (hb.symm.trans ht)
    obtain ⟨k', hi', hwritten⟩ : ∃ k', h.invokeInto operation inputs (target :: others) ps =
        .ok k' ∧ h.Overwritten k' target b r.bytes := exists_overwritten hc hb hold
    obtain rfl : k = k' := Except.ok.inj (hi.symm.trans hi')
    exact hwritten
  · intro e he
    cases hc : h.compute operation inputs ps with
    | error f =>
        rw [invoke_of_error hc] at he
        obtain rfl := Except.error.inj he
        exact invokeInto_of_error hc
    | ok r =>
        rw [invoke_of_compute hc] at he
        cases he
  · intro result hm ht
    exact invokeInto_of_dead (makes_iff.mp hm) ht
  · intro result old hm ht hold
    exact invokeInto_of_not_canHold (makes_iff.mp hm) ht hold

/-- An array is added to itself, and the sums go into it. -/
example :
    let before : Host :=
      { draws := fun _ => Binary64.zero
        buffers := ⟨[(⟨1⟩, ⟨[3, 200], ⟨[2]⟩, .uint8, .cpu⟩)]⟩ }
    (before.invokeInto "add" [⟨1⟩, ⟨1⟩] [⟨1⟩] []).toOption.map (·.buffers.entries) =
      some [(⟨1⟩, ⟨[6, 255], ⟨[2]⟩, .uint8, .cpu⟩)] := by
  decide +kernel

end Host

end ArrayLifetimes
