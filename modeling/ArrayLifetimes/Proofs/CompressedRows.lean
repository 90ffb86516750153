/-
Matrices from compressed sparse rows.

A client gives the values that are not zero, a column for each, and the row pointers.  The manager
looks at the rank of the shape and at the number of columns, and the engine at everything else
while it puts the values in their places.  Together they take just what
`Sparse.Compressed` says, and the new array is what `Sparse.Expands` says: at each place the last
value of the row that has the column, or zero.
-/
import ArrayLifetimes.Proofs.DetachedStays
import ArrayLifetimes.Proofs.Engine.Compressed
import ArrayLifetimes.Proofs.Machine.Making

namespace ArrayLifetimes

variable {shape : Shape} {t : DataType} {values : List Element} {pointers columns : List Int}
  {rows cols : Nat}

theorem Shape.rank_eq_two_iff :
    shape.rank = 2 ↔ ∃ rows cols, shape.matrixDims? = some (rows, cols) := by
  rw [rank, matrixDims?, List.length_eq_two]
  constructor
  · rintro ⟨a, b, h⟩
    exact ⟨a.toNat, b.toNat, by rw [h]⟩
  · rintro ⟨_, _, h⟩
    split at h
    · rename_i a b hdims
      exact ⟨a, b, hdims⟩
    · cases h

/-- What a request for a matrix comes to is decided by the engine, if rank and columns are
right. -/
theorem Allocation.descriptor_csr (hshape : shape.matrixDims? = some (rows, cols))
    (hcount : columns.length = values.length) :
    (csr t values pointers columns shape).descriptor =
      .ok ⟨shape, some t, none, .csr (encodeElements values) pointers columns⟩ := by
  have hrank : shape.rank = 2 := Shape.rank_eq_two_iff.mpr ⟨_, _, hshape⟩
  simp only [descriptor, hrank, hcount, ne_eq, not_true_eq_false, if_false]

theorem Allocation.exists_descriptor_csr_error (t : DataType) (pointers : List Int)
    (h : shape.rank ≠ 2 ∨ columns.length ≠ values.length) :
    ∃ f, (csr t values pointers columns shape).descriptor = .error f := by
  by_cases hrank : shape.rank = 2
  · have hcount := h.resolve_left (not_not.mpr hrank)
    exact ⟨_, by rw [descriptor, if_neg (not_not.mpr hrank), if_pos hcount]⟩
  · exact ⟨_, by rw [descriptor, if_pos hrank]⟩

theorem Fill.run_csr (hshape : shape.matrixDims? = some (rows, cols)) (draws : Draws)
    (position length : Nat) (data : List UInt8) :
    (csr data pointers columns).run draws position shape t length =
      (Sparse.csr t.width rows cols data pointers columns).map fun bytes => ⟨bytes, 0⟩ := by
  simp only [run, hshape]

namespace Machine

/-- What becomes of a request for a matrix. -/
structure Densified (s s' : Machine) (name : Name) (t : DataType) (values : List Element)
    (pointers columns : List Int) (shape : Shape) (reply : Reply) : Prop where
  /-- It is granted just when the input is compressed rows of that shape. -/
  granted : (∃ answer, reply = .answer answer) ↔ ∃ rows cols,
    shape.matrixDims? = some (rows, cols) ∧
    Sparse.Compressed rows cols values.length pointers columns
  /-- Then there is a new array with the elements of the matrix. -/
  made : ∀ answer, reply = .answer answer → ∃ rows cols xs a r,
    shape.matrixDims? = some (rows, cols) ∧
    Sparse.Expands rows cols t values pointers columns xs ∧ Gains s s' name shape t xs a r
  /-- Otherwise the reply is an error. -/
  refused : ∀ f, reply = .fault f → ∃ e, f = .manager e

variable {order : VisitOrder} {s s' : Machine} {i : Nat} {m : ManagerId} {name : Name}
  {below : Stack .reply}

theorem densified_of_error {e : ManagerError}
    (h : ¬ ∃ rows cols, shape.matrixDims? = some (rows, cols) ∧
      Sparse.Compressed rows cols values.length pointers columns) :
    Densified s s' name t values pointers columns shape (.fault (.manager e)) where
  granted := by
    refine iff_of_false ?_ h
    rintro ⟨answer, hanswer⟩
    cases hanswer
  made answer hanswer := by cases hanswer
  refused f hf := ⟨e, (Reply.fault.inj hf).symm⟩

/-- **Compressed sparse rows become their matrix.**  Over the host engine, in every state that can
come up, an open manager that is asked for a matrix of a size that can be allocated replies in one
step.  It makes the array just when the input is compressed rows of that shape, and every
element of it is the last stored value for its place, or zero. -/
theorem csr_densified (hs : Reachable order .host s)
    (hst : s.Making i m name (.csr t values pointers columns shape) below)
    (hx : ∀ x ∈ values, x.dataType = t) {n : Nat} (hl : shape.byteLen t = some n)
    (hle : n ≤ Host.addressSpace)
    (hrows : ∀ rows cols, shape.matrixDims? = some (rows, cols) → rows < Shape.wordLimit - 1) :
    ∃ s' reply, s.stepAt order i = some s' ∧ s'.Replied i below reply ∧
      Densified s s' name t values pointers columns shape reply := by
  by_cases hright : shape.rank = 2 ∧ columns.length = values.length
  · obtain ⟨hrank, hcount⟩ := hright
    obtain ⟨rows, cols, hshape⟩ := Shape.rank_eq_two_iff.mp hrank
    have hr : rows + 1 < Shape.wordLimit := by
      have hlt := hrows rows cols hshape
      omega
    have hd : (Allocation.csr t values pointers columns shape).descriptor = .ok _ :=
      Allocation.descriptor_csr hshape hcount
    have hiff : (∃ rows cols, shape.matrixDims? = some (rows, cols) ∧
        Sparse.Compressed rows cols values.length pointers columns) ↔
        ∃ bytes, Sparse.csr t.width rows cols (encodeElements values) pointers columns =
          .ok bytes := by
      simp only [Sparse.exists_csr_iff hr hx, hshape, Option.some.injEq, Prod.mk.injEq, and_assoc,
        exists_and_left, exists_eq_left']
    cases hcsr : Sparse.csr t.width rows cols (encodeElements values) pointers columns with
    | error f =>
        obtain ⟨fault, rfl⟩ := Sparse.csr_eq_error hr hcsr
        obtain ⟨s', hstep, hreplied⟩ := hst.refused hs hd hl hle fun draws position => by
          rw [Fill.run_csr hshape, hcsr]
          rfl
        refine ⟨s', _, hstep, hreplied, densified_of_error ?_⟩
        rw [hiff, hcsr]
        rintro ⟨bytes, hbytes⟩
        cases hbytes
    | ok bytes =>
        obtain ⟨xs, rfl, htyped, hexpands⟩ := Sparse.exists_expands hr hx hcsr
        obtain ⟨s', answer, a, r, hstep, hreplied, hmade⟩ :=
          hst.filled hs hd hl hle htyped fun draws position => by
            rw [Fill.run_csr hshape, hcsr]
            rfl
        refine ⟨s', _, hstep, hreplied, ?_, ?_, ?_⟩
        · exact iff_of_true ⟨answer, rfl⟩ (hiff.mpr ⟨_, hcsr⟩)
        · exact fun _ _ => ⟨rows, cols, xs, a, r, hshape, hexpands, hmade⟩
        · intro f hf
          cases hf
  · obtain ⟨f, hd⟩ := Allocation.exists_descriptor_csr_error t pointers (not_and_or.mp hright)
    obtain ⟨s', hstep, hreplied⟩ := hst.mistaken order hd
    refine ⟨s', _, hstep, hreplied, densified_of_error ?_⟩
    rintro ⟨rows, cols, hshape, hc⟩
    exact hright ⟨Shape.rank_eq_two_iff.mpr ⟨_, _, hshape⟩, hc.aligned⟩

/-- A manager is about to make a matrix of two rows, the first of which has two values for its last
place. -/
def expanding : List (Command × Nat) :=
  [(.base "p" none, 1),
    (.allocate "p" "a"
      (.csr .int32 [.int32 7, .int32 8, .int32 9] [0, 2, 3] [2, 2, 0] ⟨[2, 3]⟩) none, 0)]

/-- The second of them is in the matrix. -/
theorem csr_densified_repeated :
    (session expanding).Making 0 ⟨0⟩ "a"
      (.csr .int32 [.int32 7, .int32 8, .int32 9] [0, 2, 3] [2, 2, 0] ⟨[2, 3]⟩) .top ∧
    ∃ reply, (session expanding).stepAt .byAge 0 = some (onward expanding) ∧
      (onward expanding).Replied 0 .top reply ∧
      Densified (session expanding) (onward expanding) "a" .int32
        [.int32 7, .int32 8, .int32 9] [0, 2, 3] [2, 2, 0] ⟨[2, 3]⟩ reply ∧
      ((onward expanding).world.arrayElements ⟨0⟩ none).2 =
        .ok [.int32 0, .int32 0, .int32 8, .int32 9, .int32 0, .int32 0] := by
  have hs : Reachable .byAge .host (session expanding) := reachable_replay .byAge _ _ _ _
  have hst : (session expanding).Making 0 ⟨0⟩ "a"
      (.csr .int32 [.int32 7, .int32 8, .int32 9] [0, 2, 3] [2, 2, 0] ⟨[2, 3]⟩) .top :=
    ⟨by decide, ⟨0⟩, "p", none, by decide, rfl⟩
  have hi := stepAt_of_isSome .byAge (s := session expanding) (by decide)
  have hrows : ∀ rows cols, Shape.matrixDims? ⟨[2, 3]⟩ = some (rows, cols) →
      rows < Shape.wordLimit - 1 := by
    intro rows cols h
    cases h
    decide
  have hbytes : Shape.byteLen ⟨[2, 3]⟩ .int32 = some 24 := by decide
  obtain ⟨s', reply, hstep, hreplied, hdensified⟩ :=
    csr_densified hs hst (by decide) hbytes (by decide) hrows
  obtain rfl : onward expanding = s' := Option.some.inj (hi.symm.trans hstep)
  exact ⟨hst, reply, hi, hreplied, hdensified, by decide +kernel⟩

end Machine

end ArrayLifetimes
