/-
Arrays of which some rows are given.

The engine takes the data of the given rows when it has the bytes of just so many rows, and
every index is one of a row of the array.  Their number of bytes is a word.  It may wrap around, but
then the last row is looked for past the end of the data; so nothing is made of data that is
too short (`rowSparse_eq_ok`).  A row of the array is the last one that is given for it, and
zeros if there is none (`Spreads`).

The bytes of a row are told from the length of the whole array.  They count as none if the
array has no rows, and they are none if its rows are empty; either way there is nothing to be
written.
-/
import ArrayLifetimes.Proofs.ElementCounts
import ArrayLifetimes.Proofs.Engine.Compressed

namespace ArrayLifetimes

namespace Sparse

/-- The rows of an array, each of so many elements, are the given ones. -/
structure Spreads (rows width : Nat) (t : DataType) (values : List Element) (indices : List Int)
    (xs : List Element) : Prop where
  length : xs.length = rows * width
  /-- A row is the last one that is given for it. -/
  given : ∀ row i, row < rows → IsGreatest {i : Nat | indices[i]? = some (row : Int)} i →
    rowOf width xs row = rowOf width values i
  zero : ∀ row, row < rows → (∀ i : Nat, indices[i]? ≠ some (row : Int)) →
    rowOf width xs row = List.replicate width (Element.zero t)

section Placements

variable {rows rowBytes length : Nat} {data bytes : List UInt8} {indices : List Int}
  {ps : List Placement}

/-- The given rows from a position on, in their places. -/
def givenCells (rowBytes : Nat) (data : List UInt8) (indices : List Int) (i : Nat) : List Placement :=
  (List.range' i (indices.length - i)).map fun k =>
    ((indices[k]?.getD 0).toNat, cellAt rowBytes data k)

theorem rowPlacements_eq_ok {i : Nat} {rest : List Int} (hrest : indices.drop i = rest) :
    rowPlacements rows rowBytes data i rest = .ok ps ↔
      (∀ index ∈ rest, 0 ≤ index ∧ index < (rows : Int)) ∧
      (∀ k, i ≤ k → k < indices.length → (k + 1) * rowBytes ≤ data.length) ∧
      ps = givenCells rowBytes data indices i := by
  induction rest generalizing i ps with
  | nil =>
      have hle : indices.length ≤ i := List.drop_eq_nil_iff.mp hrest
      rw [rowPlacements, givenCells, Nat.sub_eq_zero_of_le hle, List.range'_zero, List.map_nil,
        Except.ok.injEq]
      constructor
      · rintro rfl
        refine ⟨fun index hmem => (by cases hmem), ?_, rfl⟩
        intro k hk hlt
        omega
      · exact fun h => h.2.2.symm
  | cons index rest ih =>
      have hlt : i < indices.length := by
        by_contra hle
        rw [List.drop_eq_nil_iff.mpr (Nat.not_lt.mp hle)] at hrest
        cases hrest
      rw [List.drop_eq_getElem_cons hlt, List.cons.injEq] at hrest
      obtain ⟨hindex, hrest⟩ := hrest
      have hcells : givenCells rowBytes data indices i =
          (index.toNat, cellAt rowBytes data i) :: givenCells rowBytes data indices (i + 1) := by
        have hcount : indices.length - i = indices.length - (i + 1) + 1 := by omega
        rw [givenCells, hcount, List.range'_succ, List.map_cons, List.getElem?_eq_getElem hlt, hindex,
          Option.getD_some, givenCells]
      rw [List.forall_mem_cons, hcells, rowPlacements]
      cases hchecked : checkedIndex "row index" index rows with
      | error f =>
          refine iff_of_false (fun he => by cases he) fun h => ?_
          rw [checkedIndex_eq_ok.mpr ⟨h.1.1.1, h.1.1.2, rfl⟩] at hchecked
          cases hchecked
      | ok row =>
          obtain ⟨hlo, hhi, rfl⟩ := checkedIndex_eq_ok.mp hchecked
          by_cases hpast : data.length < (i + 1) * rowBytes
          · simp only [if_pos hpast, reduceCtorEq, false_iff]
            intro h
            have hreach := h.2.1 i (Nat.le_refl i) hlt
            omega
          · simp only [if_neg hpast, map_eq_ok, ih hrest]
            constructor
            · rintro ⟨_, ⟨hall, hreach, rfl⟩, rfl⟩
              refine ⟨⟨⟨hlo, hhi⟩, hall⟩, ?_, rfl⟩
              intro k hk hk'
              rcases Nat.eq_or_lt_of_le hk with rfl | hk
              · omega
              · exact hreach k hk hk'
            · rintro ⟨⟨-, hall⟩, hreach, rfl⟩
              exact ⟨_, ⟨hall, fun k hk => hreach k (by omega), rfl⟩, rfl⟩

/-- **What the engine makes an array of.**  Its data reaches all the rows that are given, so
their number of bytes is a word. -/
theorem rowSparse_eq_ok :
    rowSparse rows rowBytes data indices length = .ok bytes ↔
      ((∀ index ∈ indices, 0 ≤ index ∧ index < (rows : Int)) ∧
        data.length = indices.length * rowBytes ∧ indices.length * rowBytes < Shape.wordLimit) ∧
      bytes = dense (length / rowBytes) rowBytes (givenCells rowBytes data indices 0) := by
  have hdrop : indices.drop 0 = indices := List.drop_zero
  have hlimit : 0 < Shape.wordLimit := by decide
  unfold rowSparse
  by_cases hlength : data.length = givenBytes indices.length rowBytes
  · rw [if_neg (not_not.mpr hlength)]
    simp only [map_eq_ok, rowPlacements_eq_ok hdrop]
    constructor
    · rintro ⟨_, ⟨hall, hreach, rfl⟩, rfl⟩
      have hle : indices.length * rowBytes ≤ data.length := by
        cases hcount : indices.length with
        | zero => rw [Nat.zero_mul]; exact Nat.zero_le _
        | succ k => exact hreach k (Nat.zero_le k) (by omega)
      have hmod : givenBytes indices.length rowBytes ≤ indices.length * rowBytes := Nat.mod_le ..
      have hlt : givenBytes indices.length rowBytes < Shape.wordLimit := Nat.mod_lt _ hlimit
      refine ⟨⟨hall, ?_, ?_⟩, rfl⟩ <;> omega
    · rintro ⟨⟨hall, hdata, -⟩, rfl⟩
      refine ⟨_, ⟨hall, fun k _ hk => ?_, rfl⟩, rfl⟩
      rw [hdata]
      exact Nat.mul_le_mul_right rowBytes hk
  · rw [if_pos hlength]
    refine iff_of_false (fun he => by cases he) fun h => hlength ?_
    rw [givenBytes, Nat.mod_eq_of_lt h.1.2.2]
    exact h.1.2.1

theorem lastAt_givenCells_of_greatest
    (hall : ∀ index ∈ indices, 0 ≤ index ∧ index < (rows : Int)) {row i : Nat}
    (h : IsGreatest {i : Nat | indices[i]? = some (row : Int)} i) :
    lastAt row (givenCells rowBytes data indices 0) = some (cellAt rowBytes data i) := by
  have hset : {k | 0 ≤ k ∧ k < 0 + (indices.length - 0) ∧
      ((indices[k]?.getD 0).toNat == row) = true} = {i : Nat | indices[i]? = some (row : Int)} := by
    ext k
    rw [Set.mem_ofPred_eq, Set.mem_ofPred_eq, beq_iff_eq]
    constructor
    · rintro ⟨-, hk, hrow⟩
      have hlt : k < indices.length := by omega
      have hrange := hall _ (List.getElem_mem hlt)
      rw [List.getElem?_eq_getElem hlt, Option.getD_some] at hrow
      rw [List.getElem?_eq_getElem hlt, Option.some.injEq]
      omega
    · intro hk
      have hlt := (List.getElem?_eq_some_iff.mp hk).1
      rw [hk]
      exact ⟨Nat.zero_le k, by omega, rfl⟩
  rw [givenCells, lastAt_map, find?_reverse_range' (hset ▸ h), Option.map_some]

theorem lastAt_givenCells_eq_none
    (hall : ∀ index ∈ indices, 0 ≤ index ∧ index < (rows : Int)) {row : Nat}
    (h : ∀ i : Nat, indices[i]? ≠ some (row : Int)) :
    lastAt row (givenCells rowBytes data indices 0) = none := by
  rw [givenCells, lastAt_map, find?_reverse_range'_eq_none, Option.map_none]
  intro k _ hk
  have hlt : k < indices.length := by omega
  have hrange := hall _ (List.getElem_mem hlt)
  have hne := h k
  rw [List.getElem?_eq_getElem hlt, ne_eq, Option.some.injEq] at hne
  rw [beq_eq_false_iff_ne, List.getElem?_eq_getElem hlt, Option.getD_some]
  omega

end Placements

section Rows

variable {rows width : Nat} {t : DataType} {values : List Element} {indices : List Int}
  {bytes : List UInt8}

/-- The bytes of a row, told from the length of the array. -/
theorem rowBytes_eq (rows width : Nat) (t : DataType) :
    (if rows = 0 then 0 else rows * width * t.width / t.width / rows * t.width) =
      if rows = 0 then 0 else width * t.width := by
  by_cases h : rows = 0
  · rw [if_pos h, if_pos h]
  · rw [if_neg h, if_neg h, Nat.mul_div_cancel _ t.width_pos,
      Nat.mul_div_cancel_left _ (Nat.pos_of_ne_zero h)]

/-- Data is as long as its rows in bytes just when it is in elements. -/
theorem length_encodeElements_eq_iff (hx : ∀ x ∈ values, x.dataType = t)
    (hall : ∀ index ∈ indices, 0 ≤ index ∧ index < (rows : Int)) :
    (encodeElements values).length = indices.length * (if rows = 0 then 0 else width * t.width) ↔
      values.length = indices.length * width := by
  rw [length_encodeElements hx]
  by_cases h : rows = 0
  · have hnone : indices = [] := List.eq_nil_iff_forall_not_mem.mpr fun index hmem => by
      have hrange := hall index hmem
      omega
    rw [hnone, List.length_nil, Nat.zero_mul, Nat.zero_mul, Nat.mul_eq_zero]
    exact or_iff_left (Nat.ne_of_gt t.width_pos)
  · rw [if_neg h, ← Nat.mul_assoc]
    exact Nat.mul_right_cancel_iff t.width_pos

/-- What a row comes to. -/
structure RowFills (width : Nat) (t : DataType) (values : List Element) (indices : List Int)
    (row : Nat) (ys : List Element) : Prop where
  typed : ∀ y ∈ ys, y.dataType = t
  length : ys.length = width
  given : ∀ i : Nat, IsGreatest {i : Nat | indices[i]? = some (row : Int)} i →
    ys = rowOf width values i
  zero : (∀ i : Nat, indices[i]? ≠ some (row : Int)) → ys = List.replicate width (Element.zero t)

theorem exists_rowFills (hx : ∀ x ∈ values, x.dataType = t)
    (hall : ∀ index ∈ indices, 0 ≤ index ∧ index < (rows : Int))
    (hlength : values.length = indices.length * width) (row : Nat) :
    ∃ ys, RowFills width t values indices row ys ∧
      (lastAt row (givenCells (width * t.width) (encodeElements values) indices 0)).getD
        (List.replicate (width * t.width) 0) = encodeElements ys := by
  by_cases hne : {i : Nat | indices[i]? = some (row : Int)}.Nonempty
  · have hbound : BddAbove {i : Nat | indices[i]? = some (row : Int)} :=
      ⟨indices.length, fun i hi => (List.getElem?_eq_some_iff.mp hi).1.le⟩
    obtain ⟨i, hi⟩ := hbound.exists_isGreatest_of_nonempty hne
    have hlt := (List.getElem?_eq_some_iff.mp hi.1).1
    refine ⟨rowOf width values i, ⟨?_, ?_, ?_, ?_⟩, ?_⟩
    · exact fun y hy => hx y (List.mem_of_mem_drop (List.mem_of_mem_take hy))
    · exact length_rowOf (hlength ▸ Nat.mul_le_mul_right width hlt)
    · intro k hk
      rw [hk.unique hi]
    · exact fun hnone => absurd hi.1 (hnone i)
    · rw [lastAt_givenCells_of_greatest hall hi, Option.getD_some]
      exact rowOf_encodeElements hx width i
  · have hnone : ∀ i : Nat, indices[i]? ≠ some (row : Int) := fun i hi => hne ⟨i, hi⟩
    refine ⟨List.replicate width (Element.zero t), ⟨?_, ?_, ?_, fun _ => rfl⟩, ?_⟩
    · intro y hy
      rw [List.eq_of_mem_replicate hy, Element.dataType_zero]
    · exact List.length_replicate ..
    · exact fun i hi => absurd hi.1 (hnone i)
    · rw [lastAt_givenCells_eq_none hall hnone, Option.getD_none, encodeElements_zeros]

/-- **What is made of given rows has these rows**, and zeros elsewhere. -/
theorem exists_spreads (hx : ∀ x ∈ values, x.dataType = t)
    (hall : ∀ index ∈ indices, 0 ≤ index ∧ index < (rows : Int))
    (hlength : values.length = indices.length * width) {rowBytes : Nat}
    (hbytes : rowBytes = if rows = 0 then 0 else width * t.width) :
    ∃ xs, dense (rows * width * t.width / rowBytes) rowBytes
        (givenCells rowBytes (encodeElements values) indices 0) = encodeElements xs ∧
      (∀ x ∈ xs, x.dataType = t) ∧ Spreads rows width t values indices xs := by
  choose ys hys using exists_rowFills hx hall hlength
  have hrow : ∀ row, row < rows → rowOf width ((List.range rows).flatMap ys) row = ys row :=
    fun row hlt => rowOf_flatMap (fun r _ => (hys r).1.length) hlt
  refine ⟨(List.range rows).flatMap ys, ?_, ?_, ?_, ?_, ?_⟩
  · by_cases hzero : rowBytes = 0
    · have hempty : (List.range rows).flatMap ys = [] := by
        rw [List.flatMap_eq_nil_iff]
        intro row hmem
        have hrows : rows ≠ 0 := Nat.ne_zero_of_lt (List.mem_range.mp hmem)
        rw [if_neg hrows, hzero, eq_comm, Nat.mul_eq_zero] at hbytes
        rw [← List.length_eq_zero_iff, (hys row).1.length]
        exact hbytes.resolve_right (Nat.ne_of_gt t.width_pos)
      rw [hempty, hzero, Nat.div_zero, dense_eq, List.range_zero, List.flatMap_nil, encodeElements,
        List.flatMap_nil]
    · have hrows : rows ≠ 0 := fun h => hzero (by rw [hbytes, if_pos h])
      rw [if_neg hrows] at hbytes
      subst hbytes
      rw [Nat.mul_assoc, Nat.mul_div_cancel _ (Nat.pos_of_ne_zero hzero)]
      exact dense_eq_encode fun row _ => (hys row).2
  · intro x hmem
    obtain ⟨row, -, hx'⟩ := List.mem_flatMap.mp hmem
    exact (hys row).1.typed x hx'
  · rw [length_flatMap_of_length fun row _ => (hys row).1.length, List.length_range]
  · intro row i hlt hi
    rw [hrow row hlt, (hys row).1.given i hi]
  · intro row hlt hnone
    rw [hrow row hlt, (hys row).1.zero hnone]

end Rows

end Sparse

end ArrayLifetimes
