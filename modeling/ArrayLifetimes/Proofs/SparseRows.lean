/-
Arrays from sparse rows.

A client gives the rows of an array that are not all zeros, as an array of their own, and for each
the index of the row that it is.  The manager looks at the two shapes and at the number of
indices, and the engine at the indices and at the length of the data, which it counts in bytes.
Together they take just what `Sparse.RowsOf` says, and the new array is what `Sparse.Spreads`
says: each row is the last one that is given for it, or zeros.
-/
import ArrayLifetimes.Proofs.DetachedStays
import ArrayLifetimes.Proofs.Engine.GivenRows
import ArrayLifetimes.Proofs.Machine.Making

namespace ArrayLifetimes

/-- Data of one shape is rows of another, which has so many rows of these dimensions. -/
structure Sparse.RowsOf (dataShape shape : Shape) (count : Nat) (indices : List Int) (rows : Nat)
    (row : List UInt64) : Prop where
  whole : ∃ d, shape.dims = d :: row ∧ d.toNat = rows
  given : ∃ d, dataShape.dims = d :: row ∧ d.toNat = indices.length
  counted : count = Shape.product dataShape.dims
  inRange : ∀ index ∈ indices, 0 ≤ index ∧ index < (rows : Int)

variable {shape dataShape : Shape} {t : DataType} {values : List Element} {indices : List Int}
  {row : List UInt64} {d : UInt64} {n : Nat}

theorem Shape.eq_product_of_byteLen (h : shape.byteLen t = some n) :
    n = product shape.dims * t.width := by
  obtain ⟨k, hk, rfl⟩ := exists_size_of_byteLen h
  rw [checkedSize_eq] at hk
  split at hk
  · rw [Option.some.inj hk]
  · cases hk

/-- If the dimensions are right, the indices and the number of elements decide. -/
theorem Sparse.rowsOf_iff {given : UInt64} (hdims : shape.dims = d :: row)
    (hdata : dataShape.dims = given :: row) (hcount : given.toNat = indices.length) {count rows : Nat}
    {row' : List UInt64} :
    RowsOf dataShape shape count indices rows row' ↔ rows = d.toNat ∧ row' = row ∧
      (∀ index ∈ indices, 0 ≤ index ∧ index < (d.toNat : Int)) ∧
      count = indices.length * Shape.product row := by
  have hproduct : Shape.product dataShape.dims = indices.length * Shape.product row := by
    rw [hdata, Shape.product_cons, hcount]
  constructor
  · rintro ⟨⟨d', hdims', rfl⟩, -, hcounted, hall⟩
    obtain ⟨rfl, rfl⟩ := List.cons.inj (hdims.symm.trans hdims')
    exact ⟨rfl, rfl, hall, hcounted.trans hproduct⟩
  · rintro ⟨rfl, rfl, hall, hcounted⟩
    exact ⟨⟨d, hdims, rfl⟩, ⟨given, hdata, hcount⟩, hcounted.trans hproduct.symm, hall⟩

/-- The manager looks at the dimensions. -/
theorem Allocation.descriptor_rowSparse_eq_ok {a : Descriptor} :
    (rowSparse t values dataShape indices shape).descriptor = .ok a ↔
      (∃ given rows row, dataShape.dims = given :: row ∧ shape.dims = rows :: row ∧
        given.toNat = indices.length) ∧
      a = ⟨shape, some t, none, .rowSparse (encodeElements values) indices⟩ := by
  rw [descriptor]
  constructor
  · intro h
    split at h
    · rename_i given dataRow rows row hdata hdims
      split at h
      · cases h
      · rename_i hrow
        rw [not_not] at hrow
        subst hrow
        split at h
        · cases h
        · rename_i hcount
          exact ⟨⟨given, rows, dataRow, hdata, hdims, not_not.mp hcount⟩, (Except.ok.inj h).symm⟩
    · cases h
  · rintro ⟨⟨given, rows, row, hdata, hdims, hcount⟩, rfl⟩
    simp only [hdata, hdims, ne_eq, not_true_eq_false, if_false, hcount]

/-- The engine tells the bytes of a row from the length of the array. -/
theorem Fill.run_rowSparse (hdims : shape.dims = d :: row) (draws : Draws) (position : Nat)
    (data : List UInt8) :
    (rowSparse data indices).run draws position shape t (d.toNat * Shape.product row * t.width) =
      (Sparse.rowSparse d.toNat (if d.toNat = 0 then 0 else Shape.product row * t.width) data indices
        (d.toNat * Shape.product row * t.width)).map fun bytes => ⟨bytes, 0⟩ := by
  have hrows : shape.get? 0 = some d.toNat := by
    rw [Shape.get?, hdims]
    rfl
  simp only [run, hrows, Sparse.rowBytes_eq]

namespace Machine

/-- What becomes of a request for an array of sparse rows. -/
structure Spread (s s' : Machine) (name : Name) (t : DataType) (values : List Element)
    (dataShape : Shape) (indices : List Int) (shape : Shape) (reply : Reply) : Prop where
  /-- It is granted just when the data is rows of the shape. -/
  granted : (∃ answer, reply = .answer answer) ↔ ∃ rows row,
    Sparse.RowsOf dataShape shape values.length indices rows row
  /-- Then there is a new array with these rows. -/
  made : ∀ answer, reply = .answer answer → ∃ rows row xs a r,
    Sparse.RowsOf dataShape shape values.length indices rows row ∧
    Sparse.Spreads rows (Shape.product row) t values indices xs ∧ Gains s s' name shape t xs a r

variable {order : VisitOrder} {s s' : Machine} {i : Nat} {m : ManagerId} {name : Name}
  {below : Stack .reply}

theorem spread_of_fault {f : Fault}
    (h : ¬ ∃ rows row, Sparse.RowsOf dataShape shape values.length indices rows row) :
    Spread s s' name t values dataShape indices shape (.fault f) where
  granted := by
    refine iff_of_false ?_ h
    rintro ⟨answer, hanswer⟩
    cases hanswer
  made answer hanswer := by cases hanswer

/-- **Sparse rows become their array.**  Over the host engine, in every state that can come up, an
open manager that is asked for an array of a size that can be allocated replies in one step.  It
makes the array just when the data, which is no longer than a buffer can be, is rows of the shape,
and every row of it is the last one that is given for it, or zeros. -/
theorem rowSparse_spread (hs : Reachable order .host s)
    (hst : s.Making i m name (.rowSparse t values dataShape indices shape) below)
    (hx : ∀ x ∈ values, x.dataType = t)
    (hbuffer : (encodeElements values).length ≤ Shape.byteLimit)
    (hl : shape.byteLen t = some n) (hle : n ≤ Host.addressSpace) :
    ∃ s' reply, s.stepAt order i = some s' ∧ s'.Replied i below reply ∧
      Spread s s' name t values dataShape indices shape reply := by
  cases hd : (Allocation.rowSparse t values dataShape indices shape).descriptor with
  | error f =>
      obtain ⟨s', hstep, hreplied⟩ := hst.mistaken order hd
      refine ⟨s', _, hstep, hreplied, spread_of_fault ?_⟩
      rintro ⟨rows, row, ⟨⟨d, hdims, -⟩, ⟨given, hdata, hcount⟩, -, -⟩⟩
      rw [Allocation.descriptor_rowSparse_eq_ok.mpr ⟨⟨given, d, row, hdata, hdims, hcount⟩, rfl⟩] at hd
      cases hd
  | ok a =>
      obtain ⟨⟨given, d, row, hdata, hdims, hcount⟩, rfl⟩ :=
        Allocation.descriptor_rowSparse_eq_ok.mp hd
      have hn : n = d.toNat * Shape.product row * t.width := by
        rw [Shape.eq_product_of_byteLen hl, hdims, Shape.product_cons]
      subst hn
      have hiff : (∃ rows row, Sparse.RowsOf dataShape shape values.length indices rows row) ↔
          (∀ index ∈ indices, 0 ≤ index ∧ index < (d.toNat : Int)) ∧
            values.length = indices.length * Shape.product row := by
        simp only [Sparse.rowsOf_iff hdims hdata hcount, exists_and_left, exists_eq_left]
      by_cases hright : (∀ index ∈ indices, 0 ≤ index ∧ index < (d.toNat : Int)) ∧
          values.length = indices.length * Shape.product row
      · obtain ⟨hall, hlength⟩ := hright
        obtain ⟨xs, hbytes, htyped, hspreads⟩ := Sparse.exists_spreads hx hall hlength rfl
        have hdata' := (Sparse.length_encodeElements_eq_iff hx hall).mpr hlength
        have hlimit : Shape.byteLimit < Shape.wordLimit := by decide
        obtain ⟨s', answer, a, r, hstep, hreplied, hgains⟩ :=
          hst.filled hs hd hl hle htyped fun draws position => by
            rw [Fill.run_rowSparse hdims,
              Sparse.rowSparse_eq_ok.mpr ⟨⟨hall, hdata', by omega⟩, rfl⟩, hbytes]
            rfl
        refine ⟨s', _, hstep, hreplied, ?_, ?_⟩
        · exact iff_of_true ⟨answer, rfl⟩ (hiff.mpr ⟨hall, hlength⟩)
        · intro _ _
          exact ⟨d.toNat, row, xs, a, r,
            (Sparse.rowsOf_iff hdims hdata hcount).mpr ⟨rfl, rfl, hall, hlength⟩, hspreads, hgains⟩
      · cases hrows : Sparse.rowSparse d.toNat
            (if d.toNat = 0 then 0 else Shape.product row * t.width) (encodeElements values) indices
            (d.toNat * Shape.product row * t.width) with
        | ok bytes =>
            obtain ⟨⟨hall, hdata', -⟩, -⟩ := Sparse.rowSparse_eq_ok.mp hrows
            exact absurd ⟨hall, (Sparse.length_encodeElements_eq_iff hx hall).mp hdata'⟩ hright
        | error f =>
            obtain ⟨s', hstep, hreplied⟩ := hst.refused hs hd hl hle fun draws position => by
              rw [Fill.run_rowSparse hdims, hrows]
              rfl
            exact ⟨s', _, hstep, hreplied, spread_of_fault (hiff.not.mpr hright)⟩

/-- A manager is about to make an array of three rows from three given ones, two of them for its
last row. -/
def spreading : List (Command × Nat) :=
  [(.base "p" none, 1),
    (.allocate "p" "a" (.rowSparse .int32
      [.int32 1, .int32 2, .int32 3, .int32 4, .int32 5, .int32 6] ⟨[3, 2]⟩ [2, 0, 2] ⟨[3, 2]⟩) none, 0)]

/-- The later one of them is in the array, and the row that nothing is given for is zeros. -/
theorem rowSparse_spread_repeated :
    (session spreading).Making 0 ⟨0⟩ "a" (.rowSparse .int32
      [.int32 1, .int32 2, .int32 3, .int32 4, .int32 5, .int32 6] ⟨[3, 2]⟩ [2, 0, 2] ⟨[3, 2]⟩) .top ∧
    ∃ reply, (session spreading).stepAt .byAge 0 = some (onward spreading) ∧
      (onward spreading).Replied 0 .top reply ∧
      Spread (session spreading) (onward spreading) "a" .int32
        [.int32 1, .int32 2, .int32 3, .int32 4, .int32 5, .int32 6] ⟨[3, 2]⟩ [2, 0, 2] ⟨[3, 2]⟩
        reply ∧
      ((onward spreading).world.arrayElements ⟨0⟩ none).2 =
        .ok [.int32 3, .int32 4, .int32 0, .int32 0, .int32 5, .int32 6] := by
  have hs : Reachable .byAge .host (session spreading) := reachable_replay .byAge _ _ _ _
  have hst : (session spreading).Making 0 ⟨0⟩ "a" (.rowSparse .int32
      [.int32 1, .int32 2, .int32 3, .int32 4, .int32 5, .int32 6] ⟨[3, 2]⟩ [2, 0, 2] ⟨[3, 2]⟩) .top :=
    ⟨by decide, ⟨0⟩, "p", none, by decide, rfl⟩
  have hi := stepAt_of_isSome .byAge (s := session spreading) (by decide)
  have hbytes : Shape.byteLen ⟨[3, 2]⟩ .int32 = some 24 := by decide
  obtain ⟨s', reply, hstep, hreplied, hspread⟩ :=
    rowSparse_spread hs hst (by decide) (by decide) hbytes (by decide)
  obtain rfl : onward spreading = s' := Option.some.inj (hi.symm.trans hstep)
  exact ⟨hst, reply, hi, hreplied, hspread, by decide +kernel⟩

end Machine

end ArrayLifetimes
