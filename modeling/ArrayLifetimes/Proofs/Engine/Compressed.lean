/-
A matrix of compressed sparse rows.

The row pointers part the stored values into rows: a row has the positions from its pointer up to
the next one.  Each position has a column, and its value goes to that place of the row.  The
engine looks at one row after the other.  So it takes what has the right number of pointers and
columns, every pointer among the positions, and a column of the matrix at every position
of every row (`Compressed`); and the matrix has at each place the value of the last position in
its row that has its column, and zero where there is none (`Expands`).

Nothing here says that the pointers increase.  A row whose pointers run backwards is empty, and
rows may share positions or leave some out.
-/
import ArrayLifetimes.Proofs.Engine.Scatter
import Mathlib.Data.Nat.SuccPred
import Mathlib.Order.SuccPred.Archimedean

namespace ArrayLifetimes

namespace Sparse

/-- The position belongs to the row: it lies from the row's pointer up to the next. -/
def InRow (pointers : List Int) (row j : Nat) : Prop :=
  ∃ first last, pointers[row]? = some first ∧ pointers[row + 1]? = some last ∧
    first ≤ (j : Int) ∧ (j : Int) < last

/-- Row pointers and columns of a matrix with so many stored values. -/
structure Compressed (rows cols count : Nat) (pointers columns : List Int) : Prop where
  aligned : columns.length = count
  delimited : pointers.length = rows + 1
  /-- The pointers are looked at when there is a row. -/
  bounded : 0 < rows → ∀ p ∈ pointers, 0 ≤ p ∧ p ≤ (count : Int)
  inRange : ∀ row j, InRow pointers row j → ∃ c, columns[j]? = some c ∧ 0 ≤ c ∧ c < (cols : Int)

/-- The elements of a matrix, row by row, are the stored values. -/
structure Expands (rows cols : Nat) (t : DataType) (values : List Element)
    (pointers columns : List Int) (xs : List Element) : Prop where
  length : xs.length = rows * cols
  /-- At its place a row has the last of its values with that column. -/
  stored : ∀ row col j, row < rows → col < cols →
    IsGreatest {j | InRow pointers row j ∧ columns[j]? = some (col : Int)} j →
    xs[row * cols + col]? = values[j]?
  zero : ∀ row col, row < rows → col < cols →
    (∀ j, ¬ (InRow pointers row j ∧ columns[j]? = some (col : Int))) →
    xs[row * cols + col]? = some (Element.zero t)

/-! ### What the checks come to -/

section Checks

variable {width rows cols row : Nat} {data : List UInt8} {pointers columns : List Int}
  {pair : Int × Int} {pairs : List (Int × Int)} {ps : List Placement}

theorem checkedIndex_eq_ok {what : String} {index : Int} {bound i : Nat} :
    checkedIndex what index bound = .ok i ↔ 0 ≤ index ∧ index < bound ∧ i = index.toNat := by
  unfold checkedIndex
  by_cases h : 0 ≤ index ∧ index < bound
  · rw [if_pos h, Except.ok.injEq]
    exact ⟨fun he => ⟨h.1, h.2, he.symm⟩, fun he => he.2.2.symm⟩
  · rw [if_neg h]
    exact ⟨fun he => (by cases he), fun he => absurd ⟨he.1, he.2.1⟩ h⟩

theorem mapM_eq_ok {ε α β : Type} {f : α → Except ε β} {p : α → Prop} {g : α → β} {xs : List α}
    (h : ∀ x ∈ xs, ∀ y, f x = .ok y ↔ p x ∧ y = g x) {ys : List β} :
    xs.mapM f = .ok ys ↔ (∀ x ∈ xs, p x) ∧ ys = xs.map g := by
  induction xs generalizing ys with
  | nil =>
      rw [List.mapM_nil]
      exact ⟨fun he => ⟨by simp, (Except.ok.inj he).symm⟩, fun he => congrArg _ he.2.symm⟩
  | cons x xs ih =>
      have hrest := @ih (fun y hy => h y (List.mem_cons_of_mem _ hy))
      simp only [List.mapM_cons, bind_eq_ok, h x (List.mem_cons_self ..), hrest, pure, Except.pure,
        Except.ok.injEq, List.forall_mem_cons, List.map_cons]
      constructor
      · rintro ⟨_, ⟨hp, rfl⟩, _, ⟨hps, rfl⟩, rfl⟩
        exact ⟨⟨hp, hps⟩, rfl⟩
      · rintro ⟨⟨hp, hps⟩, rfl⟩
        exact ⟨_, ⟨hp, rfl⟩, _, ⟨hps, rfl⟩, rfl⟩

/-- Two pointers bound a row that can be read. -/
structure RowFits (cols : Nat) (columns : List Int) (pair : Int × Int) : Prop where
  first : 0 ≤ pair.1 ∧ pair.1 ≤ (columns.length : Int)
  last : 0 ≤ pair.2 ∧ pair.2 ≤ (columns.length : Int)
  columns : ∀ j : Nat, pair.1 ≤ (j : Int) → (j : Int) < pair.2 →
    ∃ c, columns[j]? = some c ∧ 0 ≤ c ∧ c < (cols : Int)

/-- The place of the value at a position. -/
def placeOf (cols : Nat) (columns : List Int) (row j : Nat) : Nat :=
  row * cols + (columns[j]?.getD 0).toNat

/-- The values of a row in their places. -/
def rowCells (width cols : Nat) (data : List UInt8) (columns : List Int) (row : Nat)
    (pair : Int × Int) : List Placement :=
  (List.range' pair.1.toNat (pair.2.toNat - pair.1.toNat)).map fun j =>
    (placeOf cols columns row j, cellAt width data j)

/-- The values of all rows from `row` on in their places. -/
def cellsFrom (width cols : Nat) (data : List UInt8) (columns : List Int) :
    Nat → List (Int × Int) → List Placement
  | _, [] => []
  | row, pair :: pairs =>
    rowCells width cols data columns row pair ++ cellsFrom width cols data columns (row + 1) pairs

theorem csrCell_eq_ok {j : Nat} {p : Placement} :
    csrCell width cols data columns row j = .ok p ↔
      (0 ≤ columns[j]?.getD 0 ∧ columns[j]?.getD 0 < (cols : Int)) ∧
        p = (placeOf cols columns row j, cellAt width data j) := by
  simp only [csrCell, bind_eq_ok, checkedIndex_eq_ok, pure, Except.pure, Except.ok.injEq]
  constructor
  · rintro ⟨_, ⟨hlo, hhi, rfl⟩, rfl⟩
    exact ⟨⟨hlo, hhi⟩, rfl⟩
  · rintro ⟨⟨hlo, hhi⟩, rfl⟩
    exact ⟨_, ⟨hlo, hhi, rfl⟩, rfl⟩

/-- Positions of a row that can be read, as numbers. -/
theorem mem_positions (hf : RowFits cols columns pair) {j : Nat} :
    (pair.1.toNat ≤ j ∧ j < pair.1.toNat + (pair.2.toNat - pair.1.toNat)) ↔
      pair.1 ≤ (j : Int) ∧ (j : Int) < pair.2 := by
  have hfirst := hf.first
  have hlast := hf.last
  omega

theorem csrRow_eq_ok :
    csrRow width cols data columns row pair = .ok ps ↔
      RowFits cols columns pair ∧ ps = rowCells width cols data columns row pair := by
  simp only [csrRow, bind_eq_ok, checkedIndex_eq_ok, mapM_eq_ok fun j _ p => csrCell_eq_ok (p := p)]
  constructor
  · rintro ⟨_, ⟨hlo, hhi, rfl⟩, _, ⟨hlo', hhi', rfl⟩, hcols, rfl⟩
    refine ⟨⟨⟨hlo, by omega⟩, ⟨hlo', by omega⟩, ?_⟩, rfl⟩
    intro j hj hj'
    have hlt : j < columns.length := by omega
    have hcol := hcols j (List.mem_range'_1.mpr ⟨by omega, by omega⟩)
    rw [List.getElem?_eq_getElem hlt, Option.getD_some] at hcol
    exact ⟨_, List.getElem?_eq_getElem hlt, hcol⟩
  · rintro ⟨hf, rfl⟩
    have hfirst := hf.first
    have hlast := hf.last
    refine ⟨_, ⟨hfirst.1, by omega, rfl⟩, _, ⟨hlast.1, by omega, rfl⟩, ?_, rfl⟩
    intro j hj
    obtain ⟨hle, hlt⟩ := (mem_positions hf).mp (List.mem_range'_1.mp hj)
    obtain ⟨c, hc, hrange⟩ := hf.columns j hle hlt
    rw [hc]
    exact hrange

theorem csrRows_eq_ok :
    csrRows width cols data columns row pairs = .ok ps ↔
      (∀ pair ∈ pairs, RowFits cols columns pair) ∧
        ps = cellsFrom width cols data columns row pairs := by
  induction pairs generalizing row ps with
  | nil =>
      rw [csrRows, cellsFrom, Except.ok.injEq]
      exact ⟨fun he => ⟨by simp, he.symm⟩, fun he => he.2.symm⟩
  | cons pair pairs ih =>
      simp only [csrRows, bind_eq_ok, csrRow_eq_ok, ih, pure, Except.pure, Except.ok.injEq,
        List.forall_mem_cons, cellsFrom]
      constructor
      · rintro ⟨_, ⟨hf, rfl⟩, _, ⟨hfs, rfl⟩, rfl⟩
        exact ⟨⟨hf, hfs⟩, rfl⟩
      · rintro ⟨⟨hf, hfs⟩, rfl⟩
        exact ⟨_, ⟨hf, rfl⟩, _, ⟨hfs, rfl⟩, rfl⟩

end Checks

/-! ### What is in the places -/

section Places

variable {width rows cols row col : Nat} {data : List UInt8} {columns : List Int}
  {pair : Int × Int} {pairs : List (Int × Int)}

/-- The positions of a row that have a column. -/
def positions (columns : List Int) (col : Nat) (pair : Int × Int) : Set Nat :=
  {j | (pair.1 ≤ (j : Int) ∧ (j : Int) < pair.2) ∧ columns[j]? = some (col : Int)}

theorem placeOf_eq_iff (hf : RowFits cols columns pair) {j : Nat}
    (hj : pair.1 ≤ (j : Int) ∧ (j : Int) < pair.2) :
    placeOf cols columns row j = row * cols + col ↔ columns[j]? = some (col : Int) := by
  obtain ⟨c, hc, hlo, hhi⟩ := hf.columns j hj.1 hj.2
  rw [placeOf, hc, Option.getD_some, Option.some.injEq]
  omega

/-- A value goes to its own row. -/
theorem eq_of_placeOf_eq (hf : RowFits cols columns pair) {row' j : Nat}
    (hj : pair.1 ≤ (j : Int) ∧ (j : Int) < pair.2) (hcol : col < cols)
    (h : placeOf cols columns row j = row' * cols + col) : row = row' := by
  obtain ⟨c, hc, hlo, hhi⟩ := hf.columns j hj.1 hj.2
  rw [placeOf, hc, Option.getD_some] at h
  have hpos : 0 < cols := Nat.lt_of_le_of_lt (Nat.zero_le col) hcol
  have hdiv := congrArg (· / cols) h
  simp only [Nat.mul_comm _ cols, Nat.mul_add_div hpos] at hdiv
  rw [Nat.div_eq_of_lt (by omega), Nat.div_eq_of_lt hcol] at hdiv
  exact hdiv

theorem lastAt_rowCells_of_greatest (hf : RowFits cols columns pair) {j : Nat}
    (h : IsGreatest (positions columns col pair) j) :
    lastAt (row * cols + col) (rowCells width cols data columns row pair) =
      some (cellAt width data j) := by
  have hgreatest : IsGreatest {j | pair.1.toNat ≤ j ∧
      j < pair.1.toNat + (pair.2.toNat - pair.1.toNat) ∧
      (placeOf cols columns row j == row * cols + col) = true} j := by
    have hset : {j | pair.1.toNat ≤ j ∧ j < pair.1.toNat + (pair.2.toNat - pair.1.toNat) ∧
        (placeOf cols columns row j == row * cols + col) = true} = positions columns col pair := by
      ext k
      rw [Set.mem_ofPred_eq, ← and_assoc, mem_positions hf, beq_iff_eq]
      exact and_congr_right fun hk => placeOf_eq_iff hf hk
    rw [hset]
    exact h
  rw [rowCells, lastAt_map, find?_reverse_range' hgreatest, Option.map_some]

theorem lastAt_rowCells_eq_none {row' : Nat} (hf : RowFits cols columns pair) (hcol : col < cols)
    (h : row = row' → ∀ j, j ∉ positions columns col pair) :
    lastAt (row' * cols + col) (rowCells width cols data columns row pair) = none := by
  rw [rowCells, lastAt_map, find?_reverse_range'_eq_none, Option.map_none]
  intro j hle hlt
  have hj := (mem_positions hf).mp ⟨hle, hlt⟩
  rw [beq_eq_false_iff_ne]
  intro he
  obtain rfl := eq_of_placeOf_eq hf hj hcol he
  exact h rfl j ⟨hj, (placeOf_eq_iff hf hj).mp he⟩

theorem lastAt_cellsFrom_of_lt {row' : Nat} (hf : ∀ pair ∈ pairs, RowFits cols columns pair)
    (hcol : col < cols) (h : row' < row) :
    lastAt (row' * cols + col) (cellsFrom width cols data columns row pairs) = none := by
  induction pairs generalizing row with
  | nil => rfl
  | cons pair pairs ih =>
      obtain ⟨hpair, hpairs⟩ := List.forall_mem_cons.mp hf
      rw [cellsFrom, lastAt_append, ih hpairs (Nat.lt_succ_of_lt h),
        lastAt_rowCells_eq_none hpair hcol fun he => absurd he (Nat.ne_of_gt h), Option.or_none]

/-- The places of a row are filled by the row alone. -/
theorem lastAt_cellsFrom (hf : ∀ pair ∈ pairs, RowFits cols columns pair) (hcol : col < cols)
    {k : Nat} (hk : pairs[k]? = some pair) :
    lastAt ((row + k) * cols + col) (cellsFrom width cols data columns row pairs) =
      lastAt ((row + k) * cols + col) (rowCells width cols data columns (row + k) pair) := by
  induction pairs generalizing row k with
  | nil => cases hk
  | cons p pairs ih =>
      obtain ⟨hpair, hpairs⟩ := List.forall_mem_cons.mp hf
      rw [cellsFrom, lastAt_append]
      cases k with
      | zero =>
          obtain rfl : p = pair := Option.some.inj hk
          rw [Nat.add_zero, lastAt_cellsFrom_of_lt hpairs hcol (Nat.lt_succ_self row),
            Option.none_or]
      | succ k =>
          have hother : row ≠ row + (k + 1) := by omega
          have hrow : row + (k + 1) = row + 1 + k := by omega
          rw [lastAt_rowCells_eq_none hpair hcol fun he => absurd he hother, Option.or_none, hrow]
          exact ih hpairs hk

end Places

/-! ### The whole matrix -/

section Matrix

variable {width rows cols : Nat} {data bytes : List UInt8} {pointers columns : List Int}
  {t : DataType} {values : List Element}

theorem getElem?_pairs {k : Nat} {pair : Int × Int} :
    (pointers.zip pointers.tail)[k]? = some pair ↔
      pointers[k]? = some pair.1 ∧ pointers[k + 1]? = some pair.2 := by
  rw [List.getElem?_zip_eq_some, List.getElem?_tail]

/-- A matrix has fewer rows than there are words. -/
theorem succ_lt_of_csr (hr : rows < Shape.wordLimit)
    (h : csr width rows cols data pointers columns = .ok bytes) : rows + 1 < Shape.wordLimit := by
  by_contra hle
  have hrows : rows = Shape.wordLimit - 1 := by omega
  have hcount : pointerCount rows = 0 := by rw [hrows]; decide
  unfold csr at h
  split at h
  · cases h
  · rename_i hlength
    rw [hcount, not_not] at hlength
    split at h
    · cases h
    · rw [hlength, if_pos (by rw [hrows]; decide)] at h
      cases h

/-- What the engine makes a matrix of. -/
theorem csr_eq_ok (hr : rows + 1 < Shape.wordLimit) :
    csr width rows cols data pointers columns = .ok bytes ↔
      (pointers.length = rows + 1 ∧ data.length = columns.length * width ∧
        ∀ pair ∈ pointers.zip pointers.tail, RowFits cols columns pair) ∧
      bytes = dense (rows * cols) width
        (cellsFrom width cols data columns 0 (pointers.zip pointers.tail)) := by
  have hcount : pointerCount rows = rows + 1 := Nat.mod_eq_of_lt hr
  rw [csr, hcount]
  by_cases hlength : pointers.length = rows + 1
  · by_cases hdata : data.length = columns.length * width
    · rw [if_neg (not_not.mpr hlength), if_neg (not_not.mpr hdata), if_neg (by omega)]
      cases hrows : csrRows width cols data columns 0 (pointers.zip pointers.tail) with
      | error fault =>
          refine ⟨fun he => (by cases he), fun ⟨⟨_, _, hf⟩, _⟩ => ?_⟩
          rw [csrRows_eq_ok.mpr ⟨hf, rfl⟩] at hrows
          cases hrows
      | ok ps =>
          obtain ⟨hf, rfl⟩ := csrRows_eq_ok.mp hrows
          exact ⟨fun he => ⟨⟨hlength, hdata, hf⟩, (Except.ok.inj he).symm⟩,
            fun he => congrArg _ he.2.symm⟩
    · rw [if_neg (not_not.mpr hlength), if_pos hdata]
      exact ⟨fun he => (by cases he), fun he => absurd he.1.2.1 hdata⟩
  · rw [if_pos hlength]
    exact ⟨fun he => (by cases he), fun he => absurd he.1.1 hlength⟩

/-- What is wrong with a matrix is an argument, if its row pointers can be counted. -/
theorem csr_eq_error (hr : rows + 1 < Shape.wordLimit) {f : EngineFault}
    (h : csr width rows cols data pointers columns = .error f) :
    ∃ fault, f = .error (.invalidArgument fault) := by
  have hcount : pointerCount rows = rows + 1 := Nat.mod_eq_of_lt hr
  unfold csr at h
  rw [hcount] at h
  split at h
  · exact ⟨_, (Except.error.inj h).symm⟩
  · split at h
    · exact ⟨_, (Except.error.inj h).symm⟩
    · split at h
      · rename_i hlength _ hlt
        omega
      · split at h
        · cases h
        · exact ⟨_, (Except.error.inj h).symm⟩

/-- Every pointer bounds a row, if there is one. -/
theorem forall_rowFits_iff (hlength : pointers.length = rows + 1) :
    (∀ pair ∈ pointers.zip pointers.tail, RowFits cols columns pair) ↔
      (0 < rows → ∀ p ∈ pointers, 0 ≤ p ∧ p ≤ (columns.length : Int)) ∧
        ∀ row j, InRow pointers row j → ∃ c, columns[j]? = some c ∧ 0 ≤ c ∧ c < (cols : Int) := by
  constructor
  · intro hf
    have hfits : ∀ k pair, (pointers.zip pointers.tail)[k]? = some pair → RowFits cols columns pair :=
      fun k pair hk => hf pair (List.mem_of_getElem? hk)
    constructor
    · intro hpos p hp
      obtain ⟨k, hk⟩ := List.mem_iff_getElem?.mp hp
      have hlt : k < pointers.length := (List.getElem?_eq_some_iff.mp hk).1
      cases k with
      | zero =>
          have hnext : pointers[0 + 1]? = some pointers[1] := List.getElem?_eq_getElem (by omega)
          exact (hfits 0 (p, pointers[1]) (getElem?_pairs.mpr ⟨hk, hnext⟩)).first
      | succ k =>
          have hbefore : pointers[k]? = some pointers[k] := List.getElem?_eq_getElem (by omega)
          exact (hfits k (pointers[k], p) (getElem?_pairs.mpr ⟨hbefore, hk⟩)).last
    · rintro row j ⟨first, last, hfirst, hlast, hle, hlt⟩
      exact (hfits row (first, last) (getElem?_pairs.mpr ⟨hfirst, hlast⟩)).columns j hle hlt
  · rintro ⟨hbounded, hrange⟩ pair hpair
    obtain ⟨k, hk⟩ := List.mem_iff_getElem?.mp hpair
    obtain ⟨hfirst, hlast⟩ := getElem?_pairs.mp hk
    have hpos : 0 < rows := by
      have hlt := (List.getElem?_eq_some_iff.mp hlast).1
      omega
    exact ⟨hbounded hpos _ (List.mem_of_getElem? hfirst), hbounded hpos _ (List.mem_of_getElem? hlast),
      fun j hle hlt => hrange k j ⟨_, _, hfirst, hlast, hle, hlt⟩⟩

/-- **A matrix is made just of what is compressed rows.** -/
theorem exists_csr_iff (hr : rows + 1 < Shape.wordLimit) (hx : ∀ x ∈ values, x.dataType = t) :
    (∃ bytes, csr t.width rows cols (encodeElements values) pointers columns = .ok bytes) ↔
      Compressed rows cols values.length pointers columns := by
  simp only [csr_eq_ok hr, exists_and_left, exists_eq, and_true, length_encodeElements hx]
  constructor
  · rintro ⟨hlength, hdata, hf⟩
    have haligned : columns.length = values.length :=
      (Nat.eq_of_mul_eq_mul_right t.width_pos hdata).symm
    obtain ⟨hbounded, hrange⟩ := (forall_rowFits_iff hlength).mp hf
    rw [haligned] at hbounded
    exact ⟨haligned, hlength, hbounded, hrange⟩
  · rintro ⟨haligned, hlength, hbounded, hrange⟩
    refine ⟨hlength, by rw [haligned], (forall_rowFits_iff hlength).mpr ⟨?_, hrange⟩⟩
    rw [haligned]
    exact hbounded

/-- The positions of a row that have a column end somewhere. -/
theorem exists_isGreatest_positions {col : Nat} {pair : Int × Int}
    (h : (positions columns col pair).Nonempty) : ∃ j, IsGreatest (positions columns col pair) j := by
  have hbound : BddAbove (positions columns col pair) :=
    ⟨columns.length, fun j hj => (List.getElem?_eq_some_iff.mp hj.2).1.le⟩
  exact hbound.exists_isGreatest_of_nonempty h

theorem mem_positions_iff {row col j : Nat} {pair : Int × Int}
    (h : (pointers.zip pointers.tail)[row]? = some pair) :
    j ∈ positions columns col pair ↔ InRow pointers row j ∧ columns[j]? = some (col : Int) := by
  obtain ⟨hfirst, hlast⟩ := getElem?_pairs.mp h
  refine and_congr_left fun _ => ⟨fun hj => ⟨_, _, hfirst, hlast, hj⟩, ?_⟩
  rintro ⟨first, last, hfirst', hlast', hj⟩
  obtain rfl := Option.some.inj (hfirst.symm.trans hfirst')
  obtain rfl := Option.some.inj (hlast.symm.trans hlast')
  exact hj

theorem cellAt_encodeElements (hx : ∀ x ∈ values, x.dataType = t) {j : Nat} {x : Element}
    (hj : values[j]? = some x) : cellAt t.width (encodeElements values) j = x.encode := by
  have hrow := rowOf_encodeElements hx 1 j
  obtain ⟨hlt, hget⟩ := List.getElem?_eq_some_iff.mp hj
  have hone : rowOf 1 values j = [x] := by
    rw [rowOf, Nat.mul_one, List.drop_eq_getElem_cons hlt, hget, List.take_succ_cons, List.take_zero]
  rw [Nat.one_mul, hone, encodeElements_singleton] at hrow
  exact hrow

/-- What the cell at a place of the matrix comes to. -/
structure Fills (t : DataType) (values : List Element) (pointers columns : List Int) (row col : Nat)
    (x : Element) : Prop where
  typed : x.dataType = t
  stored : ∀ j, IsGreatest {j | InRow pointers row j ∧ columns[j]? = some (col : Int)} j →
    values[j]? = some x
  zero : (∀ j, ¬ (InRow pointers row j ∧ columns[j]? = some (col : Int))) → x = Element.zero t

theorem exists_fills (hc : Compressed rows cols values.length pointers columns)
    (hx : ∀ x ∈ values, x.dataType = t) {row col : Nat} (hrow : row < rows) (hcol : col < cols) :
    ∃ x, Fills t values pointers columns row col x ∧
      (lastAt (row * cols + col) (cellsFrom t.width cols (encodeElements values) columns 0
        (pointers.zip pointers.tail))).getD (List.replicate t.width 0) = x.encode := by
  have hf : ∀ pair ∈ pointers.zip pointers.tail, RowFits cols columns pair :=
    (forall_rowFits_iff hc.delimited).mpr ⟨hc.aligned.symm ▸ hc.bounded, hc.inRange⟩
  have hlength : (pointers.zip pointers.tail).length = rows := by
    rw [List.length_zip, List.length_tail, hc.delimited]
    omega
  obtain ⟨pair, hpair⟩ : ∃ pair, (pointers.zip pointers.tail)[row]? = some pair :=
    ⟨_, List.getElem?_eq_getElem (hlength.symm ▸ hrow)⟩
  have hset : {j | InRow pointers row j ∧ columns[j]? = some (col : Int)} =
      positions columns col pair := Set.ext fun j => (mem_positions_iff hpair).symm
  have hmember : ∀ j, InRow pointers row j ∧ columns[j]? = some (col : Int) ↔
      j ∈ positions columns col pair := fun j => (mem_positions_iff hpair).symm
  have hlast : lastAt ((0 + row) * cols + col) (cellsFrom t.width cols (encodeElements values)
      columns 0 (pointers.zip pointers.tail)) =
      lastAt ((0 + row) * cols + col) (rowCells t.width cols (encodeElements values) columns (0 + row)
        pair) := lastAt_cellsFrom hf hcol hpair
  rw [Nat.zero_add] at hlast
  have hfits := hf pair (List.mem_of_getElem? hpair)
  rw [hlast]
  by_cases hne : (positions columns col pair).Nonempty
  · obtain ⟨j, hj⟩ := exists_isGreatest_positions hne
    have hlt : j < values.length := hc.aligned ▸ (List.getElem?_eq_some_iff.mp hj.1.2).1
    have hvalue := List.getElem?_eq_getElem hlt
    refine ⟨values[j], ⟨hx _ (List.getElem_mem hlt), ?_, ?_⟩, ?_⟩
    · intro k hk
      rw [hset] at hk
      rw [hk.unique hj, hvalue]
    · intro hnone
      exact absurd hj.1 fun hmem => hnone j ((hmember j).mpr hmem)
    · rw [lastAt_rowCells_of_greatest hfits hj, Option.getD_some, cellAt_encodeElements hx hvalue]
  · have hempty : ∀ j, j ∉ positions columns col pair := fun j hj => hne ⟨j, hj⟩
    refine ⟨Element.zero t, ⟨Element.dataType_zero t, ?_, fun _ => rfl⟩, ?_⟩
    · intro k hk
      exact absurd ((hmember k).mp hk.1) (hempty k)
    · rw [lastAt_rowCells_eq_none hfits hcol fun _ => hempty, Option.getD_none, Element.encode_zero]

/-- **What is made of compressed rows is their matrix.** -/
theorem exists_expands (hr : rows + 1 < Shape.wordLimit) (hx : ∀ x ∈ values, x.dataType = t)
    (h : csr t.width rows cols (encodeElements values) pointers columns = .ok bytes) :
    ∃ xs, bytes = encodeElements xs ∧ (∀ x ∈ xs, x.dataType = t) ∧
      Expands rows cols t values pointers columns xs := by
  have hc := (exists_csr_iff hr hx).mp ⟨_, h⟩
  have hplace : ∀ place, ∃ x : Element, place < rows * cols →
      Fills t values pointers columns (place / cols) (place % cols) x ∧
      (lastAt place (cellsFrom t.width cols (encodeElements values) columns 0
        (pointers.zip pointers.tail))).getD (List.replicate t.width 0) = x.encode := by
    intro place
    by_cases hlt : place < rows * cols
    · have hcols : 0 < cols := Nat.pos_of_ne_zero fun hz => by simp [hz] at hlt
      have hdiv : place / cols * cols + place % cols = place := Nat.div_add_mod' place cols
      obtain ⟨x, hfills, hlast⟩ := exists_fills hc hx (Nat.div_lt_of_lt_mul (Nat.mul_comm .. ▸ hlt))
        (Nat.mod_lt place hcols)
      rw [hdiv] at hlast
      exact ⟨x, fun _ => ⟨hfills, hlast⟩⟩
    · exact ⟨Element.zero t, fun hlt' => absurd hlt' hlt⟩
  choose entry hentry using hplace
  have hget : ∀ row col, row < rows → col < cols →
      ((List.range (rows * cols)).map entry)[row * cols + col]? = some (entry (row * cols + col)) ∧
      Fills t values pointers columns row col (entry (row * cols + col)) := by
    intro row col hrow hcol
    have hlt : row * cols + col < rows * cols := by
      calc row * cols + col < row * cols + cols := Nat.add_lt_add_left hcol _
        _ = (row + 1) * cols := (Nat.succ_mul row cols).symm
        _ ≤ rows * cols := Nat.mul_le_mul_right cols hrow
    have hcols : 0 < cols := Nat.lt_of_le_of_lt (Nat.zero_le col) hcol
    have hfills := (hentry _ hlt).1
    rw [Nat.mul_comm row cols, Nat.mul_add_div hcols, Nat.div_eq_of_lt hcol, Nat.add_zero,
      Nat.mul_add_mod, Nat.mod_eq_of_lt hcol, Nat.mul_comm cols row] at hfills
    refine ⟨?_, hfills⟩
    rw [List.getElem?_map, List.getElem?_range hlt, Option.map_some]
  refine ⟨(List.range (rows * cols)).map entry, ?_, ?_, ?_, ?_, ?_⟩
  · rw [((csr_eq_ok hr).mp h).2]
    have hcells : dense (rows * cols) (1 * t.width) (cellsFrom t.width cols (encodeElements values)
        columns 0 (pointers.zip pointers.tail)) =
        encodeElements ((List.range (rows * cols)).flatMap fun place => [entry place]) := by
      refine dense_eq_encode fun place hlt => ?_
      rw [Nat.one_mul, (hentry place hlt).2, encodeElements_singleton]
    rw [Nat.one_mul] at hcells
    rw [hcells, List.map_eq_flatMap]
  · intro x hmem
    obtain ⟨place, hlt, rfl⟩ := List.mem_map.mp hmem
    exact (hentry place (List.mem_range.mp hlt)).1.typed
  · rw [List.length_map, List.length_range]
  · intro row col j hrow hcol hj
    obtain ⟨hsome, hfills⟩ := hget row col hrow hcol
    rw [hsome, hfills.stored j hj]
  · intro row col hrow hcol hnone
    obtain ⟨hsome, hfills⟩ := hget row col hrow hcol
    rw [hsome, hfills.zero hnone]

end Matrix

end Sparse

end ArrayLifetimes
