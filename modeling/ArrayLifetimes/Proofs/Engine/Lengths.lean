/-
How many bytes a new array gets.

A shape and a data type say how many bytes an array takes.  Whatever fills the array, and
whatever operation it is the result of, gives it just as many.
-/
import ArrayLifetimes.Engine.Host
import ArrayLifetimes.Machine.Agenda
import Mathlib.Algebra.BigOperators.Group.List.Basic
import Mathlib.Data.List.Basic
import Mathlib.Data.List.GetD

namespace ArrayLifetimes

/-! ### Elements -/

@[simp] theorem Element.dataType_ofNumber (t : DataType) (x : Binary64) :
    (Element.ofNumber t x).dataType = t := by
  cases t <;> rfl

@[simp] theorem Element.length_encode (x : Element) : x.encode.length = x.dataType.width :=
  length_littleEndian _ _

theorem length_chunks (width count : Nat) (bytes : List UInt8) :
    (chunks width count bytes).length = count := by
  induction count generalizing bytes with
  | zero => rfl
  | succ count ih => rw [chunks, List.length_cons, ih]

theorem length_flatMap_of_length {α β : Type} {f : α → List β} {xs : List α} {n : Nat}
    (h : ∀ x ∈ xs, (f x).length = n) : (xs.flatMap f).length = xs.length * n := by
  rw [List.length_flatMap, List.map_congr_left h, List.map_const', List.sum_replicate_nat]

/-- The i-th of the rows of equal length that make up a list. -/
def rowOf {α : Type} (length : Nat) (xs : List α) (i : Nat) : List α :=
  (xs.drop (i * length)).take length

theorem length_rowOf {α : Type} {length i : Nat} {xs : List α} (h : (i + 1) * length ≤ xs.length) :
    (rowOf length xs i).length = length := by
  rw [Nat.succ_mul] at h
  rw [rowOf, List.length_take, List.length_drop]
  omega

theorem Buffer.length_numbers (b : Buffer) :
    b.numbers.length = b.bytes.length / b.dataType.width := by
  rw [numbers, decodeElements, List.length_map, List.length_map, length_chunks]

/-! ### Shapes -/

namespace Shape

variable {s : Shape} {t : DataType} {n k : Nat}

theorem checkedMul_eq_some {a b : Nat} (h : checkedMul a b = some k) : k = a * b := by
  unfold checkedMul at h
  split at h
  · exact (Option.some.inj h).symm
  · cases h

/-- A length in bytes is a number of elements of the width of the data type. -/
theorem exists_size_of_byteLen (h : s.byteLen t = some n) :
    ∃ k, s.checkedSize = some k ∧ n = k * t.width := by
  rw [byteLen, Option.filter_eq_some_iff] at h
  obtain ⟨k, hk, hmul⟩ := Option.bind_eq_some_iff.mp h.1
  exact ⟨k, hk, checkedMul_eq_some hmul⟩

theorem byteLen_congr {s' : Shape} (h : s.checkedSize = s'.checkedSize) (t : DataType) :
    s.byteLen t = s'.byteLen t := by
  rw [byteLen, byteLen, h]

/-- A product is a multiple of what it starts from. -/
theorem dvd_of_foldlM {ds : List UInt64} {a : Nat}
    (h : ds.foldlM (fun count d => checkedMul count d.toNat) a = some k) : a ∣ k := by
  induction ds generalizing a with
  | nil =>
      rw [List.foldlM_nil] at h
      cases h
      exact Nat.dvd_refl k
  | cons d ds ih =>
      rw [List.foldlM_cons] at h
      obtain ⟨b, hb, h⟩ := Option.bind_eq_some_iff.mp h
      rw [checkedMul_eq_some hb] at h
      exact Nat.dvd_trans (Nat.dvd_mul_right a d.toNat) (ih h)

theorem dvd_of_get?_zero (h : s.checkedSize = some k) {rows : Nat} (hr : s.get? 0 = some rows) :
    rows ∣ k := by
  obtain ⟨dims⟩ := s
  cases dims with
  | nil => cases hr
  | cons d ds =>
      obtain rfl : d.toNat = rows := Option.some.inj hr
      rw [checkedSize, List.foldlM_cons] at h
      obtain ⟨b, hb, h⟩ := Option.bind_eq_some_iff.mp h
      rw [checkedMul_eq_some hb, Nat.one_mul] at h
      exact dvd_of_foldlM h

theorem dvd_of_getLast? (h : s.checkedSize = some k) {d : UInt64}
    (hd : s.dims.getLast? = some d) : d.toNat ∣ k := by
  obtain ⟨ds, hds⟩ := List.getLast?_eq_some_iff.mp hd
  rw [checkedSize, hds, List.foldlM_append] at h
  obtain ⟨p, -, h⟩ := Option.bind_eq_some_iff.mp h
  rw [List.foldlM_cons] at h
  obtain ⟨q, hq, h⟩ := Option.bind_eq_some_iff.mp h
  rw [List.foldlM_nil] at h
  cases h
  rw [checkedMul_eq_some hq]
  exact Nat.dvd_mul_left _ _

theorem rows_lt_of_matrixDims? {rows cols : Nat} (h : s.matrixDims? = some (rows, cols)) :
    rows < wordLimit := by
  unfold matrixDims? at h
  split at h
  · rename_i a b _
    obtain ⟨rfl, rfl⟩ := Prod.mk.inj (Option.some.inj h)
    exact a.toNat_lt
  · cases h

theorem size_of_matrixDims? (h : s.checkedSize = some k) {rows cols : Nat}
    (hm : s.matrixDims? = some (rows, cols)) : k = rows * cols := by
  obtain ⟨dims⟩ := s
  unfold matrixDims? at hm
  split at hm
  · rename_i r c hdims
    obtain ⟨rfl, rfl⟩ := Prod.mk.inj (Option.some.inj hm)
    obtain rfl : dims = [r, c] := hdims
    rw [checkedSize, List.foldlM_cons] at h
    obtain ⟨p, hp, h⟩ := Option.bind_eq_some_iff.mp h
    rw [List.foldlM_cons] at h
    obtain ⟨q, hq, h⟩ := Option.bind_eq_some_iff.mp h
    rw [List.foldlM_nil] at h
    cases h
    rw [checkedMul_eq_some hq, checkedMul_eq_some hp, Nat.one_mul]
  · cases hm

end Shape

/-! ### Sparse input -/

namespace Sparse

variable {width : Nat}

theorem size_scatter (cells : Array (List UInt8)) (placements : List Placement) :
    (scatter cells placements).size = cells.size := by
  induction placements generalizing cells with
  | nil => rfl
  | cons p placements ih =>
      have hrest := ih (cells.setIfInBounds p.1 p.2)
      rw [Array.size_setIfInBounds] at hrest
      exact hrest

theorem length_of_mem_scatter {cells : Array (List UInt8)} {placements : List Placement}
    (hc : ∀ c ∈ cells.toList, c.length = width) (hp : ∀ p ∈ placements, p.2.length = width) :
    ∀ c ∈ (scatter cells placements).toList, c.length = width := by
  induction placements generalizing cells with
  | nil => exact hc
  | cons p placements ih =>
      have hset : ∀ c ∈ (cells.setIfInBounds p.1 p.2).toList, c.length = width := by
        intro c hmem
        rw [Array.toList_setIfInBounds] at hmem
        rcases List.mem_or_eq_of_mem_set hmem with hmem | rfl
        · exact hc c hmem
        · exact hp p (List.mem_cons_self ..)
      exact ih hset fun q hq => hp q (List.mem_cons_of_mem _ hq)

theorem length_dense {count : Nat} {placements : List Placement}
    (hp : ∀ p ∈ placements, p.2.length = width) :
    (dense count width placements).length = count * width := by
  have hcells : ∀ c ∈ (Array.replicate count (List.replicate width (0 : UInt8))).toList,
      c.length = width := by
    intro c hc
    rw [Array.toList_replicate] at hc
    rw [List.eq_of_mem_replicate hc, List.length_replicate]
  have hsize := size_scatter (Array.replicate count (List.replicate width (0 : UInt8))) placements
  rw [Array.size_replicate] at hsize
  rw [dense, ← List.flatMap_id,
    length_flatMap_of_length (f := id) (length_of_mem_scatter hcells hp),
    Array.length_toList, hsize]

theorem length_cellAt {data : List UInt8} {count j : Nat} (hd : data.length = count * width)
    (hj : j < count) : (cellAt width data j).length = width :=
  length_rowOf (hd ▸ Nat.mul_le_mul_right width hj)

theorem checkedIndex_lt {what : String} {index : Int} {bound i : Nat}
    (h : checkedIndex what index bound = .ok i) : i < bound := by
  unfold checkedIndex at h
  split at h
  · cases h
    omega
  · cases h

theorem exists_of_mem_mapM {ε α β : Type} {f : α → Except ε β} {xs : List α} {ys : List β}
    (h : xs.mapM f = .ok ys) : ∀ y ∈ ys, ∃ x ∈ xs, f x = .ok y := by
  induction xs generalizing ys with
  | nil =>
      cases h
      intro y hy
      cases hy
  | cons x xs ih =>
      simp only [List.mapM_cons, bind_eq_ok, pure, Except.pure, Except.ok.injEq] at h
      obtain ⟨b, hb, bs, hbs, rfl⟩ := h
      intro y hy
      rcases List.mem_cons.mp hy with rfl | hy
      · exact ⟨x, List.mem_cons_self .., hb⟩
      · obtain ⟨z, hz, hzy⟩ := ih hbs y hy
        exact ⟨z, List.mem_cons_of_mem _ hz, hzy⟩

/-- The cells of stored values are as wide as an element. -/
theorem length_of_mem_csrRow {cols row : Nat} {data : List UInt8} {columns : List Int}
    (hd : data.length = columns.length * width) {pointers : Int × Int} {ps : List Placement}
    (h : csrRow width cols data columns row pointers = .ok ps) :
    ∀ p ∈ ps, p.2.length = width := by
  simp only [csrRow, bind_eq_ok] at h
  obtain ⟨first, -, last, hlast, h⟩ := h
  have hle := checkedIndex_lt hlast
  intro p hp
  obtain ⟨j, hj, hcell⟩ := exists_of_mem_mapM h p hp
  simp only [csrCell, bind_eq_ok, pure, Except.pure, Except.ok.injEq] at hcell
  obtain ⟨col, -, rfl⟩ := hcell
  have hlt := List.mem_range'_1.mp hj
  exact length_cellAt hd (by omega)

theorem length_of_mem_csrRows {cols row : Nat} {data : List UInt8} {columns : List Int}
    (hd : data.length = columns.length * width) {rows : List (Int × Int)} {ps : List Placement}
    (h : csrRows width cols data columns row rows = .ok ps) : ∀ p ∈ ps, p.2.length = width := by
  induction rows generalizing row ps with
  | nil =>
      cases h
      intro p hp
      cases hp
  | cons pointers rows ih =>
      simp only [csrRows, bind_eq_ok, pure, Except.pure, Except.ok.injEq] at h
      obtain ⟨here, hhere, below, hbelow, rfl⟩ := h
      intro p hp
      rcases List.mem_append.mp hp with hp | hp
      · exact length_of_mem_csrRow hd hhere p hp
      · exact ih hbelow p hp

theorem length_csr {rows cols : Nat} {data bytes : List UInt8} {pointers columns : List Int}
    (h : csr width rows cols data pointers columns = .ok bytes) :
    bytes.length = rows * cols * width := by
  unfold csr at h
  split at h
  · cases h
  · split at h
    · cases h
    · rename_i hd
      split at h
      · cases h
      · split at h
        · rename_i ps hps
          cases h
          exact length_dense (length_of_mem_csrRows (not_not.mp hd) hps)
        · cases h

theorem length_of_mem_rowPlacements {rows i : Nat} {data : List UInt8} {indices : List Int}
    {ps : List Placement} (h : rowPlacements rows width data i indices = .ok ps) :
    ∀ p ∈ ps, p.2.length = width := by
  induction indices generalizing i ps with
  | nil =>
      cases h
      intro p hp
      cases hp
  | cons index indices ih =>
      rw [rowPlacements] at h
      split at h
      · cases h
      · split at h
        · cases h
        · rename_i hle
          obtain ⟨below, hbelow, rfl⟩ := map_eq_ok.mp h
          intro p hp
          rcases List.mem_cons.mp hp with rfl | hp
          · exact length_rowOf (Nat.not_lt.mp hle)
          · exact ih hbelow p hp

theorem length_rowSparse {rows length : Nat} {data bytes : List UInt8} {indices : List Int}
    (h : rowSparse rows width data indices length = .ok bytes) :
    bytes.length = length / width * width := by
  unfold rowSparse at h
  split at h
  · cases h
  · obtain ⟨ps, hps, rfl⟩ := map_eq_ok.mp h
    exact length_dense (length_of_mem_rowPlacements hps)

end Sparse

/-! ### Fills -/

namespace Fill

theorem length_stored (t : DataType) (xs : List Binary64) :
    (stored t xs).length = xs.length * t.width :=
  length_flatMap_of_length fun x _ => by simp

theorem length_tabulate (t : DataType) (count : Nat) (f : Nat → Binary64) :
    (tabulate t count f).length = count * t.width := by
  have h : (tabulate t count f).length = (List.range count).length * t.width :=
    length_flatMap_of_length fun i _ => by simp
  rw [h, List.length_range]

theorem length_countsFrom (draws : Draws) (position trials : Nat)
    (probabilities : List Binary64) :
    (countsFrom draws position trials probabilities).length = probabilities.length := by
  have hfold : ∀ (is : List Nat) (counts : List Nat),
      (is.foldl (fun counts i => counts.modify
        (category (draws (position + i)) 0 Binary64.zero probabilities) (· + 1)) counts).length =
        counts.length := by
    intro is
    induction is with
    | nil => exact fun counts => rfl
    | cons i is ih =>
        intro counts
        rw [List.foldl_cons, ih, List.length_modify]
  rw [countsFrom, hfold, List.length_replicate]

theorem length_multinomial (draws : Draws) (position trials : Nat)
    (probabilities : List Binary64) (rows : Nat) :
    (multinomial draws position trials probabilities rows).length =
      rows * probabilities.length := by
  have h : (multinomial draws position trials probabilities rows).length =
      (List.range rows).length * probabilities.length :=
    length_flatMap_of_length fun row _ => length_countsFrom ..
  rw [h, List.length_range]

/-- The bytes of rows, as many as there are, are the bytes of all. -/
theorem length_rows {rows size width : Nat} (h : rows ∣ size) :
    let rowBytes := if rows = 0 then 0 else size / rows * width
    size * width / rowBytes * rowBytes = size * width := by
  obtain ⟨cols, rfl⟩ := h
  by_cases hr : rows = 0
  · simp [hr]
  · have hpos : 0 < rows := Nat.pos_of_ne_zero hr
    simp only [if_neg hr, Nat.mul_div_cancel_left cols hpos]
    rw [Nat.mul_assoc]
    exact Nat.div_mul_cancel (Nat.dvd_mul_left ..)

/-- **A fill gives as many bytes as the array takes.** -/
theorem length_run {draws : Draws} {position length : Nat} {shape : Shape} {t : DataType}
    (hl : shape.byteLen t = some length) {fill : Fill} {filled : Fill.Result}
    (h : fill.run draws position shape t length = .ok filled) : filled.bytes.length = length := by
  obtain ⟨size, hsize, rfl⟩ := Shape.exists_size_of_byteLen hl
  have hcount : size * t.width / t.width = size := Nat.mul_div_cancel size t.width_pos
  cases fill <;> simp only [run, hcount] at h
  case uninit | zeros =>
    cases h
    exact List.length_replicate ..
  case ones | value | arange | linspace | randomUniform | randomNormal =>
    cases h
    exact length_tabulate ..
  case data bytes =>
    split at h
    · rename_i hbytes
      cases h
      exact hbytes
    · cases h
  case eye =>
    split at h
    · cases h
      exact length_tabulate ..
    · cases h
  case randomMultinomial trials probabilities =>
    split at h
    · cases h
    · rename_i hk
      obtain ⟨-, hlast⟩ := not_or.mp hk
      obtain ⟨d, hd, hdk⟩ := Option.map_eq_some_iff.mp (not_not.mp hlast)
      have hdvd := Shape.dvd_of_getLast? hsize hd
      rw [hdk] at hdvd
      cases h
      rw [length_stored, List.length_map, length_multinomial, Nat.div_mul_cancel hdvd]
  case csr stored pointers columns =>
    split at h
    · rename_i rows cols hm
      obtain ⟨bytes, hbytes, rfl⟩ := map_eq_ok.mp h
      rw [Sparse.length_csr hbytes, Shape.size_of_matrixDims? hsize hm]
    · cases h
  case rowSparse =>
    split at h
    · rename_i rows hrows
      obtain ⟨bytes, hbytes, rfl⟩ := map_eq_ok.mp h
      rw [Sparse.length_rowSparse hbytes]
      exact length_rows (Shape.dvd_of_get?_zero hsize hrows)
    · cases h

end Fill

/-! ### Operations -/

/-- The buffer holds as many bytes as its shape and data type take. -/
def Buffer.Sized (b : Buffer) : Prop := b.shape.byteLen b.dataType = some b.bytes.length

/-- A buffer with other numbers, as many as before, is sized as before. -/
theorem Buffer.Sized.withNumbers {b : Buffer} (h : b.Sized) {xs : List Binary64}
    (hx : xs.length = b.numbers.length) : (b.withNumbers xs).Sized := by
  obtain ⟨size, -, hsize⟩ := Shape.exists_size_of_byteLen h
  have hlength : (b.withNumbers xs).bytes.length = b.bytes.length := by
    rw [Buffer.withNumbers, Fill.length_stored, hx, b.length_numbers, hsize,
      Nat.mul_div_cancel size b.dataType.width_pos]
  show b.shape.byteLen b.dataType = some (b.withNumbers xs).bytes.length
  rw [hlength]
  exact h

namespace Host

variable {h : Host} {inputs : List Handle} {b : Buffer}

section Sized

variable (hs : ∀ x b, h.buffers.get? x = some b → b.Sized)

include hs

theorem sized_input {position : Nat} (hb : h.input inputs position = .ok b) : b.Sized := by
  unfold input at hb
  split at hb
  · cases hb
  · rename_i x _
    split at hb
    · rename_i hx
      cases hb
      exact hs x b hx
    · cases hb

/-- A shape of as many elements takes as many bytes. -/
theorem sized_reshape {ps : Params} (hb : h.reshape inputs ps = .ok b) : b.Sized := by
  simp only [reshape, bind_eq_ok] at hb
  obtain ⟨source, hsource, hb⟩ := hb
  split at hb
  · cases hb
  · split at hb
    · rename_i target _ hsize
      cases hb
      have hsized := sized_input hs hsource
      rw [Buffer.Sized] at hsized ⊢
      rw [← hsized]
      exact Shape.byteLen_congr hsize source.dataType
    · cases hb

theorem sized_add (hb : h.add inputs = .ok b) : b.Sized := by
  simp only [add, bind_eq_ok] at hb
  obtain ⟨left, hleft, right, hright, hb⟩ := hb
  split at hb
  · rename_i hsame
    cases hb
    have hl := sized_input hs hleft
    have hr := sized_input hs hright
    refine hl.withNumbers ?_
    have hbytes : right.bytes.length = left.bytes.length := by
      rw [Buffer.Sized, hsame.1, hsame.2, hr, Option.some.injEq] at hl
      exact hl
    rw [List.length_zipWith, left.length_numbers, right.length_numbers, hbytes, hsame.2,
      Nat.min_self]
  · cases hb

theorem sized_mulScalar {ps : Params} (hb : h.mulScalar inputs ps = .ok b) : b.Sized := by
  simp only [mulScalar, bind_eq_ok] at hb
  obtain ⟨source, hsource, hb⟩ := hb
  split at hb
  · cases hb
  · cases hb
    exact (sized_input hs hsource).withNumbers (List.length_map ..)

/-- **An operation on buffers that are sized gives one that is.** -/
theorem sized_compute {operation : String} {ps : Params}
    (hb : h.compute operation inputs ps = .ok b) : b.Sized := by
  unfold compute at hb
  split at hb
  · exact sized_input hs hb
  · exact sized_reshape hs hb
  · exact sized_add hs hb
  · exact sized_mulScalar hs hb
  · cases hb

end Sized

end Host

end ArrayLifetimes
