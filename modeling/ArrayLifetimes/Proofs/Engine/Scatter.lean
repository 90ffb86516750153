/-
What a dense array holds after cells have been put in their places.

A cell that is put in a place takes the place of the one before, so what counts is the last
cell for each place (`lastAt`), and zeros where there is none.  When the cells are rows of
elements, so is the whole array, and its rows can be told one by one.

Cells that are put in their places by increasing positions are the usual case: then the last one
for a place is the one with the greatest position.
-/
import ArrayLifetimes.Proofs.Engine.Encoding
import Mathlib.Order.Bounds.Basic

namespace ArrayLifetimes

/-! ### Rows of elements -/

/-- The element whose bits are all zero. -/
def Element.zero (t : DataType) : Element := ofBits t 0

@[simp] theorem Element.dataType_zero (t : DataType) : (zero t).dataType = t := dataType_ofBits t 0

theorem Element.encode_zero (t : DataType) : (zero t).encode = List.replicate t.width 0 := by
  cases t <;> rfl

theorem Element.toNumber_zero (t : DataType) : (zero t).toNumber = Binary64.zero := by
  cases t <;> decide

section Rows

variable {t : DataType} {xs : List Element}

theorem encodeElements_cons (x : Element) (xs : List Element) :
    encodeElements (x :: xs) = x.encode ++ encodeElements xs := List.flatMap_cons

theorem encodeElements_singleton (x : Element) : encodeElements [x] = x.encode :=
  List.flatMap_singleton ..

theorem drop_encodeElements (hx : ∀ x ∈ xs, x.dataType = t) (k : Nat) :
    (encodeElements xs).drop (k * t.width) = encodeElements (xs.drop k) := by
  induction xs generalizing k with
  | nil => simp [encodeElements]
  | cons x xs ih =>
      cases k with
      | zero => simp
      | succ k =>
          have hwidth : x.encode.length = t.width := by
            rw [Element.length_encode, hx x (List.mem_cons_self ..)]
          have hrest := ih (fun y hy => hx y (List.mem_cons_of_mem _ hy)) k
          rw [encodeElements_cons, List.drop_succ_cons, ← hrest, Nat.succ_mul, Nat.add_comm,
            ← List.drop_drop, List.drop_left' hwidth]

theorem take_encodeElements (hx : ∀ x ∈ xs, x.dataType = t) (k : Nat) :
    (encodeElements xs).take (k * t.width) = encodeElements (xs.take k) := by
  induction xs generalizing k with
  | nil => simp [encodeElements]
  | cons x xs ih =>
      cases k with
      | zero => simp [encodeElements]
      | succ k =>
          have hwidth : x.encode.length = t.width := by
            rw [Element.length_encode, hx x (List.mem_cons_self ..)]
          have hrest := ih (fun y hy => hx y (List.mem_cons_of_mem _ hy)) k
          rw [encodeElements_cons, List.take_succ_cons, encodeElements_cons, ← hrest, Nat.succ_mul,
            Nat.add_comm, ← hwidth, List.take_length_add_append, hwidth]

/-- Rows are written row by row. -/
theorem rowOf_encodeElements (hx : ∀ x ∈ xs, x.dataType = t) (length i : Nat) :
    rowOf (length * t.width) (encodeElements xs) i = encodeElements (rowOf length xs i) := by
  have hrest : ∀ x ∈ xs.drop (i * length), x.dataType = t :=
    fun x hmem => hx x (List.mem_of_mem_drop hmem)
  rw [rowOf, ← Nat.mul_assoc, drop_encodeElements hx, take_encodeElements hrest, rowOf]

theorem encodeElements_zeros (t : DataType) (count : Nat) :
    encodeElements (List.replicate count (Element.zero t)) = List.replicate (count * t.width) 0 := by
  induction count with
  | zero => simp [encodeElements]
  | succ count ih =>
      rw [List.replicate_succ, encodeElements_cons, ih, Element.encode_zero, Nat.succ_mul,
        Nat.add_comm, List.replicate_add]

/-- Successive numbers, parted at one of them. -/
theorem range'_eq_append_cons {first count j : Nat} (h : first ≤ j) (h' : j < first + count) :
    List.range' first count =
      List.range' first (j - first) ++ j :: List.range' (j + 1) (first + count - (j + 1)) := by
  have hcount : (j - first) + (first + count - (j + 1) + 1) = count := by omega
  have hj : first + (j - first) = j := by omega
  have happend := List.range'_append_1 (s := first) (m := j - first)
    (n := first + count - (j + 1) + 1)
  rw [hcount, hj, List.range'_succ] at happend
  exact happend.symm

/-- Rows of equal length are found again in the list that they make up. -/
theorem rowOf_flatMap {α : Type} {f : Nat → List α} {count length i : Nat}
    (hf : ∀ r < count, (f r).length = length) (hi : i < count) :
    rowOf length ((List.range count).flatMap f) i = f i := by
  have hsplit : List.range count =
      List.range i ++ i :: List.range' (i + 1) (count - (i + 1)) := by
    rw [List.range_eq_range', List.range_eq_range', range'_eq_append_cons (Nat.zero_le i) (by omega),
      Nat.sub_zero, Nat.zero_add]
  have hbefore : ((List.range i).flatMap f).length = i * length := by
    rw [length_flatMap_of_length fun r hr => hf r (Nat.lt_trans (List.mem_range.mp hr) hi),
      List.length_range]
  rw [rowOf, hsplit, List.flatMap_append, List.flatMap_cons, List.drop_left' hbefore,
    List.take_left' (hf i hi)]

end Rows

namespace Sparse

/-! ### The last cell for a place -/

/-- The cell that is put in a place last. -/
def lastAt (place : Nat) (ps : List Placement) : Option (List UInt8) :=
  (ps.reverse.find? fun p => p.1 == place).map Prod.snd

theorem lastAt_append (place : Nat) (ps qs : List Placement) :
    lastAt place (ps ++ qs) = (lastAt place qs).or (lastAt place ps) := by
  rw [lastAt, List.reverse_append, List.find?_append, lastAt, lastAt]
  cases qs.reverse.find? fun p => p.1 == place <;> rfl

theorem getElem?_scatter (cells : Array (List UInt8)) (ps : List Placement) (place : Nat) :
    (scatter cells ps)[place]? = cells[place]?.map fun c => (lastAt place ps).getD c := by
  induction ps generalizing cells with
  | nil => simp [scatter, lastAt]
  | cons p ps ih =>
      have hrest := ih (cells.setIfInBounds p.1 p.2)
      have hone : lastAt place [p] = if p.1 = place then some p.2 else none := by
        by_cases hp : p.1 = place <;> simp [lastAt, hp]
      rw [← List.singleton_append, lastAt_append, hone]
      show (scatter (cells.setIfInBounds p.1 p.2) ps)[place]? = _
      rw [hrest, Array.getElem?_setIfInBounds]
      by_cases hp : p.1 = place
      · subst hp
        by_cases hlt : p.1 < cells.size
        · simp only [if_true, hlt, Option.map_some, Array.getElem?_eq_getElem hlt]
          cases lastAt p.1 ps <;> rfl
        · simp [hlt]
      · simp [hp]

theorem dense_eq (count width : Nat) (ps : List Placement) :
    dense count width ps =
      (List.range count).flatMap fun place => (lastAt place ps).getD (List.replicate width 0) := by
  have hcells : (scatter (Array.replicate count (List.replicate width 0)) ps).toList =
      (List.range count).map fun place => (lastAt place ps).getD (List.replicate width 0) := by
    refine List.ext_getElem? fun place => ?_
    rw [Array.getElem?_toList, getElem?_scatter, Array.getElem?_replicate, List.getElem?_map]
    by_cases hlt : place < count <;> simp [hlt]
  rw [dense, hcells, List.flatMap]

/-- **An array whose cells are rows of elements is made up of these rows.** -/
theorem dense_eq_encode {t : DataType} {count length : Nat} {ps : List Placement}
    {rows : Nat → List Element}
    (h : ∀ place < count, (lastAt place ps).getD (List.replicate (length * t.width) 0) =
      encodeElements (rows place)) :
    dense count (length * t.width) ps = encodeElements ((List.range count).flatMap rows) := by
  rw [dense_eq, encodeElements, List.flatMap_assoc]
  refine List.flatMap_congr fun place hplace => ?_
  exact h place (List.mem_range.mp hplace)

/-! ### Places by increasing positions -/

section Positions

variable {first count place : Nat} {places : Nat → Nat} {cells : Nat → List UInt8}

theorem lastAt_map (js : List Nat) :
    lastAt place (js.map fun j => (places j, cells j)) =
      (js.reverse.find? fun j => places j == place).map cells := by
  rw [lastAt, ← List.map_reverse, List.find?_map, Option.map_map]
  rfl

/-- Of increasing positions the last one that fits is the greatest one. -/
theorem find?_reverse_range' {p : Nat → Bool} {j : Nat}
    (h : IsGreatest {j | first ≤ j ∧ j < first + count ∧ p j = true} j) :
    (List.range' first count).reverse.find? p = some j := by
  obtain ⟨⟨hfirst, hlast, hp⟩, hgreatest⟩ := h
  have hnone : (List.range' (j + 1) (first + count - (j + 1))).reverse.find? p = none := by
    rw [List.find?_eq_none]
    intro k hk hpk
    obtain ⟨hlo, hhi⟩ := List.mem_range'_1.mp (List.mem_reverse.mp hk)
    have hle : k ≤ j := hgreatest ⟨by omega, by omega, hpk⟩
    omega
  rw [range'_eq_append_cons hfirst hlast, List.reverse_append, List.reverse_cons, List.find?_append,
    List.find?_append, hnone]
  simp [hp]

theorem find?_reverse_range'_eq_none {p : Nat → Bool}
    (h : ∀ j, first ≤ j → j < first + count → p j = false) :
    (List.range' first count).reverse.find? p = none := by
  rw [List.find?_eq_none]
  intro j hj
  obtain ⟨hlo, hhi⟩ := List.mem_range'_1.mp (List.mem_reverse.mp hj)
  rw [h j hlo hhi]
  exact Bool.false_ne_true

end Positions

end Sparse

end ArrayLifetimes
