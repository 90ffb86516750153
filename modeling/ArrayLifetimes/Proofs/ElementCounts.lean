/-
How many elements a shape has.

The number of elements is the product of the dimensions, which may be more than a word.  It
is taken from the left, one checked multiplication after the other, so a product that
overflows on the way has no answer even when a zero further on would bring it back.  What
decides is the product of the dimensions before the first zero, the lead: the counts are the
true product just when the shape has no zero or its lead is a word.
-/
import ArrayLifetimes.Proofs.Engine.Lengths
import Mathlib.Algebra.BigOperators.Group.List.Basic
import Mathlib.Data.List.Basic
import Mathlib.Data.List.Perm.Basic
import Mathlib.Data.List.TakeWhile

namespace ArrayLifetimes

namespace Shape

/-! ### Products -/

/-- The product of some dimensions, of whatever size. -/
def product (dims : List UInt64) : Nat := (dims.map UInt64.toNat).prod

/-- The dimensions before the first zero. -/
def lead (dims : List UInt64) : List UInt64 := dims.takeWhile (· ≠ 0)

@[simp] theorem product_nil : product [] = 1 := rfl

@[simp] theorem product_cons (d : UInt64) (ds : List UInt64) :
    product (d :: ds) = d.toNat * product ds := by
  rw [product, product, List.map_cons, List.prod_cons]

@[simp] theorem lead_nil : lead [] = [] := rfl

@[simp] theorem lead_zero (ds : List UInt64) : lead (0 :: ds) = [] := rfl

theorem lead_cons {d : UInt64} (hd : d ≠ 0) (ds : List UInt64) : lead (d :: ds) = d :: lead ds := by
  rw [lead, List.takeWhile_cons_of_pos (by simpa using hd), lead]

theorem toNat_pos {d : UInt64} (hd : d ≠ 0) : 0 < d.toNat := by
  refine Nat.pos_of_ne_zero fun h => hd ?_
  exact UInt64.toNat_inj.mp h

theorem product_pos {dims : List UInt64} (h : 0 ∉ dims) : 0 < product dims := by
  induction dims with
  | nil => exact Nat.one_pos
  | cons d ds ih =>
      have hd : d ≠ 0 := (List.ne_of_not_mem_cons h).symm
      rw [product_cons]
      exact Nat.mul_pos (toNat_pos hd) (ih (List.not_mem_of_not_mem_cons h))

theorem product_eq_zero {dims : List UInt64} (h : 0 ∈ dims) : product dims = 0 := by
  induction dims with
  | nil => cases h
  | cons d ds ih =>
      rw [product_cons]
      rcases List.mem_cons.mp h with rfl | h
      · exact Nat.zero_mul _
      · rw [ih h, Nat.mul_zero]

theorem product_perm {ds es : List UInt64} (h : ds.Perm es) : product ds = product es :=
  (h.map UInt64.toNat).prod_eq

/-- Leaving out dimensions that are not zero makes the product no larger. -/
theorem product_le_of_sublist {ds es : List UInt64} (h : ds.Sublist es) (hes : 0 ∉ es) :
    product ds ≤ product es := by
  induction h with
  | slnil => exact Nat.le_refl _
  | cons d _ ih =>
      have hd : d ≠ 0 := (List.ne_of_not_mem_cons hes).symm
      rw [product_cons]
      exact Nat.le_trans (ih (List.not_mem_of_not_mem_cons hes))
        (Nat.le_mul_of_pos_left _ (toNat_pos hd))
  | cons_cons d _ ih =>
      rw [product_cons, product_cons]
      exact Nat.mul_le_mul_left _ (ih (List.not_mem_of_not_mem_cons hes))

theorem zero_not_mem_lead (dims : List UInt64) : 0 ∉ lead dims := by
  intro h
  simpa using List.mem_takeWhile_imp h

theorem lead_of_zero_not_mem {dims : List UInt64} (h : 0 ∉ dims) : lead dims = dims := by
  rw [lead, List.takeWhile_eq_self_iff]
  intro d hd
  have hne : d ≠ 0 := fun hz => h (hz ▸ hd)
  simpa using hne

/-- Whatever the order, the lead has some of the dimensions that are not zero. -/
theorem lead_sublist (dims : List UInt64) : (lead dims).Sublist (dims.filter (· ≠ 0)) := by
  induction dims with
  | nil => exact List.Sublist.slnil
  | cons d ds ih =>
      by_cases hd : d = 0
      · rw [hd, lead_zero]
        exact List.nil_sublist _
      · rw [lead_cons hd, List.filter_cons_of_pos (by simpa using hd)]
        exact ih.cons_cons d

/-! ### What the fold comes to -/

theorem checkedMul_of_lt {a b : Nat} (h : a * b < wordLimit) : checkedMul a b = some (a * b) :=
  if_pos h

theorem checkedMul_of_le {a b : Nat} (h : wordLimit ≤ a * b) : checkedMul a b = none :=
  if_neg (Nat.not_lt.mpr h)

/-- From a count that is a word, the fold multiplies as long as the lead lasts; from the
first zero on the count is zero and stays so. -/
theorem foldlM_checkedMul (dims : List UInt64) {count : Nat} (hc : count < wordLimit) :
    dims.foldlM (fun n d => checkedMul n d.toNat) count =
      if count * product (lead dims) < wordLimit then some (count * product dims) else none := by
  induction dims generalizing count with
  | nil =>
      rw [List.foldlM_nil, lead_nil, product_nil, Nat.mul_one, if_pos hc]
      rfl
  | cons d ds ih =>
      rw [List.foldlM_cons]
      by_cases hd : d = 0
      · have hzero : count * d.toNat = 0 := by rw [hd]; exact Nat.mul_zero count
        have hlt : count * d.toNat < wordLimit := hzero ▸ by decide
        rw [checkedMul_of_lt hlt, product_cons, ← Nat.mul_assoc, hzero, Nat.zero_mul, hd, lead_zero,
          product_nil, Nat.mul_one, if_pos hc]
        refine (ih (by decide)).trans ?_
        rw [Nat.zero_mul, Nat.zero_mul, if_pos (by decide)]
      · rw [lead_cons hd, product_cons, product_cons, ← Nat.mul_assoc, ← Nat.mul_assoc]
        by_cases hlt : count * d.toNat < wordLimit
        · rw [checkedMul_of_lt hlt]
          exact ih hlt
        · have hle : count * d.toNat ≤ count * d.toNat * product (lead ds) :=
            Nat.le_mul_of_pos_right _ (product_pos (zero_not_mem_lead ds))
          rw [checkedMul_of_le (Nat.not_lt.mp hlt), if_neg (by omega)]
          rfl

theorem checkedSize_eq (s : Shape) :
    s.checkedSize =
      if product (lead s.dims) < wordLimit then some (product s.dims) else none := by
  rw [checkedSize, foldlM_checkedMul s.dims (by decide), Nat.one_mul, Nat.one_mul]

/-- A number of elements that is a word takes its width in bytes for each of them, if that
is no more than a buffer may hold. -/
theorem byteLen_of_checkedSize {s : Shape} {k : Nat} (h : s.checkedSize = some k) (t : DataType) :
    s.byteLen t = if k * t.width ≤ byteLimit then some (k * t.width) else none := by
  rw [byteLen, h]
  by_cases hlt : k * t.width < wordLimit
  · rw [Option.bind_some, checkedMul_of_lt hlt]
    simp only [Option.filter_some, decide_eq_true_eq]
  · have hlimit : byteLimit < wordLimit := by decide
    rw [Option.bind_some, checkedMul_of_le (Nat.not_lt.mp hlt), if_neg (by omega)]
    rfl

/-! ### True counts -/

/-- The counts of a shape are the product of its dimensions, as far as words and buffers
hold it. -/
structure Exact (s : Shape) : Prop where
  checkedSize : s.checkedSize =
    if product s.dims < wordLimit then some (product s.dims) else none
  size : s.size = min (product s.dims) (wordLimit - 1)
  byteLen (t : DataType) : s.byteLen t =
    if product s.dims * t.width ≤ byteLimit then some (product s.dims * t.width) else none

/-- The counts of a shape that was given up: no number of elements, the largest word in its
place, and no length in bytes. -/
structure GivenUp (s : Shape) : Prop where
  checkedSize : s.checkedSize = none
  size : s.size = wordLimit - 1
  byteLen (t : DataType) : s.byteLen t = none

/-- A zero comes too late: the product of what is before it is no word any more. -/
def Overshoots (s : Shape) : Prop := 0 ∈ s.dims ∧ wordLimit ≤ product (lead s.dims)

instance (s : Shape) : Decidable s.Overshoots :=
  inferInstanceAs (Decidable (0 ∈ s.dims ∧ wordLimit ≤ product (lead s.dims)))

/-- Two shapes have the same counts. -/
structure CountAlike (s s' : Shape) : Prop where
  checkedSize : s.checkedSize = s'.checkedSize
  size : s.size = s'.size
  byteLen (t : DataType) : s.byteLen t = s'.byteLen t

variable {s s' : Shape}

theorem givenUp_of_checkedSize (h : s.checkedSize = none) : s.GivenUp where
  checkedSize := h
  size := by rw [size, h, Option.getD_none]
  byteLen t := by rw [byteLen, h]; rfl

theorem exact_of_checkedSize (h : s.checkedSize =
    if product s.dims < wordLimit then some (product s.dims) else none) : s.Exact where
  checkedSize := h
  size := by
    have hone : 0 < wordLimit := by decide
    rw [size, h]
    split
    · rw [Option.getD_some]; omega
    · rw [Option.getD_none]; omega
  byteLen t := by
    by_cases hlt : product s.dims < wordLimit
    · exact byteLen_of_checkedSize (h.trans (if_pos hlt)) t
    · have hlimit : byteLimit < wordLimit := by decide
      have hwide : product s.dims ≤ product s.dims * t.width :=
        Nat.le_mul_of_pos_right _ t.width_pos
      rw [(givenUp_of_checkedSize (h.trans (if_neg hlt))).byteLen t, if_neg (by omega)]

theorem givenUp_of_overshoots (h : s.Overshoots) : s.GivenUp :=
  givenUp_of_checkedSize ((checkedSize_eq s).trans (if_neg (Nat.not_lt.mpr h.2)))

theorem exact_of_not_overshoots (h : ¬ s.Overshoots) : s.Exact := by
  refine exact_of_checkedSize ?_
  rw [checkedSize_eq]
  by_cases hz : 0 ∈ s.dims
  · have hlt : product (lead s.dims) < wordLimit := Nat.not_le.mp fun hle => h ⟨hz, hle⟩
    have hzero : product s.dims < wordLimit := product_eq_zero hz ▸ by decide
    rw [if_pos hlt, if_pos hzero]
  · rw [lead_of_zero_not_mem hz]

/-- The counts depend on the product alone, where they are true. -/
theorem Exact.countAlike (h : s.Exact) (h' : s'.Exact) (hp : product s.dims = product s'.dims) :
    CountAlike s s' where
  checkedSize := by rw [h.checkedSize, h'.checkedSize, hp]
  size := by rw [h.size, h'.size, hp]
  byteLen t := by rw [h.byteLen, h'.byteLen, hp]

theorem not_exact_of_overshoots (h : s.Overshoots) : ¬ s.Exact := by
  intro he
  have hlt : product s.dims < wordLimit := product_eq_zero h.1 ▸ by decide
  have hsome := he.checkedSize
  rw [if_pos hlt, (givenUp_of_overshoots h).checkedSize] at hsome
  cases hsome

theorem exact_iff : s.Exact ↔ ¬ s.Overshoots :=
  ⟨fun he h => not_exact_of_overshoots h he, exact_of_not_overshoots⟩

/-! ### Arrangements -/

/-- Some arrangement of the dimensions overshoots. -/
def MayOvershoot (s : Shape) : Prop :=
  0 ∈ s.dims ∧ wordLimit ≤ product (s.dims.filter (· ≠ 0))

theorem lead_append {ds : List UInt64} (h : 0 ∉ ds) (es : List UInt64) :
    lead (ds ++ es) = ds ++ lead es := by
  induction ds with
  | nil => rfl
  | cons d ds ih =>
      have hd : d ≠ 0 := (List.ne_of_not_mem_cons h).symm
      rw [List.cons_append, lead_cons hd, ih (List.not_mem_of_not_mem_cons h), List.cons_append]

/-- The dimensions that are not zero bound the lead of every arrangement. -/
theorem not_overshoots_of_perm (h : s.dims.Perm s'.dims) (hs : ¬ s.MayOvershoot) :
    ¬ s'.Overshoots := by
  rintro ⟨hz, hle⟩
  refine hs ⟨h.mem_iff.mpr hz, hle.trans ?_⟩
  rw [product_perm (h.filter _)]
  exact product_le_of_sublist (lead_sublist s'.dims) (by simp)

/-- With a zero in front nothing overshoots. -/
theorem exists_perm_not_overshoots (h : 0 ∈ s.dims) :
    ∃ s' : Shape, s.dims.Perm s'.dims ∧ ¬ s'.Overshoots := by
  refine ⟨⟨0 :: s.dims.erase 0⟩, List.perm_cons_erase h, fun ho => ?_⟩
  have hone : wordLimit ≤ product (lead (0 :: s.dims.erase 0)) := ho.2
  rw [lead_zero, product_nil] at hone
  exact absurd hone (by decide)

/-- With the zeros at the end everything else is in the lead. -/
theorem exists_perm_overshoots (h : s.MayOvershoot) :
    ∃ s' : Shape, s.dims.Perm s'.dims ∧ s'.Overshoots := by
  let nonzero := s.dims.filter (· ≠ 0)
  let zeros := s.dims.filter (· = 0)
  have hperm : s.dims.Perm (nonzero ++ zeros) := by
    have hsplit := List.filter_append_perm (fun d : UInt64 => decide (d ≠ 0)) s.dims
    simpa [nonzero, zeros] using hsplit.symm
  have hnz : (0 : UInt64) ∉ nonzero := by simp [nonzero]
  refine ⟨⟨nonzero ++ zeros⟩, hperm, hperm.mem_iff.mp h.1, h.2.trans ?_⟩
  exact product_le_of_sublist (lead_append hnz zeros ▸ List.sublist_append_left _ _)
    (zero_not_mem_lead _)

/-- The counts of all arrangements are alike just when none of them overshoots. -/
theorem countAlike_perm_iff :
    (∀ s' : Shape, s.dims.Perm s'.dims → CountAlike s s') ↔ ¬ s.MayOvershoot := by
  constructor
  · intro halike hmay
    obtain ⟨a, ha, hnot⟩ := exists_perm_not_overshoots hmay.1
    obtain ⟨b, hb, hover⟩ := exists_perm_overshoots hmay
    have hsome := (exact_of_not_overshoots hnot).checkedSize
    have hzero : product a.dims = 0 := product_eq_zero (ha.mem_iff.mp hmay.1)
    rw [hzero, if_pos (by decide), ← (halike a ha).checkedSize, (halike b hb).checkedSize,
      (givenUp_of_overshoots hover).checkedSize] at hsome
    cases hsome
  · intro hnot s' hperm
    have hs : s.Exact := exact_of_not_overshoots (not_overshoots_of_perm (List.Perm.refl _) hnot)
    have hs' : s'.Exact := exact_of_not_overshoots (not_overshoots_of_perm hperm hnot)
    exact hs.countAlike hs' (product_perm hperm)

/-- A shape with a zero counts as empty unless the zero comes too late. -/
theorem size_eq_zero_iff (h : 0 ∈ s.dims) : s.size = 0 ↔ ¬ s.Overshoots := by
  constructor
  · intro hsize hover
    rw [(givenUp_of_overshoots hover).size] at hsize
    exact absurd hsize (by decide)
  · intro hnot
    rw [(exact_of_not_overshoots hnot).size, product_eq_zero h, Nat.zero_min]

/-! ### The counts of every shape -/

/-- The number of elements, the size and the lengths in bytes are those of the product of
the dimensions for every shape that does not overshoot, and for no other: a shape that
overshoots is given up, although its product is zero.  Rearranging the dimensions leaves the
counts as they are unless some arrangement overshoots, and a shape with a zero counts as empty
unless it overshoots itself. -/
theorem element_counts (s : Shape) :
    (s.Exact ↔ ¬ s.Overshoots) ∧
    (s.Overshoots → product s.dims = 0 ∧ s.GivenUp) ∧
    ((∀ s' : Shape, s.dims.Perm s'.dims → CountAlike s s') ↔ ¬ s.MayOvershoot) ∧
    (0 ∈ s.dims → (s.size = 0 ↔ ¬ s.Overshoots)) :=
  ⟨exact_iff, fun h => ⟨product_eq_zero h.1, givenUp_of_overshoots h⟩, countAlike_perm_iff,
    size_eq_zero_iff⟩

/-- Two dimensions overflow before the zero is read: the shape has no elements and counts as
the largest word.  With the zero in front it counts as empty. -/
theorem overflow_before_zero :
    product [18446744073709551615, 2, 0] = 0 ∧
    checkedSize ⟨[18446744073709551615, 2, 0]⟩ = none ∧
    size ⟨[18446744073709551615, 2, 0]⟩ = 18446744073709551615 ∧
    byteLen ⟨[18446744073709551615, 2, 0]⟩ .float32 = none ∧
    checkedSize ⟨[0, 18446744073709551615, 2]⟩ = some 0 ∧
    size ⟨[0, 18446744073709551615, 2]⟩ = 0 ∧
    byteLen ⟨[0, 18446744073709551615, 2]⟩ .float32 = some 0 := by
  decide +kernel

end Shape

end ArrayLifetimes
