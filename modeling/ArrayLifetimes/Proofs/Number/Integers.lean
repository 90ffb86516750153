/-
Integers among the numbers.

The integers are read off the significand and the exponent of a number, of which there can be
several for one integer.  `Binary64.Is` says that a number is an integer, whichever way it is
written.  Arithmetic on such numbers is arithmetic on the integers and one rounding at the end:
a sum is what the exact sum is rounded to, and a number that is cut to an integer within bounds
is that integer within the bounds.
-/
import ArrayLifetimes.Proofs.Number.Rounding

namespace ArrayLifetimes

namespace Number

/-- An integer is rounded in the same way however it is written. -/
theorem Format.round_of_makesUp (f : Format) (s : Bool) {m n : Nat} {e : Int}
    (h : MakesUp m e n) : f.round s m e false = f.round s n 0 false := by
  unfold MakesUp at h
  by_cases he : 0 ≤ e
  · have hdown : (-e).toNat = 0 := by omega
    have hzero : e - (e.toNat : Int) = 0 := by omega
    have hshift := f.round_shift s m e.toNat e
    rw [hdown, Nat.pow_zero, Nat.mul_one] at h
    rw [hzero, h] at hshift
    exact hshift.symm
  · have hup : e.toNat = 0 := by omega
    have hexponent : 0 - ((-e).toNat : Int) = e := by omega
    have hshift := f.round_shift s n (-e).toNat 0
    rw [hup, Nat.pow_zero, Nat.mul_one] at h
    rw [hexponent, ← h] at hshift
    exact hshift

/-- Rounding does not go past a number of few digits. -/
theorem Nearest.le {n r k : Int} (h : Nearest n r) (hk : Digits 53 k.natAbs) (hle : k ≤ n) :
    k ≤ r := by
  have hclosest := h.closest k hk
  omega

theorem Nearest.ge {n r k : Int} (h : Nearest n r) (hk : Digits 53 k.natAbs) (hle : n ≤ k) :
    r ≤ k := by
  have hclosest := h.closest k hk
  omega

end Number

namespace Binary64

open Number

/-! ### Signs -/

theorem signed_natAbs (n : Int) : signed (decide (n < 0)) n.natAbs = n := by
  unfold signed
  by_cases hn : n < 0
  · rw [if_pos (decide_eq_true hn)]
    omega
  · rw [if_neg (by simpa using hn)]
    omega

theorem signed_mul (s : Bool) (m k : Nat) : signed s m * (k : Int) = signed s (m * k) := by
  cases s with
  | false => exact (Int.natCast_mul m k).symm
  | true =>
      show -(m : Int) * k = -((m * k : Nat) : Int)
      rw [Int.natCast_mul, Int.neg_mul]

/-! ### Numbers that are integers -/

/-- The number is the integer, and not the negative zero. -/
def Is (x : Binary64) (n : Int) : Prop :=
  ∃ m e, x.decode = .finite (decide (n < 0)) m e ∧ MakesUp m e n.natAbs

variable {x y : Binary64} {a c n : Int}

theorem decode_rounded (s : Bool) (m : Nat) (e : Int) (more : Bool) :
    (rounded s m e more).decode =
      Format.binary64.decode (Format.binary64.round s m e more) := by
  show Format.binary64.decode (UInt64.ofNat _).toNat = _
  rw [UInt64.toNat_ofNat_of_lt' (round_lt s m e more)]

theorem is_zero : (ofInt 0).Is 0 :=
  ⟨0, -1074, by decide, (Nat.zero_mul _).trans (Nat.zero_mul _).symm⟩

/-- **An integer becomes the nearest number.** -/
theorem exists_nearest_ofInt (hn : n.natAbs < 2 ^ 128) : ∃ r, Nearest n r ∧ (ofInt n).Is r := by
  by_cases hzero : n = 0
  · subst hzero
    exact ⟨0, nearest_self (digits_of_lt (by decide)), is_zero⟩
  · obtain ⟨r, m, e, hdecode, hup, hnearest⟩ :=
      exists_nearest_round (decide (n < 0)) (by omega : n.natAbs ≠ 0) hn
    have hpos : 1 ≤ (r : Int) := hnearest.le (digits_of_lt (by decide)) (by omega)
    have hsign : decide (signed (decide (n < 0)) r < 0) = decide (n < 0) := by
      unfold signed
      by_cases hneg : n < 0
      · simp only [hneg, decide_true, if_true, decide_eq_true_eq]
        omega
      · simp only [hneg, decide_false, Bool.false_eq_true, if_false, decide_eq_false_iff_not]
        omega
    have habs : (signed (decide (n < 0)) r).natAbs = r := by
      unfold signed
      split <;> omega
    have hsigned := nearest_signed (decide (n < 0)) hnearest
    rw [signed_natAbs] at hsigned
    refine ⟨signed (decide (n < 0)) r, hsigned, m, e, ?_, ?_⟩
    · rw [hsign]
      exact (decode_rounded _ _ _ _).trans hdecode
    · rw [habs]
      exact hup

/-- An integer of few digits is a number itself. -/
theorem is_ofInt (hn : n.natAbs < 2 ^ 128) (hd : Digits 53 n.natAbs) : (ofInt n).Is n := by
  obtain ⟨r, hnearest, hr⟩ := exists_nearest_ofInt hn
  rw [hnearest.eq hd] at hr
  exact hr

theorem ofNat_eq_ofInt (n : Nat) : ofNat n = ofInt n := by
  have hsign : decide ((n : Int) < 0) = false := decide_eq_false (by omega)
  unfold ofInt
  rw [hsign]
  rfl

/-! ### Arithmetic on them -/

/-- The common exponent of two numbers makes up both of them. -/
theorem scaled_of_is {m : Nat} {e low : Int} (h : MakesUp m e n.natAbs) (hle : low ≤ e) :
    scaled (decide (n < 0)) m e low * ((2 ^ low.toNat : Nat) : Int) =
      n * ((2 ^ (-low).toNat : Nat) : Int) := by
  have hlow : m * 2 ^ (e - low).toNat * 2 ^ low.toNat = n.natAbs * 2 ^ (-low).toNat := h.lower hle
  unfold scaled
  rw [signed_mul, hlow, ← signed_mul, signed_natAbs]

/-- An integer that a power of two takes to another one has its sign, and makes it up. -/
theorem makesUp_of_mul {total sum low : Int}
    (h : total * ((2 ^ low.toNat : Nat) : Int) = sum * ((2 ^ (-low).toNat : Nat) : Int)) :
    (total < 0 ↔ sum < 0) ∧ MakesUp total.natAbs low sum.natAbs := by
  have hneg : ∀ (i : Int) (k : Nat), i * ((2 ^ k : Nat) : Int) < 0 ↔ i < 0 := by
    intro i k
    have hpos : 0 < ((2 ^ k : Nat) : Int) := Int.natCast_pos.mpr (Nat.two_pow_pos k)
    constructor
    · intro hlt
      exact Int.neg_of_mul_neg_left hlt hpos
    · intro hi
      exact Int.mul_neg_of_neg_of_pos hi hpos
  constructor
  · rw [← hneg total low.toNat, h, hneg]
  · have habs := congrArg Int.natAbs h
    rw [Int.natAbs_mul, Int.natAbs_mul, Int.natAbs_natCast, Int.natAbs_natCast] at habs
    exact habs

/-- **The sum of two integers is their exact sum, rounded once.** -/
theorem add_of_is (hx : x.Is a) (hy : y.Is c) : x.add y = ofInt (a + c) := by
  obtain ⟨m, e, hdx, hup⟩ := hx
  obtain ⟨m', k, hdy, hup'⟩ := hy
  have hsum : (scaled (decide (a < 0)) m e (min e k) + scaled (decide (c < 0)) m' k (min e k)) *
      ((2 ^ (min e k).toNat : Nat) : Int) = (a + c) * ((2 ^ (-(min e k)).toNat : Nat) : Int) := by
    rw [Int.add_mul, Int.add_mul, scaled_of_is hup (Int.min_le_left e k),
      scaled_of_is hup' (Int.min_le_right e k)]
  obtain ⟨hsign, htotal⟩ := makesUp_of_mul hsum
  unfold add
  rw [hdx, hdy]
  simp only
  generalize scaled (decide (a < 0)) m e (min e k) +
    scaled (decide (c < 0)) m' k (min e k) = total at hsum hsign htotal
  by_cases hzero : total = 0
  · -- A zero has no sign to hand on.
    have hac : a + c = 0 := by
      have := htotal.eq_zero_iff.mp (by omega)
      omega
    have hplus : (decide (a < 0) && decide (c < 0) && m == 0 && m' == 0) = false := by
      have hne : ¬ (a < 0 ∧ c < 0) := by omega
      rw [← Bool.decide_and, decide_eq_false hne, Bool.false_and, Bool.false_and]
    rw [if_pos hzero, hplus, hac]
    rfl
  · rw [if_neg hzero, decide_eq_decide.mpr hsign]
    unfold rounded ofInt
    rw [Format.binary64.round_of_makesUp _ htotal]
    rfl

/-- **An integer is cut to itself, within the bounds.** -/
theorem toIntClamped_of_is (lo hi : Int) (hx : x.Is n) :
    x.toIntClamped lo hi = max lo (min hi n) := by
  obtain ⟨m, e, hdecode, hup⟩ := hx
  have hwhole : (if 0 ≤ e then m * 2 ^ e.toNat else m / 2 ^ (-e).toNat) = n.natAbs := by
    unfold MakesUp at hup
    by_cases he : 0 ≤ e
    · have hdown : (-e).toNat = 0 := by omega
      rw [hdown, Nat.pow_zero, Nat.mul_one] at hup
      rw [if_pos he, hup]
    · have hzero : e.toNat = 0 := by omega
      rw [hzero, Nat.pow_zero, Nat.mul_one] at hup
      rw [if_neg he, hup, Nat.mul_div_cancel _ (Nat.two_pow_pos _)]
  unfold toIntClamped
  rw [hdecode]
  simp only [truncated, hwhole, signed_natAbs]

theorem toIntClamped_bounds {lo hi : Int} (hlo : lo ≤ 0) (hhi : 0 ≤ hi) (x : Binary64) :
    lo ≤ x.toIntClamped lo hi ∧ x.toIntClamped lo hi ≤ hi := by
  unfold toIntClamped
  split
  · exact ⟨hlo, hhi⟩
  · split <;> omega
  · omega

end Binary64

end ArrayLifetimes
