/-
Sums of numbers that are not negative.

A running sum of such numbers is never negative and never a NaN, though it may be infinity, and a
summand that is zero leaves it as it is, bit by bit.  The zero with a sign needs care: it is a
summand like the other one, but a sum that begins with the zero without a sign never becomes it.
-/
import ArrayLifetimes.Proofs.Number.Integers

namespace ArrayLifetimes

namespace Number

variable (f : Format)

theorem Format.round_zero (s : Bool) (e : Int) (more : Bool) :
    f.round s 0 e more = f.withSign s 0 :=
  if_pos rfl

/-- Nothing is rounded beyond infinity. -/
theorem Format.round_le (m : Nat) (e : Int) (more : Bool) :
    f.round false m e more ≤ f.infinity := by
  by_cases hm : m = 0
  · rw [hm, round_zero]
    exact Nat.zero_le _
  · unfold round
    rw [if_neg hm]
    exact Nat.min_le_right _ _

end Number

namespace Binary64

open Number

/-- The number is positive, infinity among them, or the zero without a sign. -/
def Unsigned (x : Binary64) : Prop :=
  (∃ m e, x.decode = .finite false m e) ∨ x.decode = .infinite false

/-- The number is finite and not below zero. -/
def Summand (p : Binary64) : Prop :=
  ∃ s m e, p.decode = .finite s m e ∧ (s = true → m = 0)

variable {x y u p : Binary64} {s t : Bool} {m n : Nat} {e k : Int}

/-! ### Comparisons -/

theorem decode_zero : zero.decode = .finite false 0 (-1074) := by decide

theorem compare?_of_finite (hx : x.decode = .finite s m e) (hy : y.decode = .finite t n k) :
    x.compare? y = some (compare (scaled s m e (min e k)) (scaled t n k (min e k))) := by
  unfold compare?
  rw [hx, hy]

theorem scaled_zero (s : Bool) (e low : Int) : scaled s 0 e low = 0 := by
  unfold scaled
  rw [Nat.zero_mul]
  cases s <;> rfl

theorem lt_iff_of_finite (hx : x.decode = .finite s m e) (hy : y.decode = .finite t n k) :
    x.lt y = true ↔ scaled s m e (min e k) < scaled t n k (min e k) := by
  unfold lt
  rw [compare?_of_finite hx hy, beq_iff_eq, Option.some.injEq]
  exact Int.compare_eq_lt

theorem le_iff_of_finite (hx : x.decode = .finite s m e) (hy : y.decode = .finite t n k) :
    x.le y = true ↔ scaled s m e (min e k) ≤ scaled t n k (min e k) := by
  unfold le
  rw [compare?_of_finite hx hy, Bool.or_eq_true, beq_iff_eq, beq_iff_eq, Option.some.injEq,
    Option.some.injEq, Int.compare_eq_lt, Int.compare_eq_eq]
  omega

theorem eq_iff_of_finite (hx : x.decode = .finite s m e) (hy : y.decode = .finite t n k) :
    x.eq y = true ↔ scaled s m e (min e k) = scaled t n k (min e k) := by
  unfold eq
  rw [compare?_of_finite hx hy, beq_iff_eq, Option.some.injEq]
  exact Int.compare_eq_eq

/-- Only a zero is not below zero in spite of its sign. -/
theorem eq_zero_of_scaled {low : Int} (h : 0 ≤ scaled true m e low) : m = 0 := by
  have hpos := Nat.two_pow_pos (e - low).toNat
  have hzero : m * 2 ^ (e - low).toNat = 0 := by
    unfold scaled signed at h
    rw [if_pos rfl] at h
    omega
  exact (Nat.mul_eq_zero.mp hzero).resolve_right (Nat.ne_of_gt hpos)

theorem eq_zero_of_scaled_eq {low : Int} (h : scaled s m e low = 0) : m = 0 := by
  cases s with
  | true => exact eq_zero_of_scaled (Int.le_of_eq h.symm)
  | false =>
      have hpos := Nat.two_pow_pos (e - low).toNat
      have hzero : m * 2 ^ (e - low).toNat = 0 := Int.natCast_eq_zero.mp h
      exact (Nat.mul_eq_zero.mp hzero).resolve_right (Nat.ne_of_gt hpos)

/-- A probability can be added. -/
theorem summand_of_bounds (hle : zero.le p = true) (hone : p.le one = true) : p.Summand := by
  have hdecode : one.decode = .finite false (2 ^ 52) (-52) := by decide
  cases hp : p.decode with
  | nan s payload =>
      unfold le compare? at hle
      rw [decode_zero, hp] at hle
      cases hle
  | infinite s =>
      cases s with
      | false =>
          unfold le compare? at hone
          rw [hp, hdecode] at hone
          cases hone
      | true =>
          unfold le compare? at hle
          rw [decode_zero, hp] at hle
          cases hle
  | finite s m e =>
      refine ⟨s, m, e, hp, ?_⟩
      intro hs
      subst hs
      rw [le_iff_of_finite decode_zero hp, scaled_zero] at hle
      exact eq_zero_of_scaled hle

/-- What is not below zero is not less than zero. -/
theorem not_lt_zero (h : zero.le u = true) : u.lt zero = false := by
  cases hu : u.decode with
  | nan s payload =>
      unfold lt compare?
      rw [hu]
      rfl
  | infinite s =>
      cases s with
      | false =>
          unfold lt compare?
          rw [hu, decode_zero]
          rfl
      | true =>
          unfold le compare? at h
          rw [decode_zero, hu] at h
          cases h
  | finite s m e =>
      rw [le_iff_of_finite decode_zero hu, scaled_zero, Int.min_comm] at h
      rw [Bool.eq_false_iff, ne_eq, lt_iff_of_finite hu decode_zero, scaled_zero]
      omega

/-! ### Sums -/

theorem unsigned_zero : zero.Unsigned := Or.inl ⟨0, -1074, decode_zero⟩

/-- What is rounded without a sign has none. -/
theorem unsigned_rounded (m : Nat) (e : Int) (more : Bool) : (rounded false m e more).Unsigned := by
  have hinfinity : Format.binary64.infinity = 2047 * 2 ^ 52 := rfl
  have hmark : Format.binary64.signBit = 2 ^ 63 := rfl
  have hbits := Format.binary64.round_le m e more
  rw [hinfinity] at hbits
  obtain ⟨s, field, fraction, hfield, hfraction, hfields⟩ := exists_fields (round_lt false m e more)
  have hsign : s = false := by
    cases s with
    | false => rfl
    | true =>
        have hlarge : Format.binary64.signBit ≤ Format.binary64.round false m e more := by
          rw [hfields]
          exact Nat.le_add_right _ _
        omega
  subst hsign
  unfold Unsigned
  rw [decode_rounded, hfields, decode_fields false hfield hfraction]
  by_cases hlast : field = 2047
  · have hzero : fraction = 0 := by
      have hplain : Format.binary64.withSign false (field * 2 ^ 52 + fraction) =
          field * 2 ^ 52 + fraction := rfl
      omega
    rw [if_pos hlast, if_pos hzero]
    exact Or.inr rfl
  · rw [if_neg hlast]
    by_cases hfirst : field = 0
    · rw [if_pos hfirst]
      exact Or.inl ⟨_, _, rfl⟩
    · rw [if_neg hfirst]
      exact Or.inl ⟨_, _, rfl⟩

/-- **A running sum stays without a sign.** -/
theorem Unsigned.add (hx : x.Unsigned) (hp : p.Summand) : (x.add p).Unsigned := by
  obtain ⟨s, n, k, hdp, hs⟩ := hp
  rcases hx with ⟨m, e, hdx⟩ | hdx
  · have hnonneg : 0 ≤ scaled s n k (min e k) := by
      cases s with
      | true =>
          have hzero : scaled true n k (min e k) = 0 := by rw [hs rfl, scaled_zero]
          exact Int.le_of_eq hzero.symm
      | false => exact Int.natCast_nonneg _
    have hnonneg' : 0 ≤ scaled false m e (min e k) := Int.natCast_nonneg _
    unfold Binary64.add
    rw [hdx, hdp]
    simp only
    by_cases hzero : scaled false m e (min e k) + scaled s n k (min e k) = 0
    · rw [if_pos hzero]
      exact unsigned_rounded ..
    · have hsign : decide (scaled false m e (min e k) + scaled s n k (min e k) < 0) = false :=
        decide_eq_false (by omega)
      rw [if_neg hzero, hsign]
      exact unsigned_rounded ..
  · have hsum : x.add p = x := by
      unfold Binary64.add
      rw [hdx, hdp]
    rw [hsum]
    exact Or.inr hdx

/-- **A zero adds nothing**, whatever its sign. -/
theorem Unsigned.add_zero (hx : x.Unsigned) (hp : p.Summand) (hzero : p.eq zero = true) :
    x.add p = x := by
  obtain ⟨s, n, k, hdp, -⟩ := hp
  obtain rfl : n = 0 := by
    rw [eq_iff_of_finite hdp decode_zero, scaled_zero] at hzero
    exact eq_zero_of_scaled_eq hzero
  rcases hx with ⟨m, e, hdx⟩ | hdx
  · have hbits : rounded false m e false = x := by
      have hround := round_decode x.bits.toNat_lt hdx
      unfold rounded ofNatBits
      rw [hround, UInt64.ofNat_toNat]
    have hshift : min e k = e - ((e - min e k).toNat : Int) := by omega
    have hsum : scaled false m e (min e k) + scaled s 0 k (min e k) =
        ((m * 2 ^ (e - min e k).toNat : Nat) : Int) := by
      rw [scaled_zero, Int.add_zero]
      rfl
    unfold Binary64.add
    rw [hdx, hdp]
    simp only
    rw [hsum]
    by_cases hm : m = 0
    · subst hm
      have hnone : ((0 * 2 ^ (e - min e k).toNat : Nat) : Int) = 0 := by
        rw [Nat.zero_mul]
        rfl
      rw [if_pos hnone, ← hbits]
      show rounded false 0 0 false = rounded false 0 e false
      unfold rounded
      rw [Format.round_zero, Format.round_zero]
    · have hne : m * 2 ^ (e - min e k).toNat ≠ 0 :=
        Nat.mul_ne_zero hm (Nat.ne_of_gt (Nat.two_pow_pos _))
      have hsign : decide (((m * 2 ^ (e - min e k).toNat : Nat) : Int) < 0) = false :=
        decide_eq_false (by omega)
      have hround := Format.binary64.round_shift false m (e - min e k).toNat e
      rw [← hshift] at hround
      rw [if_neg (by omega), hsign, Int.natAbs_natCast]
      unfold rounded at hbits ⊢
      rw [hround]
      exact hbits
  · unfold Binary64.add
    rw [hdx, hdp]

end Binary64

end ArrayLifetimes
