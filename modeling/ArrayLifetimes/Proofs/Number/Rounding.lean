/-
Rounding to 53 binary digits.

A number of the format has a significand of at most 53 binary digits.  An integer with more of
them is rounded: the digits past the first 53 are cut off, and the rest decides whether the last
digit goes up.  `Nearest` says what comes of it without a word about digits that are cut: no
integer of 53 digits is closer, and if another one is as close, the result gets by with 52.  At a
tie the two candidates are neighbours, of which one has an even significand, so that is the rule
that a tie goes to the even one, and it leaves one result only (`Nearest.unique`).

What a significand and an exponent are rounded to depends only on the number that they make up
(`round_shift`), and what the format holds is rounded to itself (`round_decode`).
-/
import ArrayLifetimes.Number.Binary

namespace ArrayLifetimes

namespace Number

/-! ### Digits -/

/-- The number has at most so many binary digits, up to the zeros at its end. -/
def Digits (count n : Nat) : Prop := ∃ m e, m < 2 ^ count ∧ n = m * 2 ^ e

theorem digits_of_lt {count n : Nat} (h : n < 2 ^ count) : Digits count n :=
  ⟨n, 0, h, (Nat.mul_one n).symm⟩

theorem digits_two_pow {count : Nat} (h : 0 < count) (e : Nat) : Digits count (2 ^ e) :=
  ⟨1, e, Nat.one_lt_two_pow (Nat.ne_of_gt h), (Nat.one_mul _).symm⟩

theorem digits_of_le {count n : Nat} (hc : 0 < count) (h : n ≤ 2 ^ count) : Digits count n := by
  rcases Nat.lt_or_eq_of_le h with hlt | rfl
  · exact digits_of_lt hlt
  · exact digits_two_pow hc count

/-- Between neighbouring multiples of a power of two there is no number of few digits, if the
multiples have that many. -/
theorem Digits.beside {k q : Nat} (hk : Digits 53 k) (hq : 2 ^ 52 ≤ q) (shift : Nat) :
    k ≤ q * 2 ^ shift ∨ (q + 1) * 2 ^ shift ≤ k := by
  obtain ⟨m, e, hm, rfl⟩ := hk
  by_cases he : shift ≤ e
  · have hsplit : m * 2 ^ e = m * 2 ^ (e - shift) * 2 ^ shift := by
      rw [Nat.mul_assoc, ← Nat.pow_add, Nat.sub_add_cancel he]
    rw [hsplit]
    by_cases hle : m * 2 ^ (e - shift) ≤ q
    · exact Or.inl (Nat.mul_le_mul_right _ hle)
    · exact Or.inr (Nat.mul_le_mul_right _ (Nat.not_le.mp hle))
  · -- The number is below `2 ^ 53 * 2 ^ e`, so below the multiples.
    have hpow : (2 : Nat) ^ (e + 1) ≤ 2 ^ shift := Nat.pow_le_pow_right Nat.two_pos (by omega)
    left
    calc m * 2 ^ e ≤ 2 ^ 53 * 2 ^ e := Nat.mul_le_mul_right _ (Nat.le_of_lt hm)
      _ = 2 ^ 52 * 2 ^ (e + 1) := by
          rw [Nat.pow_succ' (m := 2) (n := e), ← Nat.mul_assoc, ← Nat.pow_succ]
      _ ≤ q * 2 ^ shift := Nat.mul_le_mul hq hpow

/-! ### The nearest number of 53 digits -/

/-- The second integer is the one to which the first one is rounded. -/
structure Nearest (n r : Int) : Prop where
  digits : Digits 53 r.natAbs
  closest : ∀ k : Int, Digits 53 k.natAbs → (n - r).natAbs ≤ (n - k).natAbs
  /-- Of two that are as close, it is the one of fewer digits. -/
  even : ∀ k : Int, Digits 53 k.natAbs → k ≠ r → (n - k).natAbs = (n - r).natAbs →
    Digits 52 r.natAbs

/-- What has few digits is rounded to itself. -/
theorem Nearest.eq {n r : Int} (h : Nearest n r) (hn : Digits 53 n.natAbs) : r = n := by
  have hle := h.closest n hn
  omega

theorem nearest_self {n : Int} (hn : Digits 53 n.natAbs) : Nearest n n := by
  refine ⟨hn, ?_, ?_⟩
  · intro k _
    omega
  · intro k _ hne heq
    omega

/-- An integer of few digits is a small one times a power of two. -/
theorem Digits.exists_mul {count : Nat} {k : Int} (h : Digits count k.natAbs) :
    ∃ (a : Int) (e : Nat), a.natAbs < 2 ^ count ∧ k = a * ((2 ^ e : Nat) : Int) := by
  obtain ⟨m, e, hm, hk⟩ := h
  have hcast : (k.natAbs : Int) = (m : Int) * ((2 ^ e : Nat) : Int) := by
    rw [hk, Int.natCast_mul]
  rcases Int.natAbs_eq k with hpos | hneg
  · exact ⟨m, e, hm, hpos.trans hcast⟩
  · refine ⟨-(m : Int), e, ?_, ?_⟩
    · rw [Int.natAbs_neg]
      exact hm
    · rw [Int.neg_mul, ← hcast]
      exact hneg

theorem digits_mul {count : Nat} {a : Int} (ha : a.natAbs < 2 ^ count) (e : Nat) :
    Digits count (a * ((2 ^ e : Nat) : Int)).natAbs :=
  ⟨a.natAbs, e, ha, by rw [Int.natAbs_mul, Int.natAbs_natCast]⟩

/-- Two multiples of a power of two, one of them of 52 digits, are not both the nearest: there is a
number of 53 digits between them, be it a multiple or halfway to the next one. -/
theorem Nearest.not_multiples {n a b : Int} {e : Nat} (h : Nearest n (a * ((2 ^ e : Nat) : Int)))
    (h' : Nearest n (b * ((2 ^ e : Nat) : Int))) (hsmall : a.natAbs < 2 ^ 52 ∨ b.natAbs < 2 ^ 52) :
    ¬ a < b := by
  intro hlt
  have hpos : 0 < ((2 ^ e : Nat) : Int) := Int.natCast_pos.mpr (Nat.two_pow_pos e)
  have hle := h.closest _ h'.digits
  have hle' := h'.closest _ h.digits
  have hbetween : ∀ k : Int, a < k → k < b → ¬ k.natAbs < 2 ^ 53 := by
    intro k hak hkb hk
    have hcloser := h.closest _ (digits_mul hk e)
    have hlow := Int.mul_lt_mul_of_pos_right hak hpos
    have hhigh := Int.mul_lt_mul_of_pos_right hkb hpos
    omega
  by_cases hnext : b = a + 1
  · subst hnext
    rw [Int.add_mul, Int.one_mul] at hle hle'
    cases e with
    | zero =>
        -- Neighbours have nothing halfway between them.
        rw [Nat.pow_zero, Int.natCast_one] at hle hle'
        omega
    | succ e =>
        have hdouble : ((2 ^ (e + 1) : Nat) : Int) = 2 * ((2 ^ e : Nat) : Int) := by
          rw [Nat.pow_succ', Int.natCast_mul]
          rfl
        have hhalf : n = (2 * a + 1) * ((2 ^ e : Nat) : Int) := by
          have hexpand : (2 * a + 1) * ((2 ^ e : Nat) : Int) =
              a * (2 * ((2 ^ e : Nat) : Int)) + ((2 ^ e : Nat) : Int) := by
            rw [Int.add_mul, Int.one_mul, Int.mul_comm 2 a, Int.mul_assoc]
          rw [hdouble] at hle hle' hpos
          omega
        have hdigits : Digits 53 n.natAbs := by
          rw [hhalf]
          exact digits_mul (by omega) e
        have heq := h.eq hdigits
        have heq' := h'.eq hdigits
        rw [Int.add_mul, Int.one_mul] at heq'
        omega
  · rcases hsmall with ha | hb
    · exact hbetween (a + 1) (by omega) (by omega) (by omega)
    · exact hbetween (b - 1) (by omega) (by omega) (by omega)

/-- **The nearest number is one number only.** -/
theorem Nearest.unique {n r r' : Int} (h : Nearest n r) (h' : Nearest n r') : r = r' := by
  have hle := h.closest r' h'.digits
  have hle' := h'.closest r h.digits
  by_cases hne : r = r'
  · exact hne
  · obtain ⟨a, e, ha, rfl⟩ := (h.even r' h'.digits (Ne.symm hne) (by omega)).exists_mul
    obtain ⟨b, f, hb, rfl⟩ := (h'.even _ h.digits hne (by omega)).exists_mul
    -- Both are multiples of the lower power.
    have hcommon : ∀ {c : Int} {low high : Nat}, low ≤ high → c * ((2 ^ high : Nat) : Int) =
        c * ((2 ^ (high - low) : Nat) : Int) * ((2 ^ low : Nat) : Int) := by
      intro c low high hle
      rw [Int.mul_assoc, ← Int.natCast_mul, ← Nat.pow_add, Nat.sub_add_cancel hle]
    exfalso
    rcases Nat.le_total e f with hef | hfe
    · rw [hcommon hef] at h' hne
      have hnot := h.not_multiples h' (Or.inl ha)
      have hnot' := h'.not_multiples h (Or.inr ha)
      apply hne
      rw [show a = b * ((2 ^ (f - e) : Nat) : Int) by omega]
    · rw [hcommon hfe] at h hne
      have hnot := h.not_multiples h' (Or.inr hb)
      have hnot' := h'.not_multiples h (Or.inl hb)
      apply hne
      rw [show b = a * ((2 ^ (e - f) : Nat) : Int) by omega]

/-- Signs play no part in rounding. -/
theorem nearest_signed (s : Bool) {m r : Nat} (h : Nearest m r) :
    Nearest (Binary64.signed s m) (Binary64.signed s r) := by
  cases s with
  | false => exact h
  | true =>
      show Nearest (-(m : Int)) (-(r : Int))
      refine ⟨?_, ?_, ?_⟩
      · rw [Int.natAbs_neg]
        exact h.digits
      · intro k hk
        have hle := h.closest (-k) (by rw [Int.natAbs_neg]; exact hk)
        omega
      · intro k hk hne heq
        rw [Int.natAbs_neg]
        exact h.even (-k) (by rw [Int.natAbs_neg]; exact hk) (by omega) (by omega)

/-- Only numbers that are not negative compete for one that is not. -/
theorem nearest_of_nat {m r : Nat} (hd : Digits 53 r)
    (hc : ∀ k : Nat, Digits 53 k → ((m : Int) - r).natAbs ≤ ((m : Int) - k).natAbs)
    (he : ∀ k : Nat, Digits 53 k → k ≠ r → ((m : Int) - k).natAbs = ((m : Int) - r).natAbs →
      Digits 52 r) : Nearest m r := by
  refine ⟨hd, ?_, ?_⟩
  · intro k hk
    have hle := hc k.natAbs hk
    omega
  · intro k hk hne heq
    have hle := hc k.natAbs hk
    have hzero := hc 0 (digits_of_lt (Nat.two_pow_pos 53))
    refine he k.natAbs hk ?_ ?_ <;> omega

/-! ### Half to even -/

theorem halfToEven_cases (m shift : Nat) :
    (halfToEven m shift false = m / 2 ^ shift ∧ 2 * (m % 2 ^ shift) ≤ 2 ^ shift ∧
        (2 * (m % 2 ^ shift) = 2 ^ shift → m / 2 ^ shift % 2 = 0)) ∨
      (halfToEven m shift false = m / 2 ^ shift + 1 ∧ 2 ^ shift ≤ 2 * (m % 2 ^ shift) ∧
        (2 * (m % 2 ^ shift) = 2 ^ shift → m / 2 ^ shift % 2 = 1)) := by
  unfold halfToEven
  by_cases hs : shift = 0
  · subst hs
    left
    refine ⟨rfl, ?_, ?_⟩ <;> omega
  · by_cases hlt : 2 * (m % 2 ^ shift) < 2 ^ shift
    · left
      simp only [hs, hlt, if_true, if_false]
      refine ⟨trivial, ?_, ?_⟩ <;> omega
    · by_cases heq : 2 * (m % 2 ^ shift) = 2 ^ shift
      · by_cases heven : m / 2 ^ shift % 2 = 0
        · left
          simp [hs, heq, heven]
        · right
          simp [hs, heq, heven]
          omega
      · right
        simp [hs, hlt, heq]
        omega

/-- More zeros at the end make no difference. -/
theorem halfToEven_mul (m shift j : Nat) :
    halfToEven (m * 2 ^ j) (shift + j) false = halfToEven m shift false := by
  have hj := Nat.two_pow_pos j
  have hwhole : m * 2 ^ j / 2 ^ (shift + j) = m / 2 ^ shift := by
    rw [Nat.pow_add, Nat.mul_div_mul_right _ _ hj]
  have hrest : m * 2 ^ j % 2 ^ (shift + j) = m % 2 ^ shift * 2 ^ j := by
    rw [Nat.pow_add, Nat.mul_mod_mul_right]
  have hlt : 2 * (m % 2 ^ shift * 2 ^ j) < 2 ^ (shift + j) ↔ 2 * (m % 2 ^ shift) < 2 ^ shift := by
    rw [Nat.pow_add, ← Nat.mul_assoc, Nat.mul_lt_mul_right hj]
  have heq : 2 * (m % 2 ^ shift * 2 ^ j) = 2 ^ (shift + j) ↔ 2 * (m % 2 ^ shift) = 2 ^ shift := by
    rw [Nat.pow_add, ← Nat.mul_assoc]
    exact Nat.mul_left_inj (Nat.ne_of_gt hj)
  unfold halfToEven
  simp only [hwhole, hrest, hlt, heq]
  by_cases hs : shift = 0
  · subst hs
    simp [Nat.mod_one]
  · simp [hs]

theorem halfToEven_of_le (m : Nat) {shift j : Nat} (h : shift ≤ j) :
    halfToEven (m * 2 ^ j) shift false = m * 2 ^ (j - shift) := by
  have hsplit : m * 2 ^ j = m * 2 ^ (j - shift) * 2 ^ shift := by
    rw [Nat.mul_assoc, ← Nat.pow_add, Nat.sub_add_cancel h]
  have hmul := halfToEven_mul (m * 2 ^ (j - shift)) 0 shift
  rw [Nat.zero_add, ← hsplit] at hmul
  rw [hmul]
  unfold halfToEven
  simp

/-- **The nearest multiple is the nearest number of 53 digits**, if the quotient has that many. -/
theorem nearest_halfToEven {m shift : Nat} (hq : 2 ^ 52 ≤ m / 2 ^ shift)
    (hq' : m / 2 ^ shift < 2 ^ 53) :
    Nearest m ((halfToEven m shift false * 2 ^ shift : Nat) : Int) := by
  have hm := Nat.div_add_mod' m (2 ^ shift)
  have hr := Nat.mod_lt m (Nat.two_pow_pos shift)
  have hcases := halfToEven_cases m shift
  have hsucc : (m / 2 ^ shift + 1) * 2 ^ shift = m / 2 ^ shift * 2 ^ shift + 2 ^ shift :=
    Nat.succ_mul _ _
  have hle : halfToEven m shift false ≤ 2 ^ 53 := by
    rcases hcases with ⟨h, -⟩ | ⟨h, -⟩ <;> omega
  have hdigits : ∀ count e, halfToEven m shift false = 2 ^ e → 0 < count →
      Digits count (halfToEven m shift false * 2 ^ shift) := by
    intro count e he hcount
    rw [he, ← Nat.pow_add]
    exact digits_two_pow hcount _
  refine nearest_of_nat ?_ ?_ ?_
  · rcases Nat.lt_or_eq_of_le hle with hlt | heq
    · exact ⟨_, shift, hlt, rfl⟩
    · exact hdigits 53 53 heq (by decide)
  · intro k hk
    have hside := hk.beside hq shift
    rw [hsucc] at hside
    rcases hcases with ⟨h, hhalf, -⟩ | ⟨h, hhalf, -⟩
    · rw [h]
      omega
    · rw [h, hsucc]
      omega
  · intro k hk hne heq
    have hside := hk.beside hq shift
    rw [hsucc] at hside
    -- Another candidate is as close only at a tie, so the result is even.
    have heven : halfToEven m shift false % 2 = 0 := by
      rcases hcases with ⟨h, hhalf, htie⟩ | ⟨h, hhalf, htie⟩
      · rw [h] at hne heq ⊢
        exact htie (by omega)
      · rw [h, hsucc] at hne heq
        have hodd := htie (by omega)
        omega
    rcases Nat.lt_or_eq_of_le hle with hlt | hmax
    · refine ⟨halfToEven m shift false / 2, shift + 1, by omega, ?_⟩
      rw [Nat.pow_succ', ← Nat.mul_assoc, Nat.div_mul_cancel (Nat.dvd_of_mod_eq_zero heven)]
    · exact hdigits 52 53 hmax (by decide)

/-! ### Significands and exponents -/

/-- The significand and the exponent make up the number. -/
def MakesUp (m : Nat) (e : Int) (n : Nat) : Prop := m * 2 ^ e.toNat = n * 2 ^ (-e).toNat

theorem MakesUp.eq_zero_iff {m n : Nat} {e : Int} (h : MakesUp m e n) : m = 0 ↔ n = 0 := by
  have hup := Nat.two_pow_pos e.toNat
  have hdown := Nat.two_pow_pos (-e).toNat
  constructor
  · intro hm
    rw [MakesUp, hm, Nat.zero_mul] at h
    exact (Nat.mul_eq_zero.mp h.symm).resolve_right (Nat.ne_of_gt hdown)
  · intro hn
    rw [MakesUp, hn, Nat.zero_mul] at h
    exact (Nat.mul_eq_zero.mp h).resolve_right (Nat.ne_of_gt hup)

/-- The significand for a lower exponent makes up the same number. -/
theorem MakesUp.lower {m n : Nat} {e low : Int} (h : MakesUp m e n) (hle : low ≤ e) :
    MakesUp (m * 2 ^ (e - low).toNat) low n := by
  unfold MakesUp at h ⊢
  have hsum : (e - low).toNat + low.toNat + (-e).toNat = e.toNat + (-low).toNat := by omega
  have hpos := Nat.two_pow_pos (-e).toNat
  apply Nat.eq_of_mul_eq_mul_right hpos
  calc m * 2 ^ (e - low).toNat * 2 ^ low.toNat * 2 ^ (-e).toNat
      = m * 2 ^ ((e - low).toNat + low.toNat + (-e).toNat) := by
        rw [Nat.pow_add, Nat.pow_add, Nat.mul_assoc, Nat.mul_assoc, ← Nat.mul_assoc (2 ^ _)]
    _ = m * 2 ^ e.toNat * 2 ^ (-low).toNat := by rw [hsum, Nat.pow_add, Nat.mul_assoc]
    _ = n * 2 ^ (-low).toNat * 2 ^ (-e).toNat := by rw [h, Nat.mul_right_comm]

/-! ### The fields of a number -/

theorem lowest_binary64 : Format.binary64.lowest = -1074 := by decide

/-- Every word is a sign, an exponent field and a fraction. -/
theorem exists_fields {bits : Nat} (h : bits < 2 ^ 64) :
    ∃ s field fraction, field < 2 ^ 11 ∧ fraction < 2 ^ 52 ∧
      bits = Format.binary64.withSign s (field * 2 ^ 52 + fraction) := by
  refine ⟨decide (2 ^ 63 ≤ bits), bits / 2 ^ 52 % 2 ^ 11, bits % 2 ^ 52, ?_, ?_, ?_⟩
  · omega
  · omega
  · show bits = if decide (2 ^ 63 ≤ bits) then 2 ^ 63 + _ else _
    by_cases hs : 2 ^ 63 ≤ bits
    · rw [if_pos (decide_eq_true hs)]
      omega
    · rw [if_neg (by simpa using hs)]
      omega

theorem decode_fields (s : Bool) {field fraction : Nat} (hfield : field < 2 ^ 11)
    (hfraction : fraction < 2 ^ 52) :
    Format.binary64.decode (Format.binary64.withSign s (field * 2 ^ 52 + fraction)) =
      if field = 2047 then (if fraction = 0 then .infinite s else .nan s fraction)
      else if field = 0 then .finite s fraction (-1074)
      else .finite s (2 ^ 52 + fraction) (-1074 + field - 1) := by
  have hbits : Format.binary64.withSign s (field * 2 ^ 52 + fraction) =
      (if s then 2 ^ 63 else 0) + (field * 2 ^ 52 + fraction) := by
    cases s with
    | false => exact (Nat.zero_add _).symm
    | true => rfl
  have hsign : ((if s then 2 ^ 63 else 0) + (field * 2 ^ 52 + fraction)) / 2 ^ 63 % 2 =
      if s then 1 else 0 := by
    cases s <;> simp only [if_true, Bool.false_eq_true, if_false] <;> omega
  have hexponent : ((if s then 2 ^ 63 else 0) + (field * 2 ^ 52 + fraction)) / 2 ^ 52 % 2 ^ 11 =
      field := by
    cases s <;> simp only [if_true, Bool.false_eq_true, if_false] <;> omega
  have hrest : ((if s then 2 ^ 63 else 0) + (field * 2 ^ 52 + fraction)) % 2 ^ 52 = fraction := by
    cases s <;> simp only [if_true, Bool.false_eq_true, if_false] <;> omega
  have hnegative : decide ((if s then 1 else 0) = 1) = s := by
    cases s <;> rfl
  have hmark : Format.binary64.signBit = 2 ^ 63 := rfl
  have hplaces : Format.binary64.fraction = 52 := rfl
  have hrange : Format.binary64.exponent = 11 := rfl
  rw [hbits, ← lowest_binary64]
  simp only [Format.decode, hmark, hplaces, hrange, hsign, hexponent, hrest, hnegative]
  rfl

/-! ### Rounding to the format -/

theorem log2_mul_two_pow {m : Nat} (hm : m ≠ 0) (j : Nat) :
    (m * 2 ^ j).log2 = m.log2 + j := by
  have hne : m * 2 ^ j ≠ 0 := Nat.mul_ne_zero hm (Nat.ne_of_gt (Nat.two_pow_pos j))
  rw [Nat.log2_eq_iff hne]
  constructor
  · rw [Nat.pow_add]
    exact Nat.mul_le_mul_right _ (Nat.log2_self_le hm)
  · rw [Nat.add_right_comm, Nat.pow_add]
    exact Nat.mul_lt_mul_of_pos_right Nat.lt_log2_self (Nat.two_pow_pos j)

/-- **Rounding depends only on the number**, not on the significand and the exponent that make
it up. -/
theorem Format.round_shift (f : Format) (s : Bool) (m j : Nat) (e : Int) :
    f.round s (m * 2 ^ j) (e - j) false = f.round s m e false := by
  by_cases hm : m = 0
  · rw [hm, Nat.zero_mul]
    rfl
  · have hne : m * 2 ^ j ≠ 0 := Nat.mul_ne_zero hm (Nat.ne_of_gt (Nat.two_pow_pos j))
    have hlast : e - j + ((m * 2 ^ j).log2 : Int) - f.fraction = e + m.log2 - f.fraction := by
      rw [log2_mul_two_pow hm]
      omega
    unfold Format.round
    rw [if_neg hm, if_neg hne, hlast]
    generalize max (e + (m.log2 : Int) - f.fraction) f.lowest = last
    have hsignificand : (if last ≤ e - j then m * 2 ^ j * 2 ^ (e - j - last).toNat
        else halfToEven (m * 2 ^ j) (last - (e - j)).toNat false) =
        if last ≤ e then m * 2 ^ (e - last).toNat else halfToEven m (last - e).toNat false := by
      by_cases hfar : last ≤ e - j
      · have hsum : j + (e - j - last).toNat = (e - last).toNat := by omega
        rw [if_pos hfar, if_pos (by omega), Nat.mul_assoc, ← Nat.pow_add, hsum]
      · rw [if_neg hfar]
        by_cases hnear : last ≤ e
        · have hdiff : j - (last - (e - j)).toNat = (e - last).toNat := by omega
          rw [if_pos hnear, halfToEven_of_le m (by omega), hdiff]
        · have hsum : (last - (e - j)).toNat = (last - e).toNat + j := by omega
          rw [if_neg hnear, hsum, halfToEven_mul]
    simp only [hsignificand]

/-- What has a place in the format goes there. -/
theorem round_of_fits (s : Bool) {m : Nat} {e : Int} (hm : m ≠ 0) (hlt : m < 2 ^ 53)
    (hfull : 2 ^ 52 ≤ m ∨ e = -1074) (hlow : -1074 ≤ e) (hhigh : e ≤ 971) :
    Format.binary64.round s m e false =
      Format.binary64.withSign s ((e + 1074).toNat * 2 ^ 52 + m) := by
  have hlog : m.log2 < 53 := (Nat.log2_lt hm).mpr hlt
  have hlast : max (e + (m.log2 : Int) - (52 : Nat)) (-1074) = e := by
    rcases hfull with hfull | rfl
    · have hle : 52 ≤ m.log2 := (Nat.le_log2 hm).mpr hfull
      omega
    · omega
  have hinfinity : Format.binary64.infinity = 2047 * 2 ^ 52 := rfl
  have hmagnitude : (e + 1074).toNat * 2 ^ 52 + m ≤ Format.binary64.infinity := by
    omega
  have hplaces : Format.binary64.fraction = 52 := rfl
  have hexact : m * 2 ^ (e - e).toNat = m := by
    rw [Int.sub_self]
    exact Nat.mul_one m
  unfold Format.round
  simp only [hm, if_false, lowest_binary64, hplaces, hlast, Int.le_refl, if_true, hexact,
    Int.sub_neg, Nat.min_eq_left hmagnitude]

/-- The largest magnitude is that of infinity. -/
theorem round_lt (s : Bool) (m : Nat) (e : Int) (more : Bool) :
    Format.binary64.round s m e more < 2 ^ 64 := by
  have hle : ∀ magnitude, magnitude ≤ Format.binary64.infinity →
      Format.binary64.withSign s magnitude < 2 ^ 64 := by
    intro magnitude hm
    have hinfinity : Format.binary64.infinity = 2047 * 2 ^ 52 := rfl
    have hsign : Format.binary64.signBit = 2 ^ 63 := rfl
    unfold Format.withSign
    split <;> omega
  unfold Format.round
  split
  · exact hle 0 (Nat.zero_le _)
  · exact hle _ (Nat.min_le_right _ _)

/-- **What the format holds is rounded to itself.** -/
theorem round_decode {bits : Nat} (hbits : bits < 2 ^ 64) {s : Bool} {m : Nat} {e : Int}
    (h : Format.binary64.decode bits = .finite s m e) :
    Format.binary64.round s m e false = bits := by
  obtain ⟨s', field, fraction, hfield, hfraction, rfl⟩ := exists_fields hbits
  rw [decode_fields s' hfield hfraction] at h
  split at h
  · split at h <;> cases h
  · rename_i hfinite
    split at h
    · rename_i hzero
      obtain ⟨hs, hm, he⟩ := Reading.finite.inj h
      rw [← hs, ← hm, ← he, hzero, Nat.zero_mul, Nat.zero_add]
      by_cases hf : fraction = 0
      · rw [hf]
        rfl
      · rw [round_of_fits s' hf (by omega) (Or.inr rfl) (by omega) (by omega)]
        show Format.binary64.withSign s' (0 * 2 ^ 52 + fraction) = _
        rw [Nat.zero_mul, Nat.zero_add]
    · rename_i hzero
      obtain ⟨hs, hm, he⟩ := Reading.finite.inj h
      have hplace : (e + 1074).toNat * 2 ^ 52 + m = field * 2 ^ 52 + fraction := by omega
      rw [← hs, round_of_fits s' (by omega) (by omega) (Or.inl (by omega)) (by omega) (by omega),
        hplace]

/-- A number of 53 digits is read with its significand and its exponent. -/
theorem decode_of_fits (s : Bool) {m : Nat} {e : Int} (hfull : 2 ^ 52 ≤ m) (hlt : m < 2 ^ 53)
    (hlow : -1074 ≤ e) (hhigh : e ≤ 971) :
    Format.binary64.decode
      (Format.binary64.withSign s ((e + 1074).toNat * 2 ^ 52 + m)) = .finite s m e := by
  have hsplit : (e + 1074).toNat * 2 ^ 52 + m =
      ((e + 1074).toNat + 1) * 2 ^ 52 + (m - 2 ^ 52) := by
    omega
  have hexponent : -1074 + (((e + 1074).toNat + 1 : Nat) : Int) - 1 = e := by omega
  have hsignificand : 2 ^ 52 + (m - 2 ^ 52) = m := by omega
  rw [hsplit, decode_fields s (by omega) (by omega), if_neg (by omega), if_neg (by omega),
    hexponent, hsignificand]

/-- A carry out of the 53 digits goes into the exponent. -/
theorem exists_decode_of_carry (s : Bool) {m : Nat} {e : Int} (hfull : 2 ^ 52 ≤ m)
    (hle : m ≤ 2 ^ 53) (hlow : -1074 ≤ e) (hhigh : e ≤ 970) :
    ∃ (m' : Nat) (e' : Int), Format.binary64.decode
        (Format.binary64.withSign s ((e + 1074).toNat * 2 ^ 52 + m)) = .finite s m' e' ∧
      e ≤ e' ∧ m' * 2 ^ (e' - e).toNat = m := by
  by_cases hlt : m < 2 ^ 53
  · refine ⟨m, e, decode_of_fits s hfull hlt hlow (by omega), Int.le_refl e, ?_⟩
    rw [Int.sub_self]
    exact Nat.mul_one m
  · have hm : m = 2 ^ 53 := by omega
    have hone : (e + 1 - e).toNat = 1 := by omega
    have hplace : (e + 1074).toNat * 2 ^ 52 + m = (e + 1 + 1074).toNat * 2 ^ 52 + 2 ^ 52 := by
      omega
    refine ⟨2 ^ 52, e + 1, ?_, by omega, ?_⟩
    · rw [hplace]
      exact decode_of_fits s (Nat.le_refl _) (by decide) (by omega) (by omega)
    · rw [hone, hm]
      rfl

/-- What has too many digits is cut to 53 of them. -/
theorem round_of_cut (s : Bool) {n : Nat} (hn : n ≠ 0) (hlog : 52 < n.log2) (hlog' : n.log2 < 128)
    (hle : halfToEven n (n.log2 - 52) false ≤ 2 ^ 53) :
    Format.binary64.round s n 0 false = Format.binary64.withSign s
      ((((n.log2 - 52 : Nat) : Int) + 1074).toNat * 2 ^ 52 +
        halfToEven n (n.log2 - 52) false) := by
  have hlast : max (0 + (n.log2 : Int) - (52 : Nat)) (-1074) = ((n.log2 - 52 : Nat) : Int) := by
    omega
  have hnot : ¬ ((n.log2 - 52 : Nat) : Int) ≤ 0 := by omega
  have hshift : (((n.log2 - 52 : Nat) : Int) - 0).toNat = n.log2 - 52 := by omega
  have hinfinity : Format.binary64.infinity = 2047 * 2 ^ 52 := rfl
  have hplaces : Format.binary64.fraction = 52 := rfl
  have hmagnitude : (((n.log2 - 52 : Nat) : Int) + 1074).toNat * 2 ^ 52 +
      halfToEven n (n.log2 - 52) false ≤ Format.binary64.infinity := by
    omega
  unfold Format.round
  simp only [hn, if_false, lowest_binary64, hplaces, hlast, hnot, hshift, Int.sub_neg,
    Nat.min_eq_left hmagnitude]

/-- **An integer is rounded to the nearest one of 53 digits.** -/
theorem exists_nearest_round (s : Bool) {n : Nat} (hn : n ≠ 0) (hlt : n < 2 ^ 128) :
    ∃ (r m : Nat) (e : Int), Format.binary64.decode (Format.binary64.round s n 0 false) =
        .finite s m e ∧ MakesUp m e r ∧ Nearest n r := by
  have hlow := Nat.log2_self_le hn
  have hhigh := Nat.lt_log2_self (n := n)
  have hlog : n.log2 < 128 := (Nat.log2_lt hn).mpr hlt
  by_cases hsmall : n.log2 ≤ 52
  · -- A number of 53 digits is only filled up with zeros.
    obtain ⟨zeros, hzeros⟩ := Nat.exists_eq_add_of_le hsmall
    have hfull : 2 ^ 52 ≤ n * 2 ^ zeros := by
      rw [hzeros, Nat.pow_add]
      exact Nat.mul_le_mul_right _ hlow
    have hfit : n * 2 ^ zeros < 2 ^ (n.log2 + 1) * 2 ^ zeros :=
      Nat.mul_lt_mul_of_pos_right hhigh (Nat.two_pow_pos _)
    have hsum : n.log2 + 1 + zeros = 53 := by omega
    rw [← Nat.pow_add, hsum] at hfit
    have hdigits : n < 2 ^ 53 :=
      Nat.lt_of_lt_of_le hhigh (Nat.pow_le_pow_right Nat.two_pos (by omega))
    refine ⟨n, n * 2 ^ zeros, 0 - (zeros : Int), ?_, ?_, nearest_self (digits_of_lt hdigits)⟩
    · rw [← Format.round_shift _ s n zeros 0,
        round_of_fits s (by omega) hfit (Or.inl hfull) (by omega) (by omega)]
      exact decode_of_fits s hfull hfit (by omega) (by omega)
    · have hup : (0 - (zeros : Int)).toNat = 0 := by omega
      have hdown : (-(0 - (zeros : Int))).toNat = zeros := by omega
      rw [MakesUp, hup, hdown, Nat.pow_zero, Nat.mul_one]
  · -- A longer one is cut, and the rest decides.
    have hsum : 52 + (n.log2 - 52) = n.log2 := by omega
    have hsum' : 53 + (n.log2 - 52) = n.log2 + 1 := by omega
    have hquotient : 2 ^ 52 ≤ n / 2 ^ (n.log2 - 52) := by
      rw [Nat.le_div_iff_mul_le (Nat.two_pow_pos _), ← Nat.pow_add, hsum]
      exact hlow
    have hquotient' : n / 2 ^ (n.log2 - 52) < 2 ^ 53 := by
      rw [Nat.div_lt_iff_lt_mul (Nat.two_pow_pos _), ← Nat.pow_add, hsum']
      exact hhigh
    have hbounds : 2 ^ 52 ≤ halfToEven n (n.log2 - 52) false ∧
        halfToEven n (n.log2 - 52) false ≤ 2 ^ 53 := by
      rcases halfToEven_cases n (n.log2 - 52) with ⟨h, -⟩ | ⟨h, -⟩ <;> omega
    obtain ⟨m, e, hdecode, hle, hm⟩ := exists_decode_of_carry s
      (e := ((n.log2 - 52 : Nat) : Int)) hbounds.1 hbounds.2 (by omega) (by omega)
    refine ⟨halfToEven n (n.log2 - 52) false * 2 ^ (n.log2 - 52), m, e, ?_, ?_,
      nearest_halfToEven hquotient hquotient'⟩
    · rw [round_of_cut s hn (by omega) hlog hbounds.2]
      exact hdecode
    · have hup : e.toNat = (e - ((n.log2 - 52 : Nat) : Int)).toNat + (n.log2 - 52) := by omega
      have hdown : (-e).toNat = 0 := by omega
      rw [MakesUp, hup, hdown, Nat.pow_add, ← Nat.mul_assoc, hm, Nat.pow_zero, Nat.mul_one]

end Number

end ArrayLifetimes
