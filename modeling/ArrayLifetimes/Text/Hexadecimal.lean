/-
Hexadecimal digits, in letters of either case.
-/

namespace ArrayLifetimes

namespace Text

/-- The value of a digit. -/
def hexDigit? (c : Char) : Option Nat :=
  if c.isDigit then some (c.toNat - '0'.toNat)
  else if 'a' ≤ c ∧ c ≤ 'f' then some (c.toNat - 'a'.toNat + 10)
  else if 'A' ≤ c ∧ c ≤ 'F' then some (c.toNat - 'A'.toNat + 10)
  else none

/-- The number of four hexadecimal digits. -/
def hexUnit? (a b c d : Char) : Option Nat := do
  let a ← hexDigit? a
  let b ← hexDigit? b
  let c ← hexDigit? c
  let d ← hexDigit? d
  some (4096 * a + 256 * b + 16 * c + d)

theorem hexDigit?_lt {c : Char} {n : Nat} (h : hexDigit? c = some n) : n < 16 := by
  unfold hexDigit? at h
  split at h
  · rename_i hc
    simp only [Char.isDigit, Bool.and_eq_true, decide_eq_true_eq, UInt32.le_iff_toNat_le] at hc
    simp only [Option.some.injEq] at h
    have : c.toNat ≤ 57 := hc.2
    have : '0'.toNat = 48 := rfl
    omega
  · split at h
    · rename_i hc
      simp only [Option.some.injEq] at h
      have : c.toNat ≤ 102 := hc.2
      have : 'a'.toNat = 97 := rfl
      omega
    · split at h
      · rename_i hc
        simp only [Option.some.injEq] at h
        have : c.toNat ≤ 70 := hc.2
        have : 'A'.toNat = 65 := rfl
        omega
      · simp at h

end Text

end ArrayLifetimes
