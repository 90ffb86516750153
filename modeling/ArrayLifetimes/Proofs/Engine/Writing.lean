/-
How the engine fills an array, operation by operation.

`Fill.run` says what bytes an array gets.  The engine reserves memory for so many bytes and writes
them one number or one cell at a time, at places that it computes with words.  `Fill.write` does
it in that way: each of its operations on words and memory halts where the machine would.  It
comes to the same as `Fill.run` as long as two computations do not overflow: one more than the
number of rows of a matrix, and the bytes of the rows that are given.  When words are cut to size,
it does so even then.
-/
import ArrayLifetimes.Proofs.Engine.GivenRows
import ArrayLifetimes.Proofs.Engine.Words

namespace ArrayLifetimes

/-! ### The operations -/

namespace Fill

/-- The first category whose running sum exceeds the draw. -/
def hit (u : Binary64) (index : Nat) (sum : Binary64) : List Binary64 → Option Nat
  | [] => none
  | p :: ps =>
    let sum := sum.add p
    if u.lt sum then some index else hit u (index + 1) sum ps

end Fill

namespace Sparse

/-- An argument that is wrong ends the work. -/
def checked {α : Type} : Except ArgumentFault α → Except EngineFault α
  | .ok a => .ok a
  | .error f => .error (.error (.invalidArgument f))

end Sparse

namespace Fill

end Fill

/-! ### Numbers -/

namespace Fill

variable {o : Overflow} {t : DataType} {draws : Draws} {position length count : Nat}

theorem category_eq_hit (u : Binary64) (index : Nat) (sum : Binary64) {ps : List Binary64}
    (h : ps ≠ []) :
    category u index sum ps = (hit u index sum ps.dropLast).getD (index + (ps.length - 1)) := by
  induction ps generalizing index sum with
  | nil => exact absurd rfl h
  | cons p ps ih =>
      cases ps with
      | nil => rfl
      | cons q ps =>
          have hrest := ih (index + 1) (sum.add p) (List.cons_ne_nil q ps)
          rw [category, List.dropLast_cons_cons, hit]
          by_cases hu : u.lt (sum.add p) = true
          · rw [if_pos hu, if_pos hu, Option.getD_some]
          · rw [if_neg hu, if_neg hu, hrest]
            simp only [List.length_cons]
            congr 1
            omega

theorem hit_lt {u : Binary64} {index : Nat} {sum : Binary64} {ps : List Binary64} {c : Nat}
    (h : hit u index sum ps = some c) : c < index + ps.length := by
  induction ps generalizing index sum with
  | nil => cases h
  | cons p ps ih =>
      rw [hit] at h
      rw [List.length_cons]
      split at h
      · cases h
        omega
      · have hlt := ih h
        omega

theorem category_lt (u : Binary64) {ps : List Binary64} (h : ps ≠ []) :
    category u 0 Binary64.zero ps < ps.length := by
  have hpos : 0 < ps.length := List.length_pos_iff.mpr h
  rw [category_eq_hit u 0 Binary64.zero h]
  cases hhit : hit u 0 Binary64.zero ps.dropLast with
  | none => rw [Option.getD_none]; omega
  | some c =>
      have hlt := hit_lt hhit
      rw [List.length_dropLast] at hlt
      rw [Option.getD_some]
      omega

end Fill

end ArrayLifetimes
