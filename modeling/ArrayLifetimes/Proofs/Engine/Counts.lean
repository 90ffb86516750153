/-
Counts of categories.

For each element of a batch the engine makes so many draws and counts how often each category is
hit.  Every draw hits one category, so the counts of a row add up to the number of draws.  A draw
hits the first category at which the running sum of the probabilities exceeds it.  If the
probability there is zero, the sum is what it was before, and then it did not exceed the draw; so
such a category is hit by none, unless it is the last one, which takes what is left.

The counts are stored as floating point numbers are, and are not changed by that: there are no more
of them than `2 ^ 53`.
-/
import ArrayLifetimes.Proofs.ElementCounts
import ArrayLifetimes.Proofs.Engine.Writing
import ArrayLifetimes.Proofs.Number.Sums
import Mathlib.Algebra.BigOperators.Ring.Finset
import Mathlib.Algebra.Order.BigOperators.Group.List

namespace ArrayLifetimes

open Number

namespace Fill

/-- The draw is in [0, 1). -/
structure IsDraw (u : Binary64) : Prop where
  nonneg : Binary64.zero.le u = true
  below : u.lt Binary64.one = true

/-- For each element of a batch, how often each category is hit in so many draws. -/
structure Counts (trials : Nat) (ps : List Binary64) (batch : Shape) (zs : List Int64) :
    Prop where
  length : zs.length = Shape.product batch.dims * ps.length
  nonneg : ∀ z ∈ zs, 0 ≤ z.toInt
  /-- The counts of a row are those of all draws. -/
  total : ∀ row, row < Shape.product batch.dims →
    ((rowOf ps.length zs row).map Int64.toInt).sum = trials
  /-- A category other than the last one is not hit if its probability is zero. -/
  unhit : ∀ row, row < Shape.product batch.dims → ∀ j p, j + 1 < ps.length → ps[j]? = some p →
    p.eq Binary64.zero = true → (rowOf ps.length zs row)[j]? = some 0
  empty : 0 ∈ batch.dims → zs = []

variable {u sum p : Binary64} {ps : List Binary64} {draws : Draws} {position trials rows : Nat}
  {batch : Shape}

/-! ### The category of a draw -/

theorem le_category (u : Binary64) (index : Nat) (sum : Binary64) (ps : List Binary64) :
    index ≤ category u index sum ps := by
  induction ps generalizing index sum with
  | nil => exact Nat.le_refl index
  | cons p ps ih =>
      cases ps with
      | nil => exact Nat.le_refl index
      | cons q ps =>
          rw [category]
          by_cases hu : u.lt (sum.add p) = true
          · rw [if_pos hu]
          · rw [if_neg hu]
            exact Nat.le_of_succ_le (ih (index + 1) (sum.add p))

/-- **What has no probability is not hit.**  The sum has not exceeded the draw so far. -/
theorem category_ne (index : Nat) (hu : u.lt sum = false) (hsum : sum.Unsigned)
    (hps : ∀ p ∈ ps, p.Summand) {j : Nat} (hj : j + 1 < ps.length) (hp : ps[j]? = some p)
    (hzero : p.eq Binary64.zero = true) : category u index sum ps ≠ index + j := by
  induction ps generalizing index sum j with
  | nil => cases hp
  | cons q ps ih =>
      cases ps with
      | nil =>
          rw [List.length_singleton] at hj
          omega
      | cons r ps =>
          have hq := hps q (List.mem_cons_self ..)
          have hrest : ∀ p ∈ r :: ps, p.Summand := fun p hmem => hps p (List.mem_cons_of_mem q hmem)
          rw [category]
          by_cases hhit : u.lt (sum.add q) = true
          · rw [if_pos hhit]
            cases j with
            | zero =>
                obtain rfl : q = p := Option.some.inj hp
                rw [hsum.add_zero hq hzero, hu] at hhit
                cases hhit
            | succ j => omega
          · rw [if_neg hhit]
            cases j with
            | zero =>
                have hle := le_category u (index + 1) (sum.add q) (r :: ps)
                omega
            | succ j =>
                have hnext := ih (index + 1) (Bool.eq_false_iff.mpr hhit) (hsum.add hq) hrest
                  (Nat.lt_of_succ_lt_succ hj) hp
                omega

/-! ### One row -/

/-- The categories that are hit by the draws for a row. -/
def hits (draws : Draws) (position trials : Nat) (ps : List Binary64) : List Nat :=
  (List.range trials).map fun i => category (draws (position + i)) 0 Binary64.zero ps

theorem countsFrom_eq (draws : Draws) (position trials : Nat) (ps : List Binary64) :
    countsFrom draws position trials ps =
      (hits draws position trials ps).foldl (fun counts c => counts.modify c (· + 1))
        (List.replicate ps.length 0) := by
  rw [hits, List.foldl_map]
  rfl

theorem sum_modify {counts : List Nat} {c : Nat} (hc : c < counts.length) :
    (counts.modify c (· + 1)).sum = counts.sum + 1 := by
  induction counts generalizing c with
  | nil => cases hc
  | cons n counts ih =>
      cases c with
      | zero =>
          rw [List.modify_zero_cons, List.sum_cons, List.sum_cons]
          omega
      | succ c =>
          rw [List.modify_succ_cons, List.sum_cons, List.sum_cons, ih (Nat.lt_of_succ_lt_succ hc)]
          omega

/-- Every hit counts once. -/
theorem sum_foldl_modify {cs counts : List Nat} (hc : ∀ c ∈ cs, c < counts.length) :
    (cs.foldl (fun counts c => counts.modify c (· + 1)) counts).sum = counts.sum + cs.length := by
  induction cs generalizing counts with
  | nil => rfl
  | cons c cs ih =>
      have hrest : ∀ d ∈ cs, d < (counts.modify c (· + 1)).length := by
        intro d hd
        rw [List.length_modify]
        exact hc d (List.mem_cons_of_mem c hd)
      rw [List.foldl_cons, ih hrest, sum_modify (hc c (List.mem_cons_self ..)), List.length_cons]
      omega

theorem getElem?_foldl_modify {cs counts : List Nat} {j : Nat} (hj : j ∉ cs) :
    (cs.foldl (fun counts c => counts.modify c (· + 1)) counts)[j]? = counts[j]? := by
  induction cs generalizing counts with
  | nil => rfl
  | cons c cs ih =>
      obtain ⟨hne, hrest⟩ := not_or.mp (List.mem_cons.not.mp hj)
      rw [List.foldl_cons, ih hrest, List.getElem?_modify_ne _ _ (Ne.symm hne)]

/-- **The counts of a row add up to the draws.** -/
theorem sum_countsFrom (hne : ps ≠ []) (draws : Draws) (position trials : Nat) :
    (countsFrom draws position trials ps).sum = trials := by
  have hlt : ∀ c ∈ hits draws position trials ps, c < (List.replicate ps.length 0).length := by
    intro c hc
    obtain ⟨i, -, rfl⟩ := List.mem_map.mp hc
    rw [List.length_replicate]
    exact category_lt _ hne
  have hzero : (List.replicate ps.length 0).sum = 0 := List.sum_replicate_nat.trans (Nat.mul_zero _)
  rw [countsFrom_eq, sum_foldl_modify hlt, hzero, Nat.zero_add, hits, List.length_map,
    List.length_range]

theorem countsFrom_unhit (hdraws : ∀ i, IsDraw (draws i)) (hps : ∀ p ∈ ps, p.Summand) {j : Nat}
    (hj : j + 1 < ps.length) (hp : ps[j]? = some p) (hzero : p.eq Binary64.zero = true) :
    (countsFrom draws position trials ps)[j]? = some 0 := by
  have hnone : j ∉ hits draws position trials ps := by
    intro hmem
    obtain ⟨i, -, hi⟩ := List.mem_map.mp hmem
    have hne := category_ne 0 (Binary64.not_lt_zero (hdraws (position + i)).nonneg)
      Binary64.unsigned_zero hps hj hp hzero
    rw [Nat.zero_add] at hne
    exact hne hi
  rw [countsFrom_eq, getElem?_foldl_modify hnone, List.getElem?_replicate, if_pos (by omega)]

theorem le_of_mem_countsFrom (hne : ps ≠ []) {c : Nat}
    (hc : c ∈ countsFrom draws position trials ps) : c ≤ trials := by
  rw [← sum_countsFrom hne draws position trials]
  exact List.le_sum_of_mem hc

/-! ### All rows -/

theorem rowOf_multinomial (draws : Draws) (position trials : Nat) (ps : List Binary64) {row : Nat}
    (hrow : row < rows) :
    rowOf ps.length (multinomial draws position trials ps rows) row =
      countsFrom draws (position + row * trials) trials ps :=
  rowOf_flatMap (fun _ _ => length_countsFrom ..) hrow

theorem le_of_mem_multinomial (hne : ps ≠ []) {c : Nat}
    (hc : c ∈ multinomial draws position trials ps rows) : c ≤ trials := by
  obtain ⟨row, -, hmem⟩ := List.mem_flatMap.mp hc
  exact le_of_mem_countsFrom hne hmem

/-- The words that counts are stored as. -/
def words (counts : List Nat) : List Int64 := counts.map fun c : Nat => Int64.ofInt (c : Int)

theorem toInt_ofInt_count {c : Nat} (hc : c ≤ 2 ^ 53) : (Int64.ofInt c).toInt = c :=
  Int64.toInt_ofInt_of_le (by omega) (by omega)

/-- A count is not changed by being a floating point number in between. -/
theorem ofNumber_count {c : Nat} (hc : c ≤ 2 ^ 53) :
    Element.ofNumber .int64 (Binary64.ofNat c) = .int64 (Int64.ofInt c) := by
  have hdigits : Digits 53 (c : Int).natAbs := digits_of_le (by decide) (by omega)
  have hvalue := Binary64.toIntClamped_of_is (-2 ^ 63) (2 ^ 63 - 1)
    (Binary64.is_ofInt (n := c) (by omega) hdigits)
  have hrange : max (-2 ^ 63) (min (2 ^ 63 - 1) (c : Int)) = c := by omega
  rw [Binary64.ofNat_eq_ofInt]
  show Element.int64 (Int64.ofInt ((Binary64.ofInt c).toIntClamped (-2 ^ 63) (2 ^ 63 - 1))) = _
  rw [hvalue, hrange]

theorem stored_counts {counts : List Nat} (hc : ∀ c ∈ counts, c ≤ 2 ^ 53) :
    stored .int64 (counts.map Binary64.ofNat) = encodeElements ((words counts).map .int64) := by
  have helements : counts.map (Element.ofNumber .int64 ∘ Binary64.ofNat) =
      (words counts).map .int64 := by
    rw [words, List.map_map]
    exact List.map_congr_left fun c hmem => ofNumber_count (hc c hmem)
  rw [← helements, stored, encodeElements, List.flatMap_map, List.flatMap_map]
  rfl

/-- The counts as words. -/
theorem counts_words (hdraws : ∀ i, IsDraw (draws i)) (htrials : trials ≤ 2 ^ 53) (hne : ps ≠ [])
    (hps : ∀ p ∈ ps, p.Summand) (position : Nat) :
    Counts trials ps batch
      (words (multinomial draws position trials ps (Shape.product batch.dims))) := by
  have hlength : (words (multinomial draws position trials ps (Shape.product batch.dims))).length =
      Shape.product batch.dims * ps.length := by
    rw [words, List.length_map, length_multinomial]
  have hrows : ∀ row, row < Shape.product batch.dims →
      rowOf ps.length (words (multinomial draws position trials ps (Shape.product batch.dims)))
        row = words (countsFrom draws (position + row * trials) trials ps) := by
    intro row hrow
    rw [← rowOf_multinomial draws position trials ps hrow]
    simp only [rowOf, words, List.map_drop, List.map_take]
  refine ⟨hlength, ?_, ?_, ?_, ?_⟩
  · intro z hz
    obtain ⟨c, hc, rfl⟩ := List.mem_map.mp hz
    have hle := le_of_mem_multinomial hne hc
    rw [toInt_ofInt_count (Nat.le_trans hle htrials)]
    exact Int.natCast_nonneg c
  · intro row hrow
    have hints : (words (countsFrom draws (position + row * trials) trials ps)).map Int64.toInt =
        (countsFrom draws (position + row * trials) trials ps).map Nat.cast := by
      rw [words, List.map_map]
      refine List.map_congr_left ?_
      intro c hc
      exact toInt_ofInt_count (Nat.le_trans (le_of_mem_countsFrom hne hc) htrials)
    rw [hrows row hrow, hints, ← Nat.cast_list_sum, sum_countsFrom hne]
  · intro row hrow j p hj hp hzero
    rw [hrows row hrow, words, List.getElem?_map, countsFrom_unhit hdraws hps hj hp hzero]
    rfl
  · intro hempty
    rw [Shape.product_eq_zero hempty, Nat.zero_mul] at hlength
    rw [Shape.product_eq_zero hempty]
    exact List.length_eq_zero_iff.mp hlength

/-- **The engine fills a batch with counts**, if the last dimension is the number of
categories. -/
theorem exists_counts (hdraws : ∀ i, IsDraw (draws i)) (htrials : trials ≤ 2 ^ 53) (hne : ps ≠ [])
    (hps : ∀ p ∈ ps, p.Summand) (hword : ps.length < 2 ^ 64) (position : Nat) :
    ∃ zs drawn, (randomMultinomial trials ps).run draws position
        ⟨batch.dims ++ [UInt64.ofNat ps.length]⟩ .int64
        (Shape.product batch.dims * ps.length * DataType.int64.width) =
          .ok ⟨encodeElements (zs.map .int64), drawn⟩ ∧
      Counts trials ps batch zs := by
  have hpos : 0 < ps.length := List.length_pos_iff.mpr hne
  have hsize : Shape.product batch.dims * ps.length * DataType.int64.width /
      DataType.int64.width = Shape.product batch.dims * ps.length :=
    Nat.mul_div_cancel _ DataType.int64.width_pos
  have hcategories : ((⟨batch.dims ++ [UInt64.ofNat ps.length]⟩ : Shape).dims.getLast?.map
      UInt64.toNat) = some ps.length := by
    rw [List.getLast?_concat, Option.map_some, UInt64.toNat_ofNat_of_lt' hword]
  have hle : ∀ c ∈ multinomial draws position trials ps (Shape.product batch.dims), c ≤ 2 ^ 53 :=
    fun c hc => Nat.le_trans (le_of_mem_multinomial hne hc) htrials
  refine ⟨_, Shape.product batch.dims * trials, ?_,
    counts_words hdraws htrials hne hps position⟩
  have hnot : ¬ (ps.length = 0 ∨ ((⟨batch.dims ++ [UInt64.ofNat ps.length]⟩ :
      Shape).dims.getLast?.map UInt64.toNat) ≠ some ps.length) := by
    rw [not_or, not_not]
    exact ⟨Nat.ne_of_gt hpos, hcategories⟩
  simp only [run, hsize, if_neg hnot, Nat.mul_div_cancel _ hpos, stored_counts hle]

end Fill

end ArrayLifetimes
