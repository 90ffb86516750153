/-
What becomes of the stored values of a matrix.

A value is used by each row whose range has its position.  The engine looks at each row pointer on
its own, so nothing says that the rows part the positions among them: values may be in no row, and
are dropped, or in several, and are repeated.

How often a position is used can be told from the pointers.  Each row that goes forward over it
uses it, and each row that goes backwards over it is empty; and the way from the first pointer to
the last goes over it once more in one direction than in the other if it lies between them
(`uses_balance`).  So values are used once each just when the pointers start at zero, never
decrease and end at the number of values.
-/
import ArrayLifetimes.Proofs.CompressedRows

namespace ArrayLifetimes

namespace Sparse

variable {pointers columns : List Int} {p q first last : Int} {j rows cols count : Nat}

/-- How many rows have the position. -/
def uses (pointers : List Int) (j : Nat) : Nat :=
  (pointers.zip pointers.tail).countP fun pair => decide (pair.1 ≤ (j : Int) ∧ (j : Int) < pair.2)

/-- How many rows run backwards over the position. -/
def backs (pointers : List Int) (j : Nat) : Nat :=
  (pointers.zip pointers.tail).countP fun pair => decide (pair.2 ≤ (j : Int) ∧ (j : Int) < pair.1)

/-- One if the pointer is not beyond the position. -/
def upTo (p : Int) (j : Nat) : Nat := if p ≤ j then 1 else 0

/-- Row pointers that part so many values among the rows. -/
structure Parts (count : Nat) (pointers : List Int) : Prop where
  first : pointers.head? = some 0
  increasing : pointers.IsChain (· ≤ ·)
  last : pointers.getLast? = some (count : Int)

/-! ### How often a position is used -/

theorem uses_cons_cons (ps : List Int) :
    uses (p :: q :: ps) j = uses (q :: ps) j + if p ≤ j ∧ j < q then 1 else 0 := by
  simp [uses, List.countP_cons]

theorem backs_cons_cons (ps : List Int) :
    backs (p :: q :: ps) j = backs (q :: ps) j + if q ≤ j ∧ j < p then 1 else 0 := by
  simp [backs, List.countP_cons]

theorem upTo_of_le (h : p ≤ (j : Int)) : upTo p j = 1 := if_pos h

theorem upTo_of_lt (h : (j : Int) < p) : upTo p j = 0 := if_neg (Int.not_le.mpr h)

/-- One row crosses a position if it lies between its pointers. -/
theorem crosses (p q : Int) (j : Nat) :
    (if p ≤ j ∧ j < q then 1 else 0) + upTo q j = (if q ≤ j ∧ j < p then 1 else 0) + upTo p j := by
  simp only [upTo]
  split_ifs <;> omega

/-- **A position is crossed forward as often as backwards**, and once more if it lies between the
first pointer and the last. -/
theorem uses_balance (hf : pointers.head? = some first) (hl : pointers.getLast? = some last)
    (j : Nat) : uses pointers j + upTo last j = backs pointers j + upTo first j := by
  induction pointers generalizing first with
  | nil => cases hf
  | cons p ps ih =>
      obtain rfl : p = first := Option.some.inj hf
      cases ps with
      | nil =>
          obtain rfl : p = last := Option.some.inj hl
          rfl
      | cons q ps =>
          have hrest := ih rfl (List.getLast?_cons_cons ▸ hl)
          have hone := crosses p q j
          rw [uses_cons_cons, backs_cons_cons]
          omega

theorem countP_eq_one_iff {α : Type} {p : α → Bool} {xs : List α} :
    xs.countP p = 1 ↔ ∃! k : Nat, ∃ x, xs[k]? = some x ∧ p x = true := by
  induction xs with
  | nil => simp [ExistsUnique]
  | cons x xs ih =>
      have hshift : ∀ k, (∃ y, (x :: xs)[k + 1]? = some y ∧ p y = true) ↔
          ∃ y, xs[k]? = some y ∧ p y = true := fun k => by rw [List.getElem?_cons_succ]
      rw [List.countP_cons]
      by_cases hx : p x = true
      · have hzero : ∃ y, (x :: xs)[0]? = some y ∧ p y = true := ⟨x, rfl, hx⟩
        rw [if_pos hx, Nat.add_eq_right, List.countP_eq_zero]
        constructor
        · intro hnone
          refine ⟨0, hzero, ?_⟩
          intro k hk
          cases k with
          | zero => rfl
          | succ k =>
              obtain ⟨y, hy, hpy⟩ := (hshift k).mp hk
              exact absurd hpy (hnone y (List.mem_of_getElem? hy))
        · rintro ⟨k, -, hunique⟩ y hy hpy
          obtain ⟨k', hk'⟩ := List.mem_iff_getElem?.mp hy
          have hlate := hunique (k' + 1) ((hshift k').mpr ⟨y, hk', hpy⟩)
          have hearly := hunique 0 hzero
          omega
      · rw [if_neg hx, Nat.add_zero, ih]
        have hnot : ¬ ∃ y, (x :: xs)[0]? = some y ∧ p y = true := by
          rintro ⟨y, hy, hpy⟩
          obtain rfl : x = y := Option.some.inj hy
          exact hx hpy
        constructor
        · rintro ⟨k, hk, hunique⟩
          refine ⟨k + 1, (hshift k).mpr hk, ?_⟩
          intro l hl
          cases l with
          | zero => exact absurd hl hnot
          | succ l => exact congrArg (· + 1) (hunique l ((hshift l).mp hl))
        · rintro ⟨k, hk, hunique⟩
          cases k with
          | zero => exact absurd hk hnot
          | succ k =>
              refine ⟨k, (hshift k).mp hk, ?_⟩
              intro l hl
              exact Nat.succ.inj (hunique (l + 1) ((hshift l).mpr hl))

theorem inRow_iff {row : Nat} :
    InRow pointers row j ↔ ∃ pair, (pointers.zip pointers.tail)[row]? = some pair ∧
      (pair.1 ≤ (j : Int) ∧ (j : Int) < pair.2) := by
  constructor
  · rintro ⟨first, last, hfirst, hlast, hj⟩
    exact ⟨(first, last), getElem?_pairs.mpr ⟨hfirst, hlast⟩, hj⟩
  · rintro ⟨pair, hpair, hj⟩
    obtain ⟨hfirst, hlast⟩ := getElem?_pairs.mp hpair
    exact ⟨_, _, hfirst, hlast, hj⟩

theorem uses_eq_zero_iff : uses pointers j = 0 ↔ ∀ row, ¬ InRow pointers row j := by
  simp only [uses, List.countP_eq_zero, decide_eq_true_eq, inRow_iff, not_exists, not_and]
  constructor
  · intro hnone row pair hpair hle hlt
    exact hnone pair (List.mem_of_getElem? hpair) hle hlt
  · intro hnone pair hpair hle hlt
    obtain ⟨row, hrow⟩ := List.mem_iff_getElem?.mp hpair
    exact hnone row pair hrow hle hlt

theorem uses_eq_one_iff : uses pointers j = 1 ↔ ∃! row, InRow pointers row j := by
  simp only [uses, countP_eq_one_iff, decide_eq_true_eq, inRow_iff]

/-! ### Pointers that part the values -/

theorem backs_eq_zero_iff :
    backs pointers j = 0 ↔ ∀ pair ∈ pointers.zip pointers.tail, pair.2 ≤ (j : Int) → pair.1 ≤ j := by
  simp only [backs, List.countP_eq_zero, decide_eq_true_eq, not_and, not_lt]

theorem isChain_iff_pairs :
    pointers.IsChain (· ≤ ·) ↔ ∀ pair ∈ pointers.zip pointers.tail, pair.1 ≤ pair.2 := by
  rw [List.isChain_iff_getElem]
  constructor
  · intro hchain pair hpair
    obtain ⟨k, hk⟩ := List.mem_iff_getElem?.mp hpair
    obtain ⟨hfirst, hlast⟩ := getElem?_pairs.mp hk
    obtain ⟨hlt, hnext⟩ := List.getElem?_eq_some_iff.mp hlast
    obtain ⟨_, hhere⟩ := List.getElem?_eq_some_iff.mp hfirst
    rw [← hhere, ← hnext]
    exact hchain k hlt
  · intro hpairs k hk
    exact hpairs (pointers[k], pointers[k + 1]) (List.mem_of_getElem?
      (getElem?_pairs.mpr ⟨List.getElem?_eq_getElem _, List.getElem?_eq_getElem hk⟩))

/-- **Values are used once each, and no row runs backwards over them, just when the pointers part
them.** -/
theorem parts_iff (hlength : pointers.length = rows + 1)
    (hbounded : ∀ p ∈ pointers, 0 ≤ p ∧ p ≤ (count : Int)) :
    Parts count pointers ↔ ∀ j < count, uses pointers j = 1 ∧ backs pointers j = 0 := by
  have hne : pointers ≠ [] := List.ne_nil_of_length_eq_add_one hlength
  have hfirst := List.head?_eq_some_head hne
  have hlast := List.getLast?_eq_some_getLast hne
  have hlo := hbounded _ (List.head_mem hne)
  have hhi := hbounded _ (List.getLast_mem hne)
  have hbalance := uses_balance hfirst hlast
  constructor
  · intro hp j hj
    have hback : backs pointers j = 0 := by
      rw [backs_eq_zero_iff]
      exact fun pair hpair hle => (isChain_iff_pairs.mp hp.increasing pair hpair).trans hle
    have hzero : pointers.head hne = 0 := Option.some.inj (hfirst.symm.trans hp.first)
    have hcount : pointers.getLast hne = count := Option.some.inj (hlast.symm.trans hp.last)
    have hj' := hbalance j
    rw [hzero, hcount, hback, upTo_of_le (p := 0) (by omega), upTo_of_lt (p := count) (by omega)]
      at hj'
    exact ⟨by omega, hback⟩
  · intro hall
    refine ⟨?_, ?_, ?_⟩
    · rw [hfirst, Option.some.injEq]
      by_contra hpos
      have hzero := hall 0 (by omega)
      have hb := hbalance 0
      rw [upTo_of_lt (p := pointers.head hne) (by omega)] at hb
      omega
    · rw [isChain_iff_pairs]
      intro pair hpair
      by_contra hlt
      have hone := hbounded _ (List.of_mem_zip hpair).1
      have htwo := hbounded _ (List.mem_of_mem_tail (List.of_mem_zip hpair).2)
      have hnone := backs_eq_zero_iff.mp (hall pair.2.toNat (by omega)).2 pair hpair (by omega)
      omega
    · rw [hlast, Option.some.injEq]
      by_contra hless
      have hend := hall (count - 1) (by omega)
      have hb := hbalance (count - 1)
      rw [upTo_of_le (p := pointers.getLast hne) (by omega)] at hb
      have hone : upTo (pointers.head hne) (count - 1) ≤ 1 := by
        rw [upTo]
        split <;> omega
      omega

/-! ### Values that are in no row -/

section Ignored

variable {t : DataType} {values values' xs ys : List Element} {columns' : List Int}

/-- There is one matrix of compressed rows. -/
theorem Expands.unique (h : Expands rows cols t values pointers columns xs)
    (h' : Expands rows cols t values pointers columns ys) : xs = ys := by
  refine List.ext_getElem? fun place => ?_
  by_cases hplace : place < rows * cols
  · have hcols : 0 < cols := Nat.pos_of_mul_pos_left (Nat.lt_of_le_of_lt (Nat.zero_le _) hplace)
    have hrow : place / cols < rows := Nat.div_lt_of_lt_mul (Nat.mul_comm .. ▸ hplace)
    have hcol : place % cols < cols := Nat.mod_lt place hcols
    rw [← Nat.div_add_mod' place cols]
    by_cases hne : {j | InRow pointers (place / cols) j ∧
        columns[j]? = some ((place % cols : Nat) : Int)}.Nonempty
    · have hbound : BddAbove {j | InRow pointers (place / cols) j ∧
          columns[j]? = some ((place % cols : Nat) : Int)} :=
        ⟨columns.length, fun j hj => (List.getElem?_eq_some_iff.mp hj.2).1.le⟩
      obtain ⟨j, hj⟩ := hbound.exists_isGreatest_of_nonempty hne
      rw [h.stored _ _ j hrow hcol hj, h'.stored _ _ j hrow hcol hj]
    · have hnone : ∀ j, ¬ (InRow pointers (place / cols) j ∧
          columns[j]? = some ((place % cols : Nat) : Int)) := fun j hj => hne ⟨j, hj⟩
      rw [h.zero _ _ hrow hcol hnone, h'.zero _ _ hrow hcol hnone]
  · rw [List.getElem?_eq_none (by rw [h.length]; omega),
      List.getElem?_eq_none (by rw [h'.length]; omega)]

/-- The rows have the same values in the same columns. -/
def Agree (pointers : List Int) (values : List Element) (columns : List Int)
    (values' : List Element) (columns' : List Int) : Prop :=
  ∀ row j, InRow pointers row j → values'[j]? = values[j]? ∧ columns'[j]? = columns[j]?

theorem Expands.of_agree (h : Expands rows cols t values pointers columns xs)
    (ha : Agree pointers values columns values' columns') :
    Expands rows cols t values' pointers columns' xs := by
  have hsame : ∀ row j (c : Int), InRow pointers row j ∧ columns'[j]? = some c ↔
      InRow pointers row j ∧ columns[j]? = some c :=
    fun row j c => and_congr_right fun hj => by rw [(ha row j hj).2]
  refine ⟨h.length, ?_, ?_⟩
  · intro row col j hrow hcol hj
    rw [Set.ext fun k => hsame row k col] at hj
    rw [h.stored row col j hrow hcol hj, (ha row j hj.1.1).1]
  · intro row col hrow hcol hnone
    exact h.zero row col hrow hcol fun j hj => hnone j ((hsame row j col).mpr hj)

theorem Compressed.of_agree (h : Compressed rows cols count pointers columns)
    (hlength : columns'.length = columns.length)
    (ha : Agree pointers values columns values' columns') :
    Compressed rows cols count pointers columns' where
  aligned := hlength.trans h.aligned
  delimited := h.delimited
  bounded := h.bounded
  inRange row j hj := by
    rw [(ha row j hj).2]
    exact h.inRange row j hj

/-- **Values and columns that are in no row make no difference.** -/
theorem csr_eq_of_agree (hr : rows + 1 < Shape.wordLimit) (hx : ∀ x ∈ values, x.dataType = t)
    (hx' : ∀ x ∈ values', x.dataType = t) (hvalues : values'.length = values.length)
    (hcolumns : columns'.length = columns.length)
    (ha : Agree pointers values columns values' columns') {bytes : List UInt8}
    (h : csr t.width rows cols (encodeElements values) pointers columns = .ok bytes) :
    csr t.width rows cols (encodeElements values') pointers columns' = .ok bytes := by
  have hc := ((exists_csr_iff hr hx).mp ⟨_, h⟩).of_agree hcolumns ha
  rw [← hvalues] at hc
  obtain ⟨bytes', h'⟩ := (exists_csr_iff hr hx').mpr hc
  obtain ⟨xs, rfl, -, hxs⟩ := exists_expands hr hx h
  obtain ⟨ys, rfl, -, hys⟩ := exists_expands hr hx' h'
  rw [h', (hxs.of_agree ha).unique hys]

end Ignored

/-! ### What is taken -/

/-- What is known of the input of a matrix that has been made. -/
structure Taken (rows cols : Nat) (t : DataType) (values : List Element)
    (pointers columns : List Int) : Prop where
  compressed : Compressed rows cols values.length pointers columns
  /-- How often a value is used can be told from the pointers. -/
  balance : ∀ first last, pointers.head? = some first → pointers.getLast? = some last →
    ∀ j, uses pointers j + upTo last j = backs pointers j + upTo first j
  dropped : ∀ j, uses pointers j = 0 ↔ ∀ row, ¬ InRow pointers row j
  once : ∀ j, uses pointers j = 1 ↔ ∃! row, InRow pointers row j
  /-- The values are used once each, by rows that never run backwards, just when the pointers part
  them. -/
  parts : 0 < rows → (Parts values.length pointers ↔
    ∀ j < values.length, uses pointers j = 1 ∧ backs pointers j = 0)
  /-- What is dropped might as well be something else. -/
  ignored : ∀ values' columns', (∀ x ∈ values', x.dataType = t) → values'.length = values.length →
    columns'.length = columns.length → Agree pointers values columns values' columns' →
    csr t.width rows cols (encodeElements values') pointers columns' =
      csr t.width rows cols (encodeElements values) pointers columns

theorem taken_of_csr {t : DataType} {values : List Element} {bytes : List UInt8}
    (hr : rows < Shape.wordLimit) (hx : ∀ x ∈ values, x.dataType = t)
    (h : csr t.width rows cols (encodeElements values) pointers columns = .ok bytes) :
    Taken rows cols t values pointers columns := by
  have hlt := succ_lt_of_csr hr h
  have hc := (exists_csr_iff hlt hx).mp ⟨_, h⟩
  refine ⟨hc, fun _ _ => uses_balance, fun _ => uses_eq_zero_iff, fun _ => uses_eq_one_iff, ?_, ?_⟩
  · exact fun hrows => parts_iff hc.delimited (hc.bounded hrows)
  · intro values' columns' hx' hvalues hcolumns ha
    rw [h, csr_eq_of_agree hlt hx hx' hvalues hcolumns ha h]

end Sparse

namespace Machine

variable {order : VisitOrder} {s s' : Machine} {i : Nat} {m : ManagerId} {name : Name}
  {below : Stack .reply} {shape : Shape} {t : DataType} {values : List Element}
  {pointers columns : List Int}

/-- **What a matrix is made of.**  Over the host engine, in every state that can come up, when an
open manager has granted a request for a matrix, the input is compressed rows; but the pointers need
not part the values.  A value is used by as many rows as have its position, which is once for
all of them if the pointers start at zero, never decrease and end at the number of values, and the
values that are in no row are dropped. -/
theorem csr_taken (hs : Reachable order .host s)
    (hst : s.Making i m name (.csr t values pointers columns shape) below)
    (hx : ∀ x ∈ values, x.dataType = t) (hstep : s.stepAt order i = some s') {answer : Answer}
    (hanswer : s'.Replied i below (.answer answer)) :
    ∃ rows cols, shape.matrixDims? = some (rows, cols) ∧
      Sparse.Taken rows cols t values pointers columns := by
  obtain ⟨owner, d, filled, -, hd, hf⟩ := hst.exists_fill_of_answer hs hstep hanswer
  by_cases hright : shape.rank = 2 ∧ columns.length = values.length
  · obtain ⟨rows, cols, hshape⟩ := Shape.rank_eq_two_iff.mp hright.1
    rw [Allocation.descriptor_csr hshape hright.2] at hd
    cases hd
    obtain ⟨n, -, -, hrun⟩ := Host.fill_eq_ok.mp hf
    obtain ⟨bytes, hcsr, -⟩ := map_eq_ok.mp ((Fill.run_csr hshape _ _ _ _).symm.trans hrun)
    exact ⟨rows, cols, hshape, Sparse.taken_of_csr (Shape.rows_lt_of_matrixDims? hshape) hx hcsr⟩
  · obtain ⟨f, herror⟩ := Allocation.exists_descriptor_csr_error t pointers
      (not_and_or.mp hright)
    rw [herror] at hd
    cases hd

/-- A manager is about to make a matrix of one column, with one stored value. -/
def pointing (pointers : List Int) (rows : UInt64) : List (Command × Nat) :=
  [(.base "p" none, 1),
    (.allocate "p" "a" (.csr .int32 [.int32 7] pointers [0] ⟨[rows, 1]⟩) none, 0)]

theorem exists_answer {s : Machine}
    (h : ((s.threads[0]?.bind Thread.reply?).any fun reply => reply.fault?.isNone) = true) :
    ∃ answer, s.Replied 0 .top (.answer answer) := by
  rw [Option.any_eq_true] at h
  obtain ⟨reply, hreply, hanswer⟩ := h
  obtain ⟨thread, hthread, hreply⟩ := Option.bind_eq_some_iff.mp hreply
  unfold Thread.reply? at hreply
  split at hreply
  · rename_i id r
    obtain rfl : r = reply := Option.some.inj hreply
    cases r with
    | answer answer => exact ⟨answer, id, hthread⟩
    | fault f => cases hanswer
  · cases hreply

/-- What is taken need not be used: the row ends where it starts. -/
theorem csr_taken_unused :
    (session (pointing [1, 1] 1)).Making 0 ⟨0⟩ "a"
      (.csr .int32 [.int32 7] [1, 1] [0] ⟨[1, 1]⟩) .top ∧
    (session (pointing [1, 1] 1)).stepAt .byAge 0 = some (onward (pointing [1, 1] 1)) ∧
    (∃ answer, (onward (pointing [1, 1] 1)).Replied 0 .top (.answer answer)) ∧
    Sparse.Taken 1 1 .int32 [.int32 7] [1, 1] [0] ∧ Sparse.uses [1, 1] 0 = 0 := by
  have hs : Reachable .byAge .host (session (pointing [1, 1] 1)) := reachable_replay .byAge _ _ _ _
  have hst : (session (pointing [1, 1] 1)).Making 0 ⟨0⟩ "a"
      (.csr .int32 [.int32 7] [1, 1] [0] ⟨[1, 1]⟩) .top :=
    ⟨by decide, ⟨0⟩, "p", none, by decide, rfl⟩
  have hi := stepAt_of_isSome .byAge (s := session (pointing [1, 1] 1)) (by decide)
  obtain ⟨answer, hanswer⟩ := exists_answer (s := onward (pointing [1, 1] 1)) (by decide +kernel)
  obtain ⟨rows, cols, hshape, htaken⟩ := csr_taken hs hst (by decide) hi hanswer
  cases hshape
  exact ⟨hst, hi, ⟨answer, hanswer⟩, htaken, by decide⟩

/-- **Pointers that do not part the values are taken.**  A first pointer above zero or a last one
below the number of values drops the value, and one that decreases lets two rows have it. -/
theorem pointers_drop_and_repeat :
    (¬ Sparse.Parts 1 [1, 1] ∧ (∀ row, ¬ Sparse.InRow [1, 1] row 0) ∧
      (∃ answer, (onward (pointing [1, 1] 1)).Replied 0 .top (.answer answer)) ∧
      ((onward (pointing [1, 1] 1)).world.arrayElements ⟨0⟩ none).2 = .ok [.int32 0]) ∧
    (¬ Sparse.Parts 1 [0, 0] ∧ (∀ row, ¬ Sparse.InRow [0, 0] row 0) ∧
      (∃ answer, (onward (pointing [0, 0] 1)).Replied 0 .top (.answer answer)) ∧
      ((onward (pointing [0, 0] 1)).world.arrayElements ⟨0⟩ none).2 = .ok [.int32 0]) ∧
    (¬ Sparse.Parts 1 [0, 1, 0, 1] ∧ Sparse.InRow [0, 1, 0, 1] 0 0 ∧ Sparse.InRow [0, 1, 0, 1] 2 0 ∧
      (∃ answer, (onward (pointing [0, 1, 0, 1] 3)).Replied 0 .top (.answer answer)) ∧
      ((onward (pointing [0, 1, 0, 1] 3)).world.arrayElements ⟨0⟩ none).2 =
        .ok [.int32 7, .int32 0, .int32 7]) := by
  refine ⟨⟨?_, ?_, exists_answer (by decide +kernel), by decide +kernel⟩,
    ⟨?_, ?_, exists_answer (by decide +kernel), by decide +kernel⟩,
    ⟨?_, ?_, ?_, exists_answer (by decide +kernel), by decide +kernel⟩⟩
  · rintro ⟨hfirst, -, -⟩
    exact absurd hfirst (by decide)
  · exact Sparse.uses_eq_zero_iff.mp (by decide)
  · rintro ⟨-, -, hlast⟩
    exact absurd hlast (by decide)
  · exact Sparse.uses_eq_zero_iff.mp (by decide)
  · rintro ⟨-, hchain, -⟩
    exact absurd hchain (by decide)
  · exact ⟨0, 1, rfl, rfl, by decide, by decide⟩
  · exact ⟨0, 1, rfl, rfl, by decide, by decide⟩

end Machine

end ArrayLifetimes
