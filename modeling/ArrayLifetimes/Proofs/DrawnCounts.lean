/-
Arrays of drawn counts.

A client gives the probabilities of some categories and asks how often each of them is drawn, once
for each element of a batch.  The manager looks at the probabilities, and the engine has to have
room for the counts; `Countable` says when they are content.  Then the array is what
`Fill.Counts` says, whatever the engine draws, as long as its draws are in [0, 1) and there are no
more of them for a row than a floating point number can count.
-/
import ArrayLifetimes.Proofs.Engine.Counts
import ArrayLifetimes.Proofs.SparseRows

namespace ArrayLifetimes

/-- The shape of an array with a count of each category for each element of a batch. -/
def Shape.counting (batch : Shape) (categories : Nat) : Shape :=
  ⟨batch.dims ++ [UInt64.ofNat categories]⟩

/-- Counts can be drawn: the probabilities are right, and there is room for the counts. -/
structure Allocation.Countable (ps : List Binary64) (batch : Shape) : Prop where
  checked : checkProbabilities ps = .ok ()
  word : ps.length < 2 ^ 64
  room : ∃ n, (batch.counting ps.length).byteLen .int64 = some n ∧ n ≤ Host.addressSpace

variable {ps : List Binary64} {batch : Shape} {trials n : Nat}

/-- What is accepted are probabilities, at least one. -/
theorem Allocation.summand_of_checked (h : checkProbabilities ps = .ok ()) :
    ps ≠ [] ∧ ∀ p ∈ ps, p.Summand := by
  unfold checkProbabilities at h
  by_cases hempty : ps.isEmpty = true
  · rw [if_pos hempty] at h
    cases h
  · rw [if_neg hempty] at h
    cases hfind : ps.find? fun p => !isProbability p with
    | some p =>
        rw [hfind] at h
        cases h
    | none =>
        refine ⟨fun hnil => hempty (List.isEmpty_iff.mpr hnil), ?_⟩
        intro p hp
        have hprobability : isProbability p = true := by
          simpa using List.find?_eq_none.mp hfind p hp
        obtain ⟨hle, hone⟩ := (Bool.and_eq_true _ _).mp hprobability
        exact Binary64.summand_of_bounds hle hone

theorem Allocation.descriptor_randomMultinomial {d : Descriptor} :
    (randomMultinomial trials ps batch).descriptor = .ok d ↔
      checkProbabilities ps = .ok () ∧
        d = ⟨batch.counting ps.length, some .int64, none, .randomMultinomial trials ps⟩ := by
  rw [descriptor, bind_eq_ok]
  constructor
  · intro h
    obtain ⟨_, hchecked, hd⟩ := h
    exact ⟨hchecked, (Except.ok.inj hd).symm⟩
  · intro h
    obtain ⟨hchecked, rfl⟩ := h
    exact ⟨(), hchecked, rfl⟩

theorem Shape.product_counting {categories : Nat} (hword : categories < 2 ^ 64) (batch : Shape) :
    product (batch.counting categories).dims = product batch.dims * categories := by
  have hlast : product [UInt64.ofNat categories] = categories := by
    rw [product_cons, product_nil, Nat.mul_one, UInt64.toNat_ofNat_of_lt' hword]
  have happend : product (batch.dims ++ [UInt64.ofNat categories]) =
      product batch.dims * product [UInt64.ofNat categories] := by
    simp only [product, List.map_append, List.prod_append]
  show product (batch.dims ++ [UInt64.ofNat categories]) = _
  rw [happend, hlast]

/-- The engine asks for the last dimension to be the number of categories. -/
theorem Fill.word_of_run {draws : Draws} {position : Nat} {filled : Fill.Result}
    (h : (randomMultinomial trials ps).run draws position (batch.counting ps.length) .int64 n =
      .ok filled) : ps.length < 2 ^ 64 := by
  simp only [run] at h
  split at h
  · cases h
  · rename_i hk
    obtain ⟨-, hlast⟩ := not_or.mp hk
    obtain ⟨d, -, hd⟩ := Option.map_eq_some_iff.mp (not_not.mp hlast)
    rw [← hd]
    exact d.toNat_lt

namespace Machine

/-- What becomes of a request for counts. -/
structure Counted (s s' : Machine) (name : Name) (trials : Nat) (ps : List Binary64)
    (batch : Shape) (reply : Reply) : Prop where
  /-- It is granted just when counts can be drawn. -/
  granted : (∃ answer, reply = .answer answer) ↔ Allocation.Countable ps batch
  /-- Then there is a new array with them. -/
  made : ∀ answer, reply = .answer answer → ∃ zs a r, Fill.Counts trials ps batch zs ∧
    Gains s s' name (batch.counting ps.length) .int64 (zs.map .int64) a r

variable {order : VisitOrder} {s s' : Machine} {i : Nat} {m : ManagerId} {name : Name}
  {below : Stack .reply}

/-- **Drawn counts are right.**  Over the host engine, in every state that can come up, an open
manager that is asked for counts replies in one step, whatever the draws are.  If the probabilities
are right and there is room, and only then, there is a new array: a row of counts for each element
of the batch, none of them negative, that add up to the number of draws, and with a count of zero
for each category other than the last one whose probability is zero. -/
theorem multinomial_counted (hs : Reachable order .host s)
    (hst : s.Making i m name (.randomMultinomial trials ps batch) below)
    (htrials : trials ≤ 2 ^ 53) (hdraws : ∀ j, Fill.IsDraw (s.world.engine.host.draws j)) :
    ∃ s' reply, s.stepAt order i = some s' ∧ s'.Replied i below reply ∧
      Counted s s' name trials ps batch reply := by
  obtain ⟨s', reply, hstep, hreplied, -⟩ := hst.exists_reply hs
  have hgained : Allocation.Countable ps batch → ∃ answer zs a r, reply = .answer answer ∧
      Fill.Counts trials ps batch zs ∧
      Gains s s' name (batch.counting ps.length) .int64 (zs.map .int64) a r := by
    intro hcountable
    obtain ⟨n, hl, hle⟩ := hcountable.room
    obtain ⟨hne, hps⟩ := Allocation.summand_of_checked hcountable.checked
    obtain ⟨zs, drawn, hrun, hcounts⟩ := Fill.exists_counts hdraws htrials hne hps
      hcountable.word s.world.engine.host.drawn
    rw [← Shape.product_counting hcountable.word batch, ← Shape.eq_product_of_byteLen hl] at hrun
    have htyped : ∀ x ∈ zs.map Element.int64, x.dataType = .int64 := by
      intro x hx
      obtain ⟨z, -, rfl⟩ := List.mem_map.mp hx
      rfl
    obtain ⟨t, answer, a, r, hstep', hanswered, hgains⟩ := hst.filled_of_run hs
      (Allocation.descriptor_randomMultinomial.mpr ⟨hcountable.checked, rfl⟩) hl hle htyped hrun
    obtain rfl : s' = t := Option.some.inj (hstep.symm.trans hstep')
    exact ⟨answer, zs, a, r, hreplied.unique hanswered, hcounts, hgains⟩
  have hcountable : ∀ answer, reply = .answer answer → Allocation.Countable ps batch := by
    intro answer hanswer
    rw [hanswer] at hreplied
    obtain ⟨owner, d, filled, -, hd, hfill⟩ := hst.exists_fill_of_answer hs hstep hreplied
    obtain ⟨hchecked, rfl⟩ := Allocation.descriptor_randomMultinomial.mp hd
    obtain ⟨n, hl, hle, hrun⟩ := Host.fill_eq_ok.mp hfill
    exact ⟨hchecked, Fill.word_of_run hrun, n, hl, hle⟩
  refine ⟨s', reply, hstep, hreplied, ?_, ?_⟩
  · constructor
    · intro hanswer
      obtain ⟨answer, hreply⟩ := hanswer
      exact hcountable answer hreply
    · intro h
      obtain ⟨answer, -, -, -, hreply, -⟩ := hgained h
      exact ⟨answer, hreply⟩
  · intro answer hreply
    obtain ⟨-, zs, a, r, -, hcounts, hgains⟩ := hgained (hcountable answer hreply)
    exact ⟨zs, a, r, hcounts, hgains⟩

/-- A manager is about to draw three times from three categories, the first of which has no
probability, for each element of a batch of two. -/
def drawing : List (Command × Nat) :=
  [(.base "p" none, 1),
    (.allocate "p" "a" (.randomMultinomial 3
      [Binary64.zero, ⟨0x3fe0000000000000⟩, ⟨0x3fe0000000000000⟩] ⟨[2]⟩) none, 0)]

/-- All draws are zero, which is below one half, so they hit the second category. -/
theorem multinomial_counted_zeros :
    (∀ j, Fill.IsDraw ((session drawing).world.engine.host.draws j)) ∧
    ∃ reply, (session drawing).stepAt .byAge 0 = some (onward drawing) ∧
      (onward drawing).Replied 0 .top reply ∧
      Counted (session drawing) (onward drawing) "a" 3
        [Binary64.zero, ⟨0x3fe0000000000000⟩, ⟨0x3fe0000000000000⟩] ⟨[2]⟩ reply ∧
      ((onward drawing).world.arrayElements ⟨0⟩ none).2 =
        .ok [.int64 0, .int64 3, .int64 0, .int64 0, .int64 3, .int64 0] := by
  have hs : Reachable .byAge .host (session drawing) := reachable_replay .byAge _ _ _ _
  have hst : (session drawing).Making 0 ⟨0⟩ "a" (.randomMultinomial 3
      [Binary64.zero, ⟨0x3fe0000000000000⟩, ⟨0x3fe0000000000000⟩] ⟨[2]⟩) .top :=
    ⟨by decide, ⟨0⟩, "p", none, by decide, rfl⟩
  have hdraws : ∀ j, Fill.IsDraw ((session drawing).world.engine.host.draws j) := by
    intro j
    show Fill.IsDraw Binary64.zero
    exact ⟨by decide +kernel, by decide +kernel⟩
  have hi := stepAt_of_isSome .byAge (s := session drawing) (by decide +kernel)
  obtain ⟨s', reply, hstep, hreplied, hcounted⟩ :=
    multinomial_counted hs hst (by decide) hdraws
  obtain rfl : onward drawing = s' := Option.some.inj (hi.symm.trans hstep)
  exact ⟨hdraws, reply, hi, hreplied, hcounted, by decide +kernel⟩

end Machine

end ArrayLifetimes
