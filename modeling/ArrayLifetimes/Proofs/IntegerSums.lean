/-
Sums of integers.

The engine adds in one way only: the elements of both arrays become 64-bit floating point
numbers, these are added, and the sums are stored in the data type.  For integers there are three
places where something can get lost.  An element of 64 bits may have more than 53 digits, and then
it is rounded as it is fetched; so may the sum of two be; and a sum beyond the range of the data
type becomes its limit.  `RoundedSum` says what comes of two integers, with all three.

The first two concern only the data type of 64 bits.  The integers of the others, and their sums,
have 33 digits at most, so their sums are exact up to the limits, as are those of 64 bits for
integers of 53 digits.
-/
import ArrayLifetimes.Proofs.Engine.Encoding
import ArrayLifetimes.Proofs.Number.Integers
import ArrayLifetimes.Proofs.ResultsInPlace

namespace ArrayLifetimes

open Number

/-- The least and the greatest integer of an integer data type. -/
def DataType.range? : DataType → Option (Int × Int)
  | .int8 => some (-2 ^ 7, 2 ^ 7 - 1)
  | .uint8 => some (0, 2 ^ 8 - 1)
  | .int32 => some (-2 ^ 31, 2 ^ 31 - 1)
  | .int64 => some (-2 ^ 63, 2 ^ 63 - 1)
  | _ => none

/-- The integer that an element of an integer data type is. -/
def Element.integer? : Element → Option Int
  | int8 x => some x.toInt
  | uint8 x => some x.toNat
  | int32 x => some x.toInt
  | int64 x => some x.toInt
  | _ => none

/-- The integers that a buffer holds. -/
def Buffer.integers (b : Buffer) : List Int :=
  (decodeElements b.dataType b.bytes).filterMap Element.integer?

/-- What the integers add up to, each rounded, and the sum rounded and clamped. -/
def RoundedSum (lo hi a c s : Int) : Prop :=
  ∃ a' c' r, Nearest a a' ∧ Nearest c c' ∧ Nearest (a' + c') r ∧ s = max lo (min hi r)

/-- Neither the integers nor their sum, unless it is out of range, have too many digits for the
numbers that are added. -/
structure Precise (t : DataType) (lo hi a c : Int) : Prop where
  operands : t = .int64 → Digits 53 a.natAbs ∧ Digits 53 c.natAbs
  sum : t = .int64 → Digits 53 (a + c).natAbs ∨ a + c < lo ∨ hi < a + c

/-- The buffer holds the sums of what the other two hold, in a data type of this range. -/
structure Buffer.Adds (l r b : Buffer) (lo hi : Int) : Prop where
  shape : b.shape = l.shape
  dataType : b.dataType = l.dataType
  device : b.device = l.device
  /-- There is an element for each one of the operands. -/
  count : l.shape.checkedSize = some l.integers.length ∧
    r.integers.length = l.integers.length ∧ b.integers.length = l.integers.length
  rounded : ∀ (i : Nat) (a c s : Int), l.integers[i]? = some a → r.integers[i]? = some c →
    (b.integers[i]? = some s ↔ RoundedSum lo hi a c s)
  exact : ∀ (i : Nat) (a c : Int), l.integers[i]? = some a → r.integers[i]? = some c →
    Precise l.dataType lo hi a c → b.integers[i]? = some (max lo (min hi (a + c)))
  /-- Zeros change nothing. -/
  zeroRight : ∀ (i : Nat) (a : Int), l.integers[i]? = some a → r.integers[i]? = some 0 →
    (l.dataType = .int64 → Digits 53 a.natAbs) → b.integers[i]? = some a
  zeroLeft : ∀ (i : Nat) (c : Int), l.integers[i]? = some 0 → r.integers[i]? = some c →
    (l.dataType = .int64 → Digits 53 c.natAbs) → b.integers[i]? = some c

/-! ### Ranges -/

section Range

variable {t : DataType} {lo hi a c n s : Int} {e : Element}

theorem range_bounds (hr : t.range? = some (lo, hi)) :
    lo ≤ 0 ∧ 0 ≤ hi ∧ -2 ^ 63 ≤ lo ∧ hi < 2 ^ 63 := by
  cases t with
  | float32 | float64 | boolean => cases hr
  | int8 | uint8 | int32 | int64 =>
      obtain ⟨rfl, rfl⟩ := Prod.mk.inj (Option.some.inj hr)
      decide

/-- The integers of all data types but one have few digits. -/
theorem digits_of_range (hr : t.range? = some (lo, hi)) (ht : t ≠ .int64)
    (hn : 2 * lo ≤ n ∧ n ≤ 2 * hi) : Digits 53 n.natAbs := by
  have hsmall : -2 ^ 31 ≤ lo ∧ hi < 2 ^ 31 := by
    cases t with
    | float32 | float64 | boolean => cases hr
    | int64 => exact absurd rfl ht
    | int8 | uint8 | int32 =>
        obtain ⟨rfl, rfl⟩ := Prod.mk.inj (Option.some.inj hr)
        decide
  apply digits_of_lt
  omega

/-- The limits, and what is just above the greatest integer, have few digits. -/
theorem digits_limits (hr : t.range? = some (lo, hi)) :
    Digits 53 lo.natAbs ∧ Digits 53 (hi + 1).natAbs := by
  cases t with
  | float32 | float64 | boolean => cases hr
  | int8 =>
      obtain ⟨rfl, rfl⟩ := Prod.mk.inj (Option.some.inj hr)
      exact ⟨digits_two_pow (by decide) 7, digits_two_pow (by decide) 7⟩
  | uint8 =>
      obtain ⟨rfl, rfl⟩ := Prod.mk.inj (Option.some.inj hr)
      exact ⟨digits_of_lt (by decide), digits_two_pow (by decide) 8⟩
  | int32 =>
      obtain ⟨rfl, rfl⟩ := Prod.mk.inj (Option.some.inj hr)
      exact ⟨digits_two_pow (by decide) 31, digits_two_pow (by decide) 31⟩
  | int64 =>
      obtain ⟨rfl, rfl⟩ := Prod.mk.inj (Option.some.inj hr)
      exact ⟨digits_two_pow (by decide) 63, digits_two_pow (by decide) 63⟩

/-- An element of an integer data type is an integer in its range. -/
theorem exists_integer (hr : e.dataType.range? = some (lo, hi)) :
    ∃ n, e.integer? = some n ∧ lo ≤ n ∧ n ≤ hi := by
  cases e with
  | float32 | float64 | boolean => cases hr
  | int8 x | int32 x | int64 x =>
      obtain ⟨rfl, rfl⟩ := Prod.mk.inj (Option.some.inj hr)
      exact ⟨x.toInt, rfl, x.le_toInt, Int.le_sub_one_of_lt x.toInt_lt⟩
  | uint8 x =>
      obtain ⟨rfl, rfl⟩ := Prod.mk.inj (Option.some.inj hr)
      have hx := x.toNat_lt
      exact ⟨x.toNat, rfl, by omega, by omega⟩

/-! ### Elements and numbers -/

/-- What is fetched is the integer, as a number. -/
theorem toNumber_of_integer? (he : e.integer? = some n) : e.toNumber = Binary64.ofInt n := by
  cases e with
  | float32 | float64 | boolean => cases he
  | int8 | int32 | int64 =>
      obtain rfl := Option.some.inj he
      rfl
  | uint8 x =>
      obtain rfl := Option.some.inj he
      exact Binary64.ofNat_eq_ofInt x.toNat

/-- What is stored is the number, cut to an integer and clamped. -/
theorem integer?_ofNumber (hr : t.range? = some (lo, hi)) (x : Binary64) :
    (Element.ofNumber t x).integer? = some (x.toIntClamped lo hi) := by
  obtain ⟨hlo, hhi, -, -⟩ := range_bounds hr
  have hbounds := x.toIntClamped_bounds hlo hhi
  cases t with
  | float32 | float64 | boolean => cases hr
  | int8 =>
      obtain ⟨rfl, rfl⟩ := Prod.mk.inj (Option.some.inj hr)
      exact congrArg some (Int8.toInt_ofInt_of_le hbounds.1 (Int.lt_of_le_sub_one hbounds.2))
  | int32 =>
      obtain ⟨rfl, rfl⟩ := Prod.mk.inj (Option.some.inj hr)
      exact congrArg some (Int32.toInt_ofInt_of_le hbounds.1 (Int.lt_of_le_sub_one hbounds.2))
  | int64 =>
      obtain ⟨rfl, rfl⟩ := Prod.mk.inj (Option.some.inj hr)
      exact congrArg some (Int64.toInt_ofInt_of_le hbounds.1 (Int.lt_of_le_sub_one hbounds.2))
  | uint8 =>
      obtain ⟨rfl, rfl⟩ := Prod.mk.inj (Option.some.inj hr)
      have hlt : (x.toIntClamped 0 (2 ^ 8 - 1)).toNat < 2 ^ 8 := by omega
      have hword : (UInt8.ofNat (x.toIntClamped 0 (2 ^ 8 - 1)).toNat).toNat =
          (x.toIntClamped 0 (2 ^ 8 - 1)).toNat := UInt8.toNat_ofNat_of_lt' hlt
      show some ((UInt8.ofNat (x.toIntClamped 0 (2 ^ 8 - 1)).toNat).toNat : Int) = _
      rw [hword]
      exact congrArg some (Int.toNat_of_nonneg hbounds.1)

/-! ### One sum -/

/-- **Two integers are added with three roundings**, the last of which is the clamping. -/
theorem roundedSum_add (hr : t.range? = some (lo, hi)) (ha : lo ≤ a ∧ a ≤ hi)
    (hc : lo ≤ c ∧ c ≤ hi) :
    RoundedSum lo hi a c (((Binary64.ofInt a).add (Binary64.ofInt c)).toIntClamped lo hi) := by
  obtain ⟨-, -, hlo, hhi⟩ := range_bounds hr
  obtain ⟨a', ha', hx⟩ := Binary64.exists_nearest_ofInt (n := a) (by omega)
  obtain ⟨c', hc', hy⟩ := Binary64.exists_nearest_ofInt (n := c) (by omega)
  -- What is fetched is not beyond `2 ^ 63`, so the sum is not out of the range of the numbers.
  have hword : Digits 53 (2 ^ 63 : Int).natAbs := digits_two_pow (by decide) 63
  have hword' : Digits 53 (-2 ^ 63 : Int).natAbs := digits_two_pow (by decide) 63
  have hle := ha'.ge hword (by omega)
  have hge := ha'.le hword' (by omega)
  have hle' := hc'.ge hword (by omega)
  have hge' := hc'.le hword' (by omega)
  obtain ⟨r, hnearest, hz⟩ := Binary64.exists_nearest_ofInt (n := a' + c') (by omega)
  refine ⟨a', c', r, ha', hc', hnearest, ?_⟩
  rw [Binary64.add_of_is hx hy, Binary64.toIntClamped_of_is lo hi hz]

/-- What comes of two integers is one integer only. -/
theorem RoundedSum.unique {s' : Int} (h : RoundedSum lo hi a c s) (h' : RoundedSum lo hi a c s') :
    s = s' := by
  obtain ⟨a₁, c₁, r, ha, hc, hr, rfl⟩ := h
  obtain ⟨a₂, c₂, r', ha', hc', hr', rfl⟩ := h'
  obtain rfl := ha.unique ha'
  obtain rfl := hc.unique hc'
  rw [hr.unique hr']

/-- **Without too many digits only the limits matter.** -/
theorem RoundedSum.eq (h : RoundedSum lo hi a c s) (hr : t.range? = some (lo, hi))
    (ha : lo ≤ a ∧ a ≤ hi) (hc : lo ≤ c ∧ c ≤ hi) (hp : Precise t lo hi a c) :
    s = max lo (min hi (a + c)) := by
  obtain ⟨hlo, hhi, -, -⟩ := range_bounds hr
  obtain ⟨hleast, hgreatest⟩ := digits_limits hr
  obtain ⟨a', c', r, ha', hc', hnearest, rfl⟩ := h
  have hdigits : Digits 53 a.natAbs ∧ Digits 53 c.natAbs := by
    by_cases ht : t = .int64
    · exact hp.operands ht
    · exact ⟨digits_of_range hr ht (by omega), digits_of_range hr ht (by omega)⟩
  have hsum : Digits 53 (a + c).natAbs ∨ a + c < lo ∨ hi < a + c := by
    by_cases ht : t = .int64
    · exact hp.sum ht
    · exact Or.inl (digits_of_range hr ht (by omega))
  rw [ha'.eq hdigits.1, hc'.eq hdigits.2] at hnearest
  rcases hsum with hsum | hbelow | habove
  · rw [hnearest.eq hsum]
  · have hge := hnearest.ge hleast (Int.le_of_lt hbelow)
    omega
  · have hle := hnearest.le hgreatest (Int.add_one_le_of_lt habove)
    omega

end Range

/-! ### Buffers -/

namespace Buffer

variable {b l r : Buffer} {lo hi : Int} {xs : List Binary64}

theorem dataType_of_mem_decodeElements {t : DataType} {bytes : List UInt8} {e : Element}
    (he : e ∈ decodeElements t bytes) : e.dataType = t := by
  obtain ⟨chunk, -, rfl⟩ := List.mem_map.mp he
  exact Element.dataType_ofBits t _

/-- The numbers of a buffer are its integers. -/
theorem numbers_eq (hr : b.dataType.range? = some (lo, hi)) :
    b.numbers = b.integers.map Binary64.ofInt := by
  have hall : ∀ es : List Element, (∀ e ∈ es, e.dataType = b.dataType) →
      es.map Element.toNumber = (es.filterMap Element.integer?).map Binary64.ofInt := by
    intro es
    induction es with
    | nil =>
        intro _
        rfl
    | cons e es ih =>
        intro hes
        have he := hes e (List.mem_cons_self ..)
        obtain ⟨n, hn, -⟩ := exists_integer (e := e) (he ▸ hr)
        rw [List.map_cons, toNumber_of_integer? hn, List.filterMap_cons_some hn, List.map_cons,
          ih fun f hf => hes f (List.mem_cons_of_mem _ hf)]
  exact hall _ fun e he => dataType_of_mem_decodeElements he

theorem bounds_of_mem_integers (hr : b.dataType.range? = some (lo, hi)) {n : Int}
    (hn : n ∈ b.integers) : lo ≤ n ∧ n ≤ hi := by
  obtain ⟨e, he, hen⟩ := List.mem_filterMap.mp hn
  have ht := dataType_of_mem_decodeElements he
  obtain ⟨m, hm, hbounds⟩ := exists_integer (e := e) (ht ▸ hr)
  obtain rfl : m = n := Option.some.inj (hm.symm.trans hen)
  exact hbounds

/-- What is stored are the numbers, each cut and clamped. -/
theorem integers_withNumbers (hr : b.dataType.range? = some (lo, hi)) :
    (b.withNumbers xs).integers = xs.map (Binary64.toIntClamped lo hi) := by
  have hbytes : (b.withNumbers xs).bytes = encodeElements (xs.map (Element.ofNumber b.dataType)) :=
    (List.flatMap_map ..).symm
  have htypes : ∀ e ∈ xs.map (Element.ofNumber b.dataType), e.dataType = b.dataType := by
    intro e he
    obtain ⟨x, -, rfl⟩ := List.mem_map.mp he
    exact Element.dataType_ofNumber b.dataType x
  have hstored : Element.integer? ∘ Element.ofNumber b.dataType =
      some ∘ Binary64.toIntClamped lo hi := by
    funext x
    exact integer?_ofNumber hr x
  show (decodeElements b.dataType (b.withNumbers xs).bytes).filterMap Element.integer? = _
  rw [hbytes, decodeElements_encodeElements htypes, List.filterMap_map, hstored,
    List.filterMap_eq_map]

/-- There is an integer for each element of the shape. -/
theorem checkedSize_eq (hr : b.dataType.range? = some (lo, hi)) (hb : b.Sized) :
    b.shape.checkedSize = some b.integers.length := by
  obtain ⟨size, hsize, hlength⟩ := Shape.exists_size_of_byteLen hb
  have hcount : b.integers.length = size := by
    have hnumbers := b.length_numbers
    rw [numbers_eq hr, List.length_map, hlength,
      Nat.mul_div_cancel size b.dataType.width_pos] at hnumbers
    exact hnumbers
  rw [hsize, hcount]

/-- **The sums of two arrays are added one by one.** -/
theorem adds_zipWith (hl : l.Sized) (hr : r.Sized) (hshape : l.shape = r.shape)
    (htype : l.dataType = r.dataType) (hrange : l.dataType.range? = some (lo, hi)) :
    Adds l r (l.withNumbers (List.zipWith Binary64.add l.numbers r.numbers)) lo hi := by
  have hrange' : r.dataType.range? = some (lo, hi) := htype ▸ hrange
  have hcount := checkedSize_eq hrange hl
  have hcount' := checkedSize_eq hrange' hr
  have hlength : r.integers.length = l.integers.length := by
    rw [← hshape, hcount] at hcount'
    exact (Option.some.inj hcount').symm
  have hsums : (l.withNumbers (List.zipWith Binary64.add l.numbers r.numbers)).integers =
      List.zipWith (fun a c => ((Binary64.ofInt a).add (Binary64.ofInt c)).toIntClamped lo hi)
        l.integers r.integers := by
    rw [integers_withNumbers hrange, numbers_eq hrange, numbers_eq hrange', List.zipWith_map,
      List.map_zipWith]
  have hrounded : ∀ (i : Nat) (a c : Int), l.integers[i]? = some a → r.integers[i]? = some c →
      ∃ s, (l.withNumbers (List.zipWith Binary64.add l.numbers r.numbers)).integers[i]? = some s ∧
        RoundedSum lo hi a c s := by
    intro i a c ha hc
    refine ⟨_, ?_, roundedSum_add hrange
      (bounds_of_mem_integers hrange (List.mem_of_getElem? ha))
      (bounds_of_mem_integers hrange' (List.mem_of_getElem? hc))⟩
    rw [hsums]
    exact List.getElem?_zipWith_eq_some.mpr ⟨a, c, ha, hc, rfl⟩
  have hexact : ∀ (i : Nat) (a c : Int), l.integers[i]? = some a → r.integers[i]? = some c →
      Precise l.dataType lo hi a c →
      (l.withNumbers (List.zipWith Binary64.add l.numbers r.numbers)).integers[i]? =
        some (max lo (min hi (a + c))) := by
    intro i a c ha hc hp
    obtain ⟨s, hs, hsum⟩ := hrounded i a c ha hc
    rw [hs, hsum.eq hrange (bounds_of_mem_integers hrange (List.mem_of_getElem? ha))
      (bounds_of_mem_integers hrange' (List.mem_of_getElem? hc)) hp]
  refine ⟨rfl, rfl, rfl, ⟨hcount, hlength, ?_⟩, ?_, hexact, ?_, ?_⟩
  · rw [hsums, List.length_zipWith, hlength, Nat.min_self]
  · intro i a c s ha hc
    obtain ⟨s', hs', hsum⟩ := hrounded i a c ha hc
    constructor
    · intro hs
      rw [← Option.some.inj (hs'.symm.trans hs)]
      exact hsum
    · intro hs
      rw [hs', hsum.unique hs]
  · intro i a ha hc hd
    have hbounds := bounds_of_mem_integers hrange (List.mem_of_getElem? ha)
    have hsum := hexact i a 0 ha hc ⟨fun ht => ⟨hd ht, digits_of_lt (by decide)⟩, fun ht =>
      Or.inl ((Int.add_zero a).symm ▸ hd ht)⟩
    rw [hsum]
    congr 1
    omega
  · intro i c ha hc hd
    have hbounds := bounds_of_mem_integers hrange' (List.mem_of_getElem? hc)
    have hsum := hexact i 0 c ha hc ⟨fun ht => ⟨digits_of_lt (by decide), hd ht⟩, fun ht =>
      Or.inl ((Int.zero_add c).symm ▸ hd ht)⟩
    rw [hsum]
    congr 1
    omega

end Buffer

/-! ### Arrays -/

namespace Host

variable {h : Host} {x y : Handle} {l r : Buffer}

theorem compute_add (hx : h.buffers.get? x = some l) (hy : h.buffers.get? y = some r)
    (hshape : l.shape = r.shape) (htype : l.dataType = r.dataType) (rest : List Handle)
    (ps : Params) : h.compute "add" (x :: y :: rest) ps =
      .ok (l.withNumbers (List.zipWith Binary64.add l.numbers r.numbers)) := by
  have hleft : h.input (x :: y :: rest) 0 = .ok l := by
    simp only [input, List.getElem?_cons_zero, hx]
  have hright : h.input (x :: y :: rest) 1 = .ok r := by
    simp only [input, List.getElem?_cons_succ, List.getElem?_cons_zero, hy]
  show h.add (x :: y :: rest) = _
  unfold add
  rw [hleft, ok_bind, hright, ok_bind, if_pos ⟨hshape, htype⟩]

/-- **Sums of integers.**  A new engine gets any calls.  Two arrays that are live afterwards are
added, of one shape and of one integer data type.  This makes an array of that shape and data type
with the sums, one for each pair of elements: what the two add up to when each is rounded to 53
digits and so is their sum, within the limits of the data type.  So it is the exact sum within the
limits, except for integers of 64 bits with more digits, and then zeros leave the other operand as
it is. -/
theorem add_integers (draws : Draws) (calls : List EngineCall) (rest : List Handle) (ps : Params)
    {x y : Handle} {l r : Buffer} {lo hi : Int}
    (hx : (serveAll { draws } [] calls).1.buffers.get? x = some l)
    (hy : (serveAll { draws } [] calls).1.buffers.get? y = some r)
    (hshape : l.shape = r.shape) (htype : l.dataType = r.dataType)
    (hrange : l.dataType.range? = some (lo, hi)) :
    ∃ k n b, (serveAll { draws } [] calls).1.invoke "add" (x :: y :: rest) ps = .ok (k, n) ∧
      k.buffers.get? n.handle = some b ∧ b.Fits n ∧ l.Adds r b lo hi := by
  have hb := (books_nil draws).serveAll calls
  obtain ⟨ns, hns, -⟩ := hb.stores
  have hc := compute_add hx hy hshape htype rest ps
  have hsized := sized_compute (fun _ _ => hns.sized) hc
  obtain ⟨k, n, hi, hget⟩ := makes_iff.mpr hc
  have hpair := Except.ok.inj ((invoke_of_compute hc).symm.trans hi)
  have hn := congrArg Prod.snd hpair
  refine ⟨k, n, _, hi, hget, ⟨congrArg NativeArray.shape hn, congrArg NativeArray.dataType hn,
    hsized⟩, ?_⟩
  exact Buffer.adds_zipWith (hns.sized hx) (hns.sized hy) hshape htype hrange

/-- Calls that make two arrays of one element, of a data type, from the bytes of the elements. -/
def pair (t : DataType) (a c : List UInt8) : List EngineCall :=
  [.create ⟨⟨[1]⟩, t, .cpu, .data a⟩, .create ⟨⟨[1]⟩, t, .cpu, .data c⟩]

/-- The greatest integer of 8 bits and one. -/
theorem add_integers_limit :
    ∃ k n b, (serveAll { draws := fun _ => Binary64.zero } [] (pair .int8 [127] [1])).1.invoke
        "add" [⟨1⟩, ⟨2⟩] [] = .ok (k, n) ∧
      k.buffers.get? n.handle = some b ∧ b.Fits n ∧
      Buffer.Adds ⟨[127], ⟨[1]⟩, .int8, .cpu⟩ ⟨[1], ⟨[1]⟩, .int8, .cpu⟩ b (-2 ^ 7) (2 ^ 7 - 1) :=
  add_integers (fun _ => Binary64.zero) (pair .int8 [127] [1]) [] [] (by decide +kernel)
    (by decide +kernel) rfl rfl rfl

/-- An array of 64-bit integers is not always left as it is by zeros: `2 ^ 53 + 1` has 54 digits,
and it becomes `2 ^ 53`. -/
theorem add_zeros_rounds :
    (serveAll { draws := fun _ => Binary64.zero } []
      (pair .int64 [1, 0, 0, 0, 0, 0, 32, 0] [0, 0, 0, 0, 0, 0, 0, 0])).1.buffers.entries.map
        (fun e => (e.1, e.2.integers)) = [(⟨1⟩, [2 ^ 53 + 1]), (⟨2⟩, [0])] ∧
    ((serveAll { draws := fun _ => Binary64.zero } []
      (pair .int64 [1, 0, 0, 0, 0, 0, 32, 0] [0, 0, 0, 0, 0, 0, 0, 0])).1.invoke
        "add" [⟨1⟩, ⟨2⟩] []).toOption.map
          (fun r => (r.1.buffers.get? r.2.handle).map Buffer.integers) = some (some [2 ^ 53]) ∧
    (2 ^ 53 : Int) ≠ max (-2 ^ 63) (min (2 ^ 63 - 1) (2 ^ 53 + 1 + 0)) := by
  decide +kernel

end Host

end ArrayLifetimes
