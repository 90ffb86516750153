/-
Elements and their bytes.

Elements are written one after the other, each in as many bytes as its data type takes, and
read back in chunks of that width.  Reading gives back what was written.  Writing gives back
what was read, but for two things: the bytes that are no whole element, and those of a
boolean, where every byte other than zero counts as one.

Everything goes through the bits of an element, which are a number below `256 ^ width`: the
bytes of a number are its digits, and an element is determined by its bits.
-/
import ArrayLifetimes.Proofs.Engine.Lengths

namespace ArrayLifetimes

/-! ### Digits -/

theorem ofLittleEndian_littleEndian (count n : Nat) :
    ofLittleEndian (littleEndian count n) = n % 256 ^ count := by
  induction count generalizing n with
  | zero => rw [littleEndian, ofLittleEndian, Nat.pow_zero, Nat.mod_one]
  | succ count ih =>
      have hdigit : (UInt8.ofNat n).toNat = n % 256 := UInt8.toNat_ofNat'
      rw [littleEndian, ofLittleEndian, ih, hdigit, Nat.pow_succ', Nat.mod_mul]

theorem littleEndian_ofLittleEndian (bytes : List UInt8) :
    littleEndian bytes.length (ofLittleEndian bytes) = bytes := by
  induction bytes with
  | nil => rfl
  | cons b bytes ih =>
      have hb : b.toNat < 256 := b.toNat_lt
      have hrest : (b.toNat + 256 * ofLittleEndian bytes) / 256 = ofLittleEndian bytes := by omega
      have hlow : UInt8.ofNat (b.toNat + 256 * ofLittleEndian bytes) = b := by
        apply UInt8.toNat_inj.mp
        rw [UInt8.toNat_ofNat']
        omega
      rw [List.length_cons, ofLittleEndian, littleEndian, hrest, ih, hlow]

theorem ofLittleEndian_lt (bytes : List UInt8) : ofLittleEndian bytes < 256 ^ bytes.length := by
  induction bytes with
  | nil => exact Nat.one_pos
  | cons b bytes ih =>
      have hb : b.toNat < 256 := b.toNat_lt
      rw [ofLittleEndian, List.length_cons, Nat.pow_succ]
      omega

/-! ### One element -/

namespace Element

/-- **An element is determined by its bits**, and these fit in its width. -/
theorem bits_lt (x : Element) : x.bits < 256 ^ x.dataType.width := by
  cases x with
  | float32 x => exact x.bits.toNat_lt
  | float64 x => exact x.bits.toNat_lt
  | int8 x => exact x.toUInt8.toNat_lt
  | uint8 x => exact x.toNat_lt
  | int32 x => exact x.toUInt32.toNat_lt
  | int64 x => exact x.toUInt64.toNat_lt
  | boolean x => cases x <;> decide

theorem ofBits_bits (x : Element) : ofBits x.dataType x.bits = x := by
  cases x with
  | boolean x => cases x <;> rfl
  | _ => simp [ofBits, bits, dataType]

@[simp] theorem dataType_ofBits (t : DataType) (n : Nat) : (ofBits t n).dataType = t := by
  cases t <;> rfl

/-- **What is read is what was written.** -/
theorem decode_encode (x : Element) : decode x.dataType x.encode = x := by
  rw [decode, encode, ofLittleEndian_littleEndian, Nat.mod_eq_of_lt x.bits_lt, ofBits_bits]

/-- The byte that stands in the place of another once it has been read and written. -/
def canonical : DataType → UInt8 → UInt8
  | .boolean, b => if b = 0 then 0 else 1
  | _, b => b

theorem bits_ofBits {t : DataType} (ht : t ≠ .boolean) {n : Nat} (hn : n < 256 ^ t.width) :
    (ofBits t n).bits = n := by
  cases t with
  | boolean => exact absurd rfl ht
  | float32 | int32 => simpa [ofBits, bits] using Nat.mod_eq_of_lt (show n < 2 ^ 32 from hn)
  | float64 | int64 => simpa [ofBits, bits] using Nat.mod_eq_of_lt (show n < 2 ^ 64 from hn)
  | int8 | uint8 => simpa [ofBits, bits] using Nat.mod_eq_of_lt (show n < 2 ^ 8 from hn)

theorem encode_decode_boolean (b : UInt8) :
    (decode .boolean [b]).encode = [canonical .boolean b] := by
  have hb : b.toNat < 256 := b.toNat_lt
  have hzero : b = 0 ↔ b.toNat = 0 := by
    rw [← UInt8.toNat_inj]
    rfl
  have hmod : (b.toNat + 256 * 0) % 256 = b.toNat := by omega
  by_cases h : b = 0
  · subst h
    rfl
  · have hne : b.toNat ≠ 0 := fun hn => h (hzero.mpr hn)
    have htrue : decode .boolean [b] = boolean true := by
      rw [decode, ofLittleEndian, ofLittleEndian, ofBits, hmod]
      simpa using hne
    rw [htrue, canonical, if_neg h]
    rfl

/-- What is written is what was read, up to the bytes of booleans. -/
theorem encode_decode {t : DataType} {chunk : List UInt8} (hc : chunk.length = t.width) :
    (decode t chunk).encode = chunk.map (canonical t) := by
  by_cases ht : t = .boolean
  · subst ht
    obtain ⟨b, rfl⟩ := List.length_eq_one_iff.mp hc
    exact encode_decode_boolean b
  · have hid : canonical t = id := by
      funext b
      cases t <;> first | rfl | exact absurd rfl ht
    have hlt : ofLittleEndian chunk < 256 ^ t.width := by
      rw [← hc]
      exact ofLittleEndian_lt chunk
    rw [encode, decode, dataType_ofBits, bits_ofBits ht hlt, ← hc, littleEndian_ofLittleEndian, hid,
      List.map_id]

end Element

/-! ### Chunks -/

/-- Pieces of one length are the chunks of what they make up. -/
theorem chunks_flatMap {α : Type} {f : α → List UInt8} {xs : List α} {width : Nat}
    (h : ∀ x ∈ xs, (f x).length = width) : chunks width xs.length (xs.flatMap f) = xs.map f := by
  induction xs with
  | nil => rfl
  | cons x xs ih =>
      have hx : (f x).length = width := h x (List.mem_cons_self ..)
      rw [List.length_cons, chunks, List.flatMap_cons, List.take_left' hx, List.drop_left' hx,
        ih fun y hy => h y (List.mem_cons_of_mem _ hy), List.map_cons]

/-- Chunks that are there in full make up the bytes that they were taken from. -/
theorem flatten_chunks {width count : Nat} {bytes : List UInt8}
    (h : count * width ≤ bytes.length) :
    (chunks width count bytes).flatten = bytes.take (count * width) := by
  induction count generalizing bytes with
  | zero => simp [chunks]
  | succ count ih =>
      have hrest : count * width ≤ (bytes.drop width).length := by
        rw [List.length_drop]
        rw [Nat.succ_mul] at h
        omega
      rw [chunks, List.flatten_cons, ih hrest, Nat.succ_mul, Nat.add_comm, List.take_add]

theorem length_of_mem_chunks {width count : Nat} {bytes chunk : List UInt8}
    (h : count * width ≤ bytes.length) (hc : chunk ∈ chunks width count bytes) :
    chunk.length = width := by
  induction count generalizing bytes with
  | zero => cases hc
  | succ count ih =>
      rw [Nat.succ_mul] at h
      rcases List.mem_cons.mp hc with rfl | hc
      · rw [List.length_take]
        omega
      · refine ih ?_ hc
        rw [List.length_drop]
        omega

/-! ### Many elements -/

section Elements

variable {t : DataType}

theorem length_encodeElements {xs : List Element} (hx : ∀ x ∈ xs, x.dataType = t) :
    (encodeElements xs).length = xs.length * t.width := by
  refine length_flatMap_of_length fun x hmem => ?_
  rw [Element.length_encode, hx x hmem]

/-- **Elements are read back as they were written.** -/
theorem decodeElements_encodeElements {xs : List Element} (hx : ∀ x ∈ xs, x.dataType = t) :
    decodeElements t (encodeElements xs) = xs := by
  have hwidth : ∀ x ∈ xs, x.encode.length = t.width := by
    intro x hmem
    rw [Element.length_encode, hx x hmem]
  have hdecode : ∀ x ∈ xs, (Element.decode t ∘ Element.encode) x = x := by
    intro x hmem
    rw [Function.comp_apply, ← hx x hmem]
    exact x.decode_encode
  rw [decodeElements, length_encodeElements hx, Nat.mul_div_cancel _ t.width_pos, encodeElements,
    chunks_flatMap hwidth, List.map_map, List.map_congr_left hdecode, List.map_id']

/-- **Bytes are written back as they were read**, but for a part of an element at the end, and with
every byte of a boolean made zero or one. -/
theorem encodeElements_decodeElements (t : DataType) (bytes : List UInt8) :
    encodeElements (decodeElements t bytes) =
      (bytes.take (bytes.length / t.width * t.width)).map (Element.canonical t) := by
  have hcount : bytes.length / t.width * t.width ≤ bytes.length := Nat.div_mul_le_self ..
  have hchunk : ∀ chunk ∈ chunks t.width (bytes.length / t.width) bytes,
      (Element.encode ∘ Element.decode t) chunk = chunk.map (Element.canonical t) :=
    fun chunk hc => Element.encode_decode (length_of_mem_chunks hcount hc)
  rw [encodeElements, decodeElements, List.flatMap_map, List.flatMap, ← flatten_chunks hcount,
    List.map_flatten]
  exact congrArg List.flatten (List.map_congr_left hchunk)

end Elements

end ArrayLifetimes
