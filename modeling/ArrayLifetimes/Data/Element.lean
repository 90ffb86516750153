/-
Elements: the values that arrays hold, one constructor per data type.

An element is written as little-endian bytes.  Arithmetic does not work on elements
but on 64-bit floating point numbers: a number is stored by rounding or clamping it
to the data type, and fetched by widening what is stored.
-/
import ArrayLifetimes.Data.DataType
import ArrayLifetimes.Number.Binary

namespace ArrayLifetimes

inductive Element where
  | float32 (x : Binary32)
  | float64 (x : Binary64)
  | int8 (x : Int8)
  | uint8 (x : UInt8)
  | int32 (x : Int32)
  | int64 (x : Int64)
  | boolean (x : Bool)
  deriving DecidableEq, Repr

/-- The low `count` bytes of a number, the lowest first. -/
def littleEndian : Nat → Nat → List UInt8
  | 0, _ => []
  | count + 1, n => UInt8.ofNat n :: littleEndian count (n / 256)

@[simp] theorem length_littleEndian (count n : Nat) : (littleEndian count n).length = count := by
  induction count generalizing n with
  | zero => rfl
  | succ count ih => simp [littleEndian, ih]

/-- The number that bytes stand for, the lowest first. -/
def ofLittleEndian : List UInt8 → Nat
  | [] => 0
  | b :: rest => b.toNat + 256 * ofLittleEndian rest

namespace Element

def dataType : Element → DataType
  | float32 _ => .float32
  | float64 _ => .float64
  | int8 _ => .int8
  | uint8 _ => .uint8
  | int32 _ => .int32
  | int64 _ => .int64
  | boolean _ => .boolean

/-- The bits of an element, as an unsigned number. -/
def bits : Element → Nat
  | float32 x => x.bits.toNat
  | float64 x => x.bits.toNat
  | int8 x => x.toUInt8.toNat
  | uint8 x => x.toNat
  | int32 x => x.toUInt32.toNat
  | int64 x => x.toUInt64.toNat
  | boolean x => if x then 1 else 0

/-- The element with the given bits.  A boolean is true unless it is zero. -/
def ofBits (t : DataType) (n : Nat) : Element :=
  match t with
  | .float32 => float32 ⟨UInt32.ofNat n⟩
  | .float64 => float64 ⟨UInt64.ofNat n⟩
  | .int8 => int8 (UInt8.ofNat n).toInt8
  | .uint8 => uint8 (UInt8.ofNat n)
  | .int32 => int32 (UInt32.ofNat n).toInt32
  | .int64 => int64 (UInt64.ofNat n).toInt64
  | .boolean => boolean (n % 256 != 0)

/-- An element as bytes. -/
def encode (x : Element) : List UInt8 := littleEndian x.dataType.width x.bits

/-- The element of one chunk of bytes. -/
def decode (t : DataType) (chunk : List UInt8) : Element := ofBits t (ofLittleEndian chunk)

/-- The number stored in the data type: rounded for the floating types, cut toward zero
and clamped for the integers, different from zero for booleans. -/
def ofNumber (t : DataType) (x : Binary64) : Element :=
  match t with
  | .float32 => float32 x.toBinary32
  | .float64 => float64 x
  | .int8 => int8 (Int8.ofInt (x.toIntClamped (-2 ^ 7) (2 ^ 7 - 1)))
  | .uint8 => uint8 (UInt8.ofNat (x.toIntClamped 0 (2 ^ 8 - 1)).toNat)
  | .int32 => int32 (Int32.ofInt (x.toIntClamped (-2 ^ 31) (2 ^ 31 - 1)))
  | .int64 => int64 (Int64.ofInt (x.toIntClamped (-2 ^ 63) (2 ^ 63 - 1)))
  | .boolean => boolean !(x.eq Binary64.zero)

/-- The number that an element stands for. -/
def toNumber : Element → Binary64
  | float32 x => Binary64.ofBinary32 x
  | float64 x => x
  | int8 x => Binary64.ofInt x.toInt
  | uint8 x => Binary64.ofNat x.toNat
  | int32 x => Binary64.ofInt x.toInt
  | int64 x => Binary64.ofInt x.toInt
  | boolean x => if x then Binary64.one else Binary64.zero

end Element

/-- The first `count` chunks of `width` bytes. -/
def chunks (width : Nat) : Nat → List UInt8 → List (List UInt8)
  | 0, _ => []
  | count + 1, bytes => bytes.take width :: chunks width count (bytes.drop width)

/-- Elements as bytes, one after the other. -/
def encodeElements (xs : List Element) : List UInt8 := xs.flatMap Element.encode

/-- The elements that bytes hold; a part of an element at the end is left out. -/
def decodeElements (t : DataType) (bytes : List UInt8) : List Element :=
  (chunks t.width (bytes.length / t.width) bytes).map (Element.decode t)

end ArrayLifetimes
