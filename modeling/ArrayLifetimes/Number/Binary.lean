/-
Binary floating point over exact integers.

A number of a binary format is kept as its bits.  `decode` reads the bits as
±m · 2^e, and every operation is the exact result of the integers behind its
operands, rounded once by `round`: to the nearest number of the format, a tie to
the even neighbour.  Nothing here is approximate except that one step, so a law
about an operation is a law about integers.

Two formats occur: `binary32` and `binary64`.  Arithmetic is done in `binary64`.
An operation without a meaningful result gives the quiet NaN with its sign set,
and a NaN operand is handed on, the first one if both are.
-/
import ArrayLifetimes.Number.Operations

namespace ArrayLifetimes

namespace Number

/-- A binary format: the bits of its fraction and of its exponent field. -/
structure Format where
  fraction : Nat
  exponent : Nat
  deriving DecidableEq, Repr

namespace Format

def binary32 : Format := ⟨23, 8⟩

def binary64 : Format := ⟨52, 11⟩

/-- Half the range of the exponent field. -/
def bias (f : Format) : Nat := 2 ^ (f.exponent - 1) - 1

/-- The exponent of the last place of the smallest numbers. -/
def lowest (f : Format) : Int := 1 - (f.bias : Int) - f.fraction

/-- The bits of positive infinity, past those of every finite number. -/
def infinity (f : Format) : Nat := (2 ^ f.exponent - 1) * 2 ^ f.fraction

/-- The bit that marks a negative number. -/
def signBit (f : Format) : Nat := 2 ^ (f.fraction + f.exponent)

/-- The bit that marks a NaN as quiet. -/
def quietBit (f : Format) : Nat := 2 ^ (f.fraction - 1)

end Format

/-- What the bits of a number say.  `finite` is ±significand · 2^exponent. -/
inductive Reading where
  | nan (negative : Bool) (payload : Nat)
  | infinite (negative : Bool)
  | finite (negative : Bool) (significand : Nat) (exponent : Int)
  deriving DecidableEq, Repr

/-- The reading of the low bits of `bits` in the format. -/
def Format.decode (f : Format) (bits : Nat) : Reading :=
  let negative := bits / f.signBit % 2 = 1
  let field := bits / 2 ^ f.fraction % 2 ^ f.exponent
  let fraction := bits % 2 ^ f.fraction
  if field = 2 ^ f.exponent - 1 then
    if fraction = 0 then .infinite negative else .nan negative fraction
  else if field = 0 then .finite negative fraction f.lowest
  else .finite negative (2 ^ f.fraction + fraction) (f.lowest + field - 1)

/-- A sign put in front of the bits of a magnitude. -/
def Format.withSign (f : Format) (negative : Bool) (magnitude : Nat) : Nat :=
  if negative then f.signBit + magnitude else magnitude

/-- `m / 2^shift` rounded to the nearest integer, a tie to the even one.  `more`
says that the exact value lies a little above `m`. -/
def halfToEven (m shift : Nat) (more : Bool) : Nat :=
  let whole := m / 2 ^ shift
  let rest := m % 2 ^ shift
  if shift = 0 then whole
  else if 2 * rest < 2 ^ shift then whole
  else if 2 * rest = 2 ^ shift && !more && whole % 2 == 0 then whole
  else whole + 1

/-- The bits of the number nearest to ±m · 2^e, infinity past the largest.

The significand of the result is at most one digit longer than the format holds,
and a carry into that digit is the next exponent, which is why the field and the
significand are added rather than joined. -/
def Format.round (f : Format) (negative : Bool) (m : Nat) (e : Int) (more : Bool) : Nat :=
  if m = 0 then f.withSign negative 0
  else
    let last := max (e + m.log2 - f.fraction) f.lowest
    let significand :=
      if last ≤ e then m * 2 ^ (e - last).toNat else halfToEven m (last - e).toNat more
    let magnitude := (last - f.lowest).toNat * 2 ^ f.fraction + significand
    f.withSign negative (min magnitude f.infinity)

end Number

/-- A 32-bit floating point number, by its bits. -/
structure Binary32 where
  bits : UInt32
  deriving DecidableEq, Repr, Inhabited

/-- A 64-bit floating point number, by its bits. -/
structure Binary64 where
  bits : UInt64
  deriving DecidableEq, Repr, Inhabited

/-- The 32-bit number nearest to an integer. -/
def Binary32.ofInt (n : Int) : Binary32 :=
  ⟨UInt32.ofNat (Number.Format.binary32.round (n < 0) n.natAbs 0 false)⟩

namespace Binary64

open Number

def ofNatBits (n : Nat) : Binary64 := ⟨UInt64.ofNat n⟩

def decode (x : Binary64) : Reading := Format.binary64.decode x.bits.toNat

/-- The number nearest to ±m · 2^e. -/
def rounded (negative : Bool) (m : Nat) (e : Int) (more : Bool) : Binary64 :=
  ofNatBits (Format.binary64.round negative m e more)

/-- The number nearest to an integer. -/
def ofInt (n : Int) : Binary64 := rounded (n < 0) n.natAbs 0 false

def ofNat (n : Nat) : Binary64 := rounded false n 0 false

def zero : Binary64 := ofNat 0

def one : Binary64 := ofNat 1

/-- The NaN of an operation that has no result. -/
def noResult : Binary64 := ⟨0xfff8000000000000⟩

/-- A NaN as it is handed on: the same, made quiet. -/
def quiet (x : Binary64) : Binary64 := ⟨x.bits ||| 0x0008000000000000⟩

def infinity (negative : Bool) : Binary64 :=
  ofNatBits (Format.binary64.withSign negative Format.binary64.infinity)

def isNaN (x : Binary64) : Bool :=
  match x.decode with
  | .nan .. => true
  | _ => false

def isFinite (x : Binary64) : Bool :=
  match x.decode with
  | .finite .. => true
  | _ => false

/-- ±m as an integer. -/
def signed (negative : Bool) (m : Nat) : Int := if negative then -(m : Int) else m

/-- The integer ±m · 2^(e - low), for `low` at most `e`. -/
def scaled (negative : Bool) (m : Nat) (e low : Int) : Int :=
  signed negative (m * 2 ^ (e - low).toNat)

/-- The sum, rounded once.  An exact zero is negative only for two negative zeros. -/
def add (x y : Binary64) : Binary64 :=
  match x.decode, y.decode with
  | .nan .., _ => x.quiet
  | _, .nan .. => y.quiet
  | .infinite s, .infinite t => if s = t then x else noResult
  | .infinite _, _ => x
  | _, .infinite _ => y
  | .finite s m e, .finite t n k =>
    let low := min e k
    let total := scaled s m e low + scaled t n k low
    if total = 0 then rounded (s && t && m == 0 && n == 0) 0 0 false
    else rounded (total < 0) total.natAbs low false

def neg (x : Binary64) : Binary64 := ⟨x.bits ^^^ 0x8000000000000000⟩

/-- The difference, rounded once. -/
def sub (x y : Binary64) : Binary64 := if y.isNaN && !x.isNaN then y.quiet else x.add y.neg

/-- The product, rounded once. -/
def mul (x y : Binary64) : Binary64 :=
  match x.decode, y.decode with
  | .nan .., _ => x.quiet
  | _, .nan .. => y.quiet
  | .infinite s, .infinite t => infinity (s != t)
  | .infinite s, .finite t n _ => if n = 0 then noResult else infinity (s != t)
  | .finite s m _, .infinite t => if m = 0 then noResult else infinity (s != t)
  | .finite s m e, .finite t n k => rounded (s != t) (m * n) (e + k) false

/-- The quotient, rounded once.  The integer quotient is taken with enough digits
that what is cut off can only decide a tie. -/
def div (x y : Binary64) : Binary64 :=
  match x.decode, y.decode with
  | .nan .., _ => x.quiet
  | _, .nan .. => y.quiet
  | .infinite _, .infinite _ => noResult
  | .infinite s, .finite t _ _ => infinity (s != t)
  | .finite s _ _, .infinite t => rounded (s != t) 0 0 false
  | .finite s m e, .finite t n k =>
    if n = 0 then (if m = 0 then noResult else infinity (s != t))
    else
      let digits := 56 + n.log2
      let m' := m * 2 ^ digits
      rounded (s != t) (m' / n) (e - k - digits) (m' % n != 0)

/-- The order of two numbers, none if one of them is a NaN. -/
def compare? (x y : Binary64) : Option Ordering :=
  match x.decode, y.decode with
  | .nan .., _ => none
  | _, .nan .. => none
  | .infinite s, .infinite t => some (if s = t then .eq else if s then .lt else .gt)
  | .infinite s, _ => some (if s then .lt else .gt)
  | _, .infinite t => some (if t then .gt else .lt)
  | .finite s m e, .finite t n k =>
    let low := min e k
    some (compare (scaled s m e low) (scaled t n k low))

def lt (x y : Binary64) : Bool := x.compare? y == some .lt

def le (x y : Binary64) : Bool := x.compare? y == some .lt || x.compare? y == some .eq

def eq (x y : Binary64) : Bool := x.compare? y == some .eq

/-- The integer part of a finite number, toward zero. -/
def truncated (negative : Bool) (m : Nat) (e : Int) : Int :=
  signed negative (if 0 ≤ e then m * 2 ^ e.toNat else m / 2 ^ (-e).toNat)

/-- The number as an integer within `lo` and `hi`: toward zero, then clamped.  A NaN is 0. -/
def toIntClamped (lo hi : Int) (x : Binary64) : Int :=
  match x.decode with
  | .nan .. => 0
  | .infinite s => if s then lo else hi
  | .finite s m e => max lo (min hi (truncated s m e))

/-- The least integer at or above a finite number. -/
def ceil? (x : Binary64) : Option Int :=
  match x.decode with
  | .finite s m e =>
    let whole := truncated s m e
    let exact := decide (0 ≤ e) || m % 2 ^ (-e).toNat == 0
    some (if s || exact then whole else whole + 1)
  | _ => none

/-- The nearest 32-bit number.  A NaN keeps its sign and the top of its payload. -/
def toBinary32 (x : Binary64) : Binary32 :=
  let f := Format.binary32
  match x.decode with
  | .nan s payload =>
    let kept := payload / 2 ^ 29
    let marked := if kept / f.quietBit % 2 = 1 then kept else kept + f.quietBit
    ⟨UInt32.ofNat (f.withSign s (f.infinity + marked))⟩
  | .infinite s => ⟨UInt32.ofNat (f.withSign s f.infinity)⟩
  | .finite s m e => ⟨UInt32.ofNat (f.round s m e false)⟩

/-- The same number in 64 bits. -/
def ofBinary32 (x : Binary32) : Binary64 :=
  match Format.binary32.decode x.bits.toNat with
  | .nan s payload =>
    quiet (ofNatBits (Format.binary64.withSign s (Format.binary64.infinity + payload * 2 ^ 29)))
  | .infinite s => infinity s
  | .finite s m e => rounded s m e false

end Binary64

end ArrayLifetimes
