/-
The fewest decimal digits that read back as a binary number.

A number stands for all reals that round to it: an interval around ±m · 2^e whose
ends are half way to the neighbours, and belong to it when `m` is even.  For one
digit, two digits and so on up to seventeen, the two points of that decimal grid
next to the number are tried.  The first grid with a point inside the interval
wins, and of two such points the nearer one.

Only integers are compared: the interval is scaled by a quarter of the last
place, which is the finest step that its ends need.
-/
import ArrayLifetimes.Number.Binary

namespace ArrayLifetimes

namespace Number

/-- Which of two equally near decimals is written. -/
inductive Tie where
  | up
  | even
  deriving DecidableEq, Repr

/-- The decimal `digits · 10^exponent`. -/
structure Decimal where
  digits : Nat
  exponent : Int
  deriving DecidableEq, Repr

/-- The interval of a positive number, in units of `2^unit`. -/
structure Span where
  value : Nat
  low : Nat
  high : Nat
  closed : Bool
  unit : Int
  deriving DecidableEq, Repr

/-- The reals that round to `m · 2^e`.  Below a power of two the neighbour is only
half as far away, except at the bottom of the format. -/
def Format.span (f : Format) (m : Nat) (e : Int) : Span :=
  { value := 4 * m
    low := if m = 2 ^ f.fraction ∧ f.lowest < e then 4 * m - 1 else 4 * m - 2
    high := 4 * m + 2
    closed := m % 2 == 0
    unit := e - 2 }

/-- The order of `a · 2^i` and `b · 10^j`. -/
def compareScaled (a : Nat) (i : Int) (b : Nat) (j : Int) : Ordering :=
  compare (a * 2 ^ i.toNat * 10 ^ (-j).toNat) (b * 10 ^ j.toNat * 2 ^ (-i).toNat)

/-- The decimal lies in the interval. -/
def Span.holds (s : Span) (d : Decimal) : Bool :=
  let low := compareScaled s.low s.unit d.digits d.exponent
  let high := compareScaled s.high s.unit d.digits d.exponent
  if s.closed then low != .gt && high != .lt else low == .lt && high == .gt

/-- The exponent `p` with `10^(p-1) ≤ value < 10^p`. -/
def Span.magnitude (s : Span) : Int :=
  let guess := ((s.value.log2 : Int) + s.unit) * 30103 / 100000
  if compareScaled s.value s.unit 1 (guess + 1) != .lt then guess + 2
  else if compareScaled s.value s.unit 1 guess != .lt then guess + 1
  else guess

/-- The point of the grid `10^exponent` at or below the value. -/
def Span.below (s : Span) (exponent : Int) : Nat :=
  (s.value * 2 ^ s.unit.toNat * 10 ^ (-exponent).toNat) /
    (10 ^ exponent.toNat * 2 ^ (-s.unit).toNat)

/-- The better of the two points of a grid next to the value, if one reads back. -/
def Span.onGrid? (s : Span) (tie : Tie) (exponent : Int) : Option Decimal :=
  let down : Decimal := ⟨s.below exponent, exponent⟩
  let up : Decimal := ⟨down.digits + 1, exponent⟩
  match s.holds down, s.holds up with
  | false, false => none
  | true, false => some down
  | false, true => some up
  | true, true =>
    match compareScaled (2 * s.value) s.unit (2 * down.digits + 1) exponent with
    | .lt => some down
    | .gt => some up
    | .eq =>
      match tie with
      | .up => some up
      | .even => some (if down.digits % 2 = 0 then down else up)

/-- The shortest decimal of a positive number, the nearest one of that length. -/
def Format.shortest (f : Format) (tie : Tie) (m : Nat) (e : Int) : Decimal :=
  let s := f.span m e
  let p := s.magnitude
  let found := (List.range 17).findSome? fun n => s.onGrid? tie (p - (n + 1 : Nat))
  found.getD ⟨s.below (p - 17), p - 17⟩

/-- Trailing zeros of the digits moved into the exponent, at most `fuel` of them. -/
def Decimal.trimmed : Nat → Decimal → Decimal
  | 0, d => d
  | fuel + 1, d =>
    if d.digits ≠ 0 ∧ d.digits % 10 = 0 then
      Decimal.trimmed fuel ⟨d.digits / 10, d.exponent + 1⟩
    else d

end Number

end ArrayLifetimes
