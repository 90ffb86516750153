/-
How floating point numbers are written.

Two forms occur.  A message writes a number positionally, however long that gets,
and a whole number without a point: `0.1`, `-0`, 1 and 300 zeros for 1e300.  A
JSON document keeps one digit after the point and turns to an exponent outside
10^-5 … 10^16, with its sign: `2.0`, `1e+16`, `1.5e-6`.

Both take the shortest digits that read back and differ in where the point goes.
-/
import ArrayLifetimes.Number.Shortest

namespace ArrayLifetimes

namespace Binary64

open Number

/-- Decimal digits of a natural number. -/
def digitsOf (n : Nat) : List Char := Nat.toDigits 10 n

/-- The digits of a positive number and the place of its point, counted from their
start. -/
def pointed (tie : Tie) (m : Nat) (e : Int) : List Char × Int :=
  let d := (Format.binary64.shortest tie m e).trimmed 17
  let digits := digitsOf d.digits
  (digits, digits.length + d.exponent)

/-- A point `place` digits from the start, with zeros on either side as needed.
`whole` is what a number without a fraction ends in. -/
def positional (digits : List Char) (place : Int) (whole : List Char) : List Char :=
  if place ≤ 0 then '0' :: '.' :: (List.replicate (-place).toNat '0' ++ digits)
  else if (digits.length : Int) ≤ place then
    digits ++ List.replicate (place.toNat - digits.length) '0' ++ whole
  else digits.take place.toNat ++ '.' :: digits.drop place.toNat

/-- One digit, the point and the others, and the exponent of ten with its sign. -/
def scientific (digits : List Char) (place : Int) : List Char :=
  let mantissa := match digits with
    | d :: r@(_ :: _) => d :: '.' :: r
    | short => short
  let power := place - 1
  mantissa ++ 'e' :: (if power < 0 then '-' else '+') :: digitsOf power.natAbs

/-- The form used in messages. -/
def text (x : Binary64) : String :=
  match x.decode with
  | .nan .. => "NaN"
  | .infinite s => if s then "-inf" else "inf"
  | .finite s m e =>
    let body :=
      if m = 0 then ['0']
      else
        let (digits, place) := pointed .up m e
        positional digits place []
    String.ofList (if s then '-' :: body else body)

/-- The form used in JSON, which has no word for a number that is not finite. -/
def jsonText (x : Binary64) : String :=
  match x.decode with
  | .finite s m e =>
    let body :=
      if m = 0 then ['0', '.', '0']
      else
        let (digits, place) := pointed .even m e
        if -5 < place ∧ place ≤ 16 then positional digits place ['.', '0']
        else scientific digits place
    String.ofList (if s then '-' :: body else body)
  | _ => "null"

end Binary64

end ArrayLifetimes
