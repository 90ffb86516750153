/-
Numbers in JSON.

The digits are read into a 64-bit word.  A number without point and exponent that
fits is an integer; `-0` is not, because no integer has its sign.  Any other number is
the word times a power of ten: digits that the word has no room for only count for the
power, and the product is rounded once for the word, once for the power and once for
the product.  A power past the largest is applied in steps.
-/
import ArrayLifetimes.Json.Value
import ArrayLifetimes.Number.Operations

namespace ArrayLifetimes

namespace Json

/-- The largest 64-bit word. -/
def maxWord : Nat := 2 ^ 64 - 1

def digit? (c : Char) : Option Nat := if c.isDigit then some (c.toNat - '0'.toNat) else none

/-- The digits at the start, and what follows them. -/
def digitRun (cs : List Char) : List Nat × List Char :=
  ((cs.takeWhile Char.isDigit).filterMap digit?, cs.dropWhile Char.isDigit)

/-- A word and the number of digits taken into it, as far as there is room. -/
def fillWord (word : Nat) : List Nat → Nat × Nat
  | [] => (word, 0)
  | d :: rest =>
    if 10 * word + d ≤ maxWord then
      let (w, taken) := fillWord (10 * word + d) rest
      (w, taken + 1)
    else (word, 0)

/-- The largest power of ten that is a floating point number. -/
def maxPower : Nat := 308

def powerOfTen (n : Nat) : Binary64 := Binary64.ofNat (10 ^ n)

/-- A number divided by `10^power`, in steps of the largest power of ten. -/
def divided : Nat → Binary64 → Nat → Binary64
  | 0, x, _ => x
  | fuel + 1, x, power =>
    if power ≤ maxPower then x.div (powerOfTen power)
    else if x.eq Binary64.zero then x
    else divided fuel (x.div (powerOfTen maxPower)) (power - maxPower)

/-- ±word · 10^power, none if that is too large. -/
def scaledWord? (negative : Bool) (word : Nat) (power : Int) : Option Binary64 :=
  let start := Binary64.ofNat word
  let signed (x : Binary64) := if negative then x.neg else x
  if power < 0 then some (signed (divided 8 start power.natAbs))
  else if power.toNat ≤ maxPower then
    let x := start.mul (powerOfTen power.toNat)
    if x.isFinite then some (signed x) else none
  else if word = 0 then some (signed start)
  else none

/-- A real number as a value. -/
def realValue (negative : Bool) (word : Nat) (power : Int) : Value :=
  match scaledWord? negative word power with
  | some x => .real x
  | none => .unrepresentable

/-- The exponent after its letter, and what follows. -/
def exponent? (cs : List Char) : Option (Int × List Char) :=
  let (negative, rest) := match cs with
    | '+' :: r => (false, r)
    | '-' :: r => (true, r)
    | r => (false, r)
  match digitRun rest with
  | ([], _) => none
  | (digits, after) =>
    let n : Nat := digits.foldl (fun n d => 10 * n + d) 0
    some (if negative then -(n : Int) else n, after)

/-- What follows the digits of a real number: maybe an exponent. -/
def afterDigits (negative : Bool) (word : Nat) (power : Int) (cs : List Char) :
    Option (Value × List Char) :=
  match cs with
  | 'e' :: r | 'E' :: r =>
    match exponent? r with
    | some (e, after) => some (realValue negative word (power + e), after)
    | none => none
  | _ => some (realValue negative word power, cs)

/-- A number at the start of the characters, and what follows it. -/
def readNumber (cs : List Char) : Option (Value × List Char) :=
  let (negative, body) := match cs with
    | '-' :: r => (true, r)
    | r => (false, r)
  match digitRun body with
  | ([], _) => none
  | (0 :: _ :: _, _) => none
  | (digits, rest) =>
    let (word, taken) := fillWord 0 digits
    let spare := digits.length - taken
    match rest with
    | '.' :: r =>
      match digitRun r with
      | ([], _) => none
      | (fraction, after) =>
        let (word', used) := fillWord word fraction
        afterDigits negative word' (spare - used) after
    | 'e' :: _ | 'E' :: _ => afterDigits negative word spare rest
    | _ =>
      if 0 < spare then some (realValue negative word spare, rest)
      else if !negative then some (.natural word, rest)
      else if word = 0 ∨ 2 ^ 63 < word then some (realValue true word 0, rest)
      else some (.negative (-(word : Int)), rest)

end Json

end ArrayLifetimes
