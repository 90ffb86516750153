/-
Numbers, dates and times in TOML.

An integer is a signed 64-bit word, written in decimal, hexadecimal, octal or binary.
Underscores may stand between digits, and a decimal has no leading zero.  A real number
has a fraction or an exponent, and must not be too large.  A date may be any day up to
the 31st of a month, and a leap second is a second.

Nothing in a configuration is a real number or a date, so only their form is checked.
-/
import ArrayLifetimes.Json.Number
import ArrayLifetimes.Toml.Text

namespace ArrayLifetimes

namespace Toml

inductive Scalar where
  | text (s : String)
  | integer (n : Int)
  | real
  | bool (b : Bool)
  | moment
  deriving DecidableEq, Repr

/-- Digits with single underscores between them, and what follows; at least one digit. -/
def readDigits (digit : Char → Option Nat) : List Char → Option (List Nat × List Char)
  | [] => none
  | c :: rest => do
    let d ← digit c
    match rest with
    | '_' :: next =>
      let (ds, after) ← readDigits digit next
      return (d :: ds, after)
    | next =>
      match readDigits digit next with
      | some (ds, after) => return (d :: ds, after)
      | none => return ([d], next)

def valueOf (base : Nat) (digits : List Nat) : Nat := digits.foldl (fun n d => base * n + d) 0

/-- A digit of a base up to sixteen. -/
def digitBelow (base : Nat) (c : Char) : Option Nat := (Text.hexDigit? c).filter (· < base)

def decimalDigit (c : Char) : Option Nat := if c.isDigit then Text.hexDigit? c else none

/-- The sign at the start: whether it is there, and whether it is a minus. -/
def readSign : List Char → Bool × List Char
  | '+' :: rest => (false, rest)
  | '-' :: rest => (true, rest)
  | rest => (false, rest)

/-- The digits of a decimal integer, without its sign. -/
def readDecimal (cs : List Char) : Option (List Nat × List Char) :=
  match readDigits decimalDigit cs with
  | some (0 :: _ :: _, _) => none
  | found => found

def inRange (n : Int) : Bool := -2 ^ 63 ≤ n && n < 2 ^ 63

/-- An integer of another base, after `0x`, `0o` or `0b`. -/
def readBased (base : Nat) (cs : List Char) : Option (Scalar × List Char) := do
  let (digits, rest) ← readDigits (digitBelow base) cs
  let n := valueOf base digits
  if inRange n then some (.integer n, rest) else none

def readInteger (cs : List Char) : Option (Scalar × List Char) :=
  match cs with
  | '0' :: 'x' :: rest => readBased 16 rest
  | '0' :: 'o' :: rest => readBased 8 rest
  | '0' :: 'b' :: rest => readBased 2 rest
  | _ => do
    let (minus, body) := readSign cs
    let (digits, rest) ← readDecimal body
    let n : Int := if minus then -(valueOf 10 digits : Int) else valueOf 10 digits
    if inRange n then some (.integer n, rest) else none

/-- The exponent of a real number, none if there is no whole one. -/
def readExponent (cs : List Char) : Option (Int × List Char) :=
  match cs with
  | 'e' :: rest | 'E' :: rest => do
    let (minus, body) := readSign rest
    let (digits, after) ← readDigits decimalDigit body
    return (if minus then -(valueOf 10 digits : Int) else valueOf 10 digits, after)
  | _ => none

/-- Whether `digits · 10^power` is past the largest real number. -/
def tooLarge (digits : List Nat) (power : Int) : Bool :=
  let n := valueOf 10 digits
  let places := (Nat.toDigits 10 n).length + power
  if n = 0 ∨ places < 308 then false
  else if 310 < places then true
  else (2 ^ 1024 - 2 ^ 970) * 10 ^ (-power).toNat ≤ n * 10 ^ power.toNat

def readReal (cs : List Char) : Option (Scalar × List Char) := do
  let (minus, body) := readSign cs
  match body with
  | 'i' :: 'n' :: 'f' :: rest | 'n' :: 'a' :: 'n' :: rest => return (.real, rest)
  | _ =>
    let (whole, rest) ← readDecimal body
    let (fraction, rest, isReal) ← (match rest with
      | '.' :: next => do
        let (ds, after) ← readDigits decimalDigit next
        some (ds, after, true)
      | next => some ([], next, false))
    match readExponent rest with
    | some (power, after) =>
      if tooLarge (whole ++ fraction) (power - fraction.length) && !minus then none
      else return (.real, after)
    | none =>
      if isReal && !(tooLarge (whole ++ fraction) (-(fraction.length : Int)) && !minus) then
        return (.real, rest)
      else none

/-- A number of exactly `count` digits, within bounds. -/
def readField (count low high : Nat) (cs : List Char) : Option (Nat × List Char) := do
  let digits ← (cs.take count).mapM decimalDigit
  let n := valueOf 10 digits
  if digits.length = count ∧ low ≤ n ∧ n ≤ high then some (n, cs.drop count) else none

def after? (c : Char) (cs : List Char) : Option (List Char) :=
  match cs with
  | d :: rest => if d = c then some rest else none
  | [] => none

/-- A date, and what follows.  Every month may have 31 days. -/
def readDate (cs : List Char) : Option (List Char) := do
  let (_, cs) ← readField 4 0 9999 cs
  let (_, cs) ← readField 2 1 12 (← after? '-' cs)
  let (_, cs) ← readField 2 1 31 (← after? '-' cs)
  return cs

/-- A time of day, and what follows. -/
def readTime (cs : List Char) : Option (List Char) := do
  let (_, cs) ← readField 2 0 23 cs
  let (_, cs) ← readField 2 0 59 (← after? ':' cs)
  let (_, cs) ← readField 2 0 60 (← after? ':' cs)
  match cs with
  | '.' :: c :: rest => if c.isDigit then return rest.dropWhile Char.isDigit else none
  | '.' :: [] => none
  | rest => return rest

/-- The offset from universal time, if one follows. -/
def readOffset (cs : List Char) : Option (List Char) :=
  match cs with
  | 'Z' :: rest | 'z' :: rest => some rest
  | '+' :: rest | '-' :: rest => do
    let (_, cs) ← readField 2 0 23 rest
    let (_, cs) ← readField 2 0 59 (← after? ':' cs)
    return cs
  | rest => some rest

def readMoment (cs : List Char) : Option (Scalar × List Char) :=
  match readDate cs with
  | some rest =>
    let withTime := match rest with
      | 'T' :: next | 't' :: next | ' ' :: next => (readTime next).bind readOffset
      | _ => none
    some (.moment, withTime.getD rest)
  | none => (readTime cs).map fun rest => (.moment, rest)

/-- A scalar at the start of the input, and what follows. -/
def readScalar (cs : List Char) : Option (Scalar × List Char) :=
  match cs with
  | '"' :: _ | '\'' :: _ => (readText cs).map fun (s, rest) => (.text (String.ofList s), rest)
  | 't' :: 'r' :: 'u' :: 'e' :: rest => some (.bool true, rest)
  | 'f' :: 'a' :: 'l' :: 's' :: 'e' :: rest => some (.bool false, rest)
  | _ => (readMoment cs).or ((readReal cs).or (readInteger cs))

end Toml

end ArrayLifetimes
