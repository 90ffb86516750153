/-
Devices: where the memory of an array lies.

A device is written `cpu()` or `gpu(2)`.  A reader takes `cpu`, `cpu()`, `gpu`,
`gpu()` and `gpu(2)` with white space around them and letters of either case.  The
index has an optional plus sign and at least one digit, and is a 32-bit word.
-/
import ArrayLifetimes.Number.Operations
import ArrayLifetimes.Text.Blank

namespace ArrayLifetimes

inductive Device where
  | cpu
  | gpu (index : UInt32)
  deriving DecidableEq, Repr, Inhabited

/-- What is wrong with a device text. -/
inductive DeviceFault where
  | malformed (text : String)
  | badIndex (index : String)
  | unknown (text : String)
  deriving DecidableEq, Repr

def DeviceFault.message : DeviceFault → String
  | malformed text => "malformed device '" ++ text ++ "'"
  | badIndex index => "bad gpu index '" ++ index ++ "'"
  | unknown text => "unknown device '" ++ text ++ "'"

namespace Device

def isGpu : Device → Bool
  | gpu _ => true
  | cpu => false

def text : Device → String
  | cpu => "cpu()"
  | gpu index => "gpu(" ++ toString index.toNat ++ ")"

/-- The number that a list of decimal digits stands for, none for anything else. -/
def digitsValue? (cs : List Char) : Option Nat :=
  cs.foldlM (fun n c => if c.isDigit then some (10 * n + (c.toNat - '0'.toNat)) else none) 0

/-- A device index: at most one plus sign, then digits, in the range of a 32-bit word. -/
def index? (cs : List Char) : Option UInt32 :=
  let digits := if cs.head? = some '+' then cs.tail else cs
  if digits.isEmpty then none
  else (digitsValue? digits).bind fun n => if n < 2 ^ 32 then some (UInt32.ofNat n) else none

/-- A device by its name and by what stands in its parentheses, if it has any. -/
def ofParts (whole name : List Char) (argument : Option (List Char)) :
    Except DeviceFault Device :=
  if name = "cpu".toList ∧ (argument = none ∨ argument = some []) then .ok cpu
  else if name = "gpu".toList then
    match argument with
    | none | some [] => .ok (gpu 0)
    | some cs =>
      match index? cs with
      | some index => .ok (gpu index)
      | none => .error (.badIndex (String.ofList cs))
  else .error (.unknown (String.ofList whole))

/-- Reads a device.  The argument runs from the first opening parenthesis to the last
character, which must be the closing one. -/
def parse (s : String) : Except DeviceFault Device :=
  let cs := Text.lowered (Text.trim s.toList)
  let name := cs.takeWhile (· ≠ '(')
  match cs.dropWhile (· ≠ '(') with
  | [] => ofParts cs cs none
  | _ :: rest =>
    if rest.getLast? = some ')' then ofParts cs name (some rest.dropLast)
    else .error (.malformed (String.ofList cs))

/-- The constructor's own spelling, for diagnostics. -/
def debugText : Device → String
  | cpu => "Cpu"
  | gpu index => "Gpu(" ++ toString index.toNat ++ ")"

end Device

end ArrayLifetimes
