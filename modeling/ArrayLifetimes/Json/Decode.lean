/-
What JSON values stand for.

A choice is stored as its name, or as an object with that name as its only key and the
choice's argument as its value; a choice without argument has `null` there.  A record
is stored as an object with its fields by name or as an array with its fields in order.
No field may occur twice, and fields that nobody asks for are skipped.
-/
import ArrayLifetimes.Json.Value
import ArrayLifetimes.Data.DataType
import ArrayLifetimes.Data.Device
import ArrayLifetimes.Data.Shape
import ArrayLifetimes.Fault.Domain

namespace ArrayLifetimes

namespace Json

namespace Value

def asBool? : Value → Option Bool
  | bool b => some b
  | _ => none

def asText? : Value → Option String
  | text s => s
  | _ => none

/-- A natural number up to a bound. -/
def asNat? (bound : Nat) : Value → Option Nat
  | natural n => if n ≤ bound then some n else none
  | _ => none

/-- An integer in the range of signed 64-bit words. -/
def asInt? : Value → Option Int
  | natural n => if n < 2 ^ 63 then some n else none
  | negative n => some n
  | _ => none

/-- Any number, an integer being rounded. -/
def asNumber? : Value → Option Binary64
  | natural n => some (Binary64.ofNat n)
  | negative n => some (Binary64.ofInt n)
  | real x => some x
  | _ => none

/-- All items of an array, each read by `item`. -/
def asList? {α : Type} (item : Value → Option α) : Value → Option (List α)
  | array items => items.mapM item
  | _ => none

/-- The name of a choice, and its argument. -/
def choice? : Value → Option (String × Option Value)
  | text (some s) => some (s, none)
  | object [(some k, v)] => some (k, some v)
  | _ => none

/-- The name of a choice that has no argument. -/
def plainChoice? (v : Value) : Option String :=
  match v.choice? with
  | some (name, none) | some (name, some null) => some name
  | _ => none

/-- A value that was put by before anybody knew what it is for: an empty object in the place of
the argument of a choice then counts as `null`. -/
def putBy : Value → Value
  | object [(name, object [])] => object [(name, null)]
  | v => v

/-- Whether an object has the first of two members before the second. -/
def hasBefore (first second : String) (members : List (Option String × Value)) : Bool :=
  match members.find? fun m => m.1 == some first || m.1 == some second with
  | some m => m.1 == some first
  | none => false

/-- The value of a field: none if the object is no record with usable keys or has the field
twice, some nothing if the field is missing. -/
def field? (name : String) : List (Option String × Value) → Option (Option Value)
  | [] => some none
  | (none, _) :: _ => none
  | (some k, v) :: rest =>
    match field? name rest with
    | none => none
    | some found =>
      if k = name then (if found.isSome then none else some (some v)) else some found

/-- The fields of a record, in the order of `names`; a missing field is none. -/
def fields? (names : List String) : Value → Option (List (Option Value))
  | object members => names.mapM fun name => field? name members
  | array items =>
    if items.length ≤ names.length then
      some (items.map some ++ List.replicate (names.length - items.length) none)
    else none
  | _ => none

end Value

end Json

open Json

/-- How a device is stored. -/
def Device.toJson : Device → Value
  | .cpu => .ofText "cpu"
  | .gpu index => .ofMembers [("gpu", .natural index.toNat)]

def Device.ofJson? (v : Value) : Option Device :=
  match v.choice? with
  | some ("cpu", none) | some ("cpu", some .null) => some .cpu
  | some ("gpu", some n) => (n.asNat? (2 ^ 32 - 1)).map fun n => .gpu (UInt32.ofNat n)
  | _ => none

def DataType.toJson (t : DataType) : Value := .ofText t.name

def DataType.ofJson? (v : Value) : Option DataType := v.plainChoice?.bind DataType.ofName?

def Shape.toJson (s : Shape) : Value := .array (s.dims.map fun d => .natural d.toNat)

def Shape.ofJson? (v : Value) : Option Shape :=
  (v.asList? (Value.asNat? (2 ^ 64 - 1))).map Shape.ofNats

def ErrorDomain.ofJson? (v : Value) : Option ErrorDomain :=
  v.plainChoice?.bind ErrorDomain.ofStored?

end ArrayLifetimes
