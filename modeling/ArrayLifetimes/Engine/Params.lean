/-
Parameters of named operations: an ordered list of names and values.

A name may occur more than once; its first value counts.  A lookup asks for a type and
finds nothing if the value has another one, except that an integer will do for a number
and a list of natural numbers for a shape.
-/
import ArrayLifetimes.Json.Decode

namespace ArrayLifetimes

inductive ParamValue where
  | bool (b : Bool)
  | int (n : Int)
  | float (x : Binary64)
  | str (s : String)
  | intList (ns : List Int)
  | shape (s : Shape)
  | dataType (t : DataType)
  | device (d : Device)
  deriving DecidableEq, Repr

abbrev Params := List (String × ParamValue)

namespace Params

def get? (ps : Params) (name : String) : Option ParamValue := ps.lookup name

def int? (ps : Params) (name : String) : Option Int :=
  match ps.get? name with
  | some (.int n) => some n
  | _ => none

def float? (ps : Params) (name : String) : Option Binary64 :=
  match ps.get? name with
  | some (.float x) => some x
  | some (.int n) => some (Binary64.ofInt n)
  | _ => none

def bool? (ps : Params) (name : String) : Option Bool :=
  match ps.get? name with
  | some (.bool b) => some b
  | _ => none

def str? (ps : Params) (name : String) : Option String :=
  match ps.get? name with
  | some (.str s) => some s
  | _ => none

def shape? (ps : Params) (name : String) : Option Shape :=
  match ps.get? name with
  | some (.shape s) => some s
  | some (.intList ns) =>
    (ns.mapM fun n => if 0 ≤ n then some n.toNat else none).map Shape.ofNats
  | _ => none

end Params

open Json

namespace ParamValue

/-- The name under which the type of a value is stored. -/
def typeName : ParamValue → String
  | bool _ => "bool"
  | int _ => "int"
  | float _ => "float"
  | str _ => "str"
  | intList _ => "int_list"
  | shape _ => "shape"
  | dataType _ => "data_type"
  | device _ => "device"

def content : ParamValue → Value
  | bool b => .bool b
  | int n => .ofInt n
  | float x => .real x
  | str s => .ofText s
  | intList ns => .array (ns.map .ofInt)
  | shape s => s.toJson
  | dataType t => t.toJson
  | device d => d.toJson

/-- A value is stored beside the name of its type. -/
def toJson (p : ParamValue) : Value :=
  .ofMembers [("type", .ofText p.typeName), ("value", p.content)]

/-- A value of the type with the given name. -/
def ofContent? (type : String) (v : Value) : Option ParamValue :=
  match type with
  | "bool" => v.asBool?.map bool
  | "int" => v.asInt?.map int
  | "float" => v.asNumber?.map float
  | "str" => v.asText?.map str
  | "int_list" => (v.asList? Value.asInt?).map intList
  | "shape" => (Shape.ofJson? v).map shape
  | "data_type" => (DataType.ofJson? v).map dataType
  | "device" => (Device.ofJson? v).map device
  | _ => none

/-- A stored value.  In an array the type is just its name.  In an object it is a choice, and a
value that comes before its type is put by until then. -/
def ofJson? (v : Value) : Option ParamValue :=
  match v, v.fields? ["type", "value"] with
  | .array _, some [some type, some content] =>
    type.asText?.bind fun name => ofContent? name content
  | .object members, some [some type, some content] =>
    type.plainChoice?.bind fun name =>
      ofContent? name (if Value.hasBefore "value" "type" members then content.putBy else content)
  | _, _ => none

end ParamValue

namespace Params

def entryOfJson? : Value → Option (String × ParamValue)
  | .array [name, value] => do return (← name.asText?, ← ParamValue.ofJson? value)
  | _ => none

def toJson (ps : Params) : Value :=
  .ofMembers [("entries", .array (ps.map fun (name, p) => .array [.ofText name, p.toJson]))]

def ofJson? (v : Value) : Option Params :=
  match v.fields? ["entries"] with
  | some [some entries] => entries.asList? entryOfJson?
  | _ => none

end Params

end ArrayLifetimes
