/-
The element types of native arrays.
-/

namespace ArrayLifetimes

inductive DataType where
  | float32
  | float64
  | int8
  | uint8
  | int32
  | int64
  | boolean
  deriving DecidableEq, Repr, Inhabited

namespace DataType

/-- Every data type, in the order in which tables list them. -/
def all : List DataType := [float32, float64, int8, uint8, int32, int64, boolean]

/-- Bytes that one element takes. -/
def width : DataType → Nat
  | int8 | uint8 | boolean => 1
  | float32 | int32 => 4
  | float64 | int64 => 8

theorem width_pos (t : DataType) : 0 < t.width := by cases t <;> decide

def isFloating : DataType → Bool
  | float32 | float64 => true
  | _ => false

def name : DataType → String
  | float32 => "float32"
  | float64 => "float64"
  | int8 => "int8"
  | uint8 => "uint8"
  | int32 => "int32"
  | int64 => "int64"
  | boolean => "boolean"

def ofName? (s : String) : Option DataType := all.find? fun t => t.name == s

/-- The constructor's own spelling, for diagnostics. -/
def capitalized : DataType → String
  | float32 => "Float32"
  | float64 => "Float64"
  | int8 => "Int8"
  | uint8 => "Uint8"
  | int32 => "Int32"
  | int64 => "Int64"
  | boolean => "Boolean"

end DataType

end ArrayLifetimes
