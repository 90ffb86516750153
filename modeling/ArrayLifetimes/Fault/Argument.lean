/-
What can be wrong with an argument.

Managers check some arguments before they turn to the engine, and the engine checks
others.  Each check that can fail is a cause here, with the values that its message
shows.  `other` is a cause that a client words itself.
-/
import ArrayLifetimes.Data.Device
import ArrayLifetimes.Data.Shape
import ArrayLifetimes.Number.Positional

namespace ArrayLifetimes

inductive ArgumentFault where
  | other (reason : String)
  | device (fault : DeviceFault)
  /- Allocation, before the engine is asked. -/
  | elementCount (found : Nat) (shape : Shape)
  | tooLarge (shape : Shape) (dataType : DataType)
  | arangeStep
  | arangeLength (start stop step : Binary64)
  | uniformBounds (low high : Binary64)
  | negativeScale
  | noCategories
  | probability (p : Binary64)
  | probabilityTotal (total : Binary64)
  | csrRank (shape : Shape)
  | csrCount (values columns : Nat)
  | rowShape (data shape : Shape)
  | rowCount (rows indices : Nat)
  /- Fills. -/
  | dataLength (expected : Nat) (dataType : DataType) (shape : Shape) (found : Nat)
  | notMatrix (shape : Shape)
  | categories (count : Nat) (shape : Shape)
  | rowPointerCount (found expected : Nat)
  | csrDataLength (found indices : Nat)
  | rowSparseRank
  | rowDataLength (found expected : Nat)
  | outOfRange (what : String) (index : Int) (bound : Nat)
  /- Named operations. -/
  | missingInput (position : Nat)
  | missingShape
  | reshape (source target : Shape)
  | operandsDiffer (left : Shape) (leftType : DataType) (right : Shape) (rightType : DataType)
  | missingScalar
  | missingParts
  | missingOutput
  | outputMismatch (output : Shape) (outputType : DataType) (result : Shape)
      (resultType : DataType)
  deriving DecidableEq, Repr

namespace ArgumentFault

/-- A shape and a data type, as messages show arrays. -/
def described (shape : Shape) (dataType : DataType) : String := shape.text ++ " " ++ dataType.name

def message : ArgumentFault → String
  | other reason => reason
  | device fault => fault.message
  | elementCount found shape => toString found ++ " elements cannot fill shape " ++ shape.text
  | tooLarge shape dataType =>
    "shape " ++ shape.text ++ " of " ++ dataType.name ++ " is too large to allocate"
  | arangeStep => "arange step must be finite and non-zero"
  | arangeLength start stop step =>
    "arange [" ++ start.text ++ ", " ++ stop.text ++ ") by " ++ step.text ++
      " does not have a representable length"
  | uniformBounds low high =>
    "random_uniform needs low < high, got [" ++ low.text ++ ", " ++ high.text ++ ")"
  | negativeScale => "random_normal scale must be >= 0"
  | noCategories => "random_multinomial needs at least one category"
  | probability p => "probability " ++ p.text ++ " is outside [0, 1]"
  | probabilityTotal total =>
    "probabilities sum to " ++ total.text ++ " before the last category"
  | csrRank shape => "csr arrays are 2-D, got shape " ++ shape.text
  | csrCount values columns =>
    toString values ++ " values but " ++ toString columns ++ " column indices"
  | rowShape data shape =>
    "row data of shape " ++ data.text ++ " does not fit rows of " ++ shape.text
  | rowCount rows indices =>
    toString rows ++ " data rows but " ++ toString indices ++ " row indices"
  | dataLength expected dataType shape found =>
    "expected " ++ toString expected ++ " bytes of " ++ dataType.name ++ " for shape " ++
      shape.text ++ ", got " ++ toString found
  | notMatrix shape => "expected a rank-2 shape, got " ++ shape.text
  | categories count shape => toString count ++ " categories cannot fill shape " ++ shape.text
  | rowPointerCount found expected =>
    "indptr has " ++ toString found ++ " entries, expected " ++ toString expected
  | csrDataLength found indices =>
    "csr data holds " ++ toString found ++ " bytes for " ++ toString indices ++ " indices"
  | rowSparseRank => "row-sparse arrays need rank >= 1"
  | rowDataLength found expected =>
    "row-sparse data holds " ++ toString found ++ " bytes, expected " ++ toString expected
  | outOfRange what index bound =>
    what ++ " " ++ toString index ++ " out of range 0.." ++ toString bound
  | missingInput position => "missing input " ++ toString position
  | missingShape => "reshape needs a 'shape' parameter"
  | reshape source target => "cannot reshape " ++ source.text ++ " into " ++ target.text
  | operandsDiffer left leftType right rightType =>
    "add operands differ: " ++ described left leftType ++ " vs " ++ described right rightType
  | missingScalar => "mul_scalar needs a 'scalar' parameter"
  | missingParts => "split needs 'parts'"
  | missingOutput => "invoke_into needs an output"
  | outputMismatch output outputType result resultType =>
    "output " ++ described output outputType ++ " cannot hold result " ++
      described result resultType

end ArgumentFault

end ArrayLifetimes
