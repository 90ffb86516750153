/-
JSON documents as values.

A number keeps apart what a reader of integers must tell apart: a natural word, a
negative word, anything else that a floating point number can hold, and what none can
hold.  A text is missing when its escapes do not all stand for characters: such a text
may be skipped, but not used.
-/
import ArrayLifetimes.Number.Binary

namespace ArrayLifetimes

namespace Json

inductive Value where
  | null
  | bool (b : Bool)
  | natural (n : Nat)
  | negative (n : Int)
  | real (x : Binary64)
  | unrepresentable
  | text (s : Option String)
  | array (items : List Value)
  | object (members : List (Option String × Value))
  deriving Repr, Inhabited

/-- A usable text. -/
def Value.ofText (s : String) : Value := .text (some s)

/-- An object whose keys are all usable. -/
def Value.ofMembers (members : List (String × Value)) : Value :=
  .object (members.map fun (k, v) => (some k, v))

/-- An integer, within the words. -/
def Value.ofInt (n : Int) : Value := if n < 0 then .negative n else .natural n.toNat

end Json

end ArrayLifetimes
