/-
Formats of a log.
-/
import ArrayLifetimes.Text.Blank

namespace ArrayLifetimes

inductive LogFormat where
  | pretty
  | json
  deriving DecidableEq, Repr

namespace LogFormat

def name : LogFormat → String
  | pretty => "Pretty"
  | json => "Json"

/-- Reads a format; letters may have either case.  An unknown one is given back in lower
case. -/
def parse (s : String) : Except String LogFormat :=
  let lowered := String.ofList (Text.lowered s.toList)
  if lowered = "pretty" then .ok pretty
  else if lowered = "json" then .ok json
  else .error lowered

/-- The message for an unknown format. -/
def unknownMessage (lowered : String) : String :=
  "unknown log format '" ++ lowered ++ "', expected 'pretty' or 'json'"

end LogFormat

end ArrayLifetimes
