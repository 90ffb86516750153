/-
Error codes and the components that raise errors.
-/

namespace ArrayLifetimes

/-- The component that raised an error. -/
inductive ErrorDomain where
  | manager
  | engine
  | config
  deriving DecidableEq, Repr

namespace ErrorDomain

def text : ErrorDomain → String
  | manager => "manager"
  | engine => "engine"
  | config => "config"

/-- The name under which documents store a domain. -/
def stored : ErrorDomain → String
  | manager => "Manager"
  | engine => "Engine"
  | config => "Config"

def ofStored? (s : String) : Option ErrorDomain :=
  [manager, engine, config].find? fun d => d.stored == s

end ErrorDomain

/-- A numeric code as it is shown: with four digits at least. -/
def codeText (code : Nat) : String :=
  let digits := toString code
  String.ofList (List.replicate (4 - digits.length) '0') ++ digits

end ArrayLifetimes
