/-
Identities and the texts in which they stand.

Managers, arrays and release hooks are told apart by identities, numbered in the
order of their creation.  A key or a message may mention an identity.  It is kept as
such, and only turned into text when somebody reads it, by a `Naming`.
-/

namespace ArrayLifetimes

/-- The identity of a manager. -/
structure ManagerId where
  index : Nat
  deriving DecidableEq, Repr, Inhabited

/-- The identity of an array. -/
structure ArrayId where
  index : Nat
  deriving DecidableEq, Repr, Inhabited

/-- The identity of a release hook. -/
structure HookId where
  index : Nat
  deriving DecidableEq, Repr, Inhabited

/-- The identity of a thread. -/
structure ThreadId where
  index : Nat
  deriving DecidableEq, Repr, Inhabited

/-- A text, or an identity that stands for its own text. -/
inductive Label where
  | text (s : String)
  | manager (id : ManagerId)
  | array (id : ArrayId)
  deriving DecidableEq, Repr, Inhabited

/-- Texts and identities, one after the other. -/
abbrev Phrase := List Label

/-- How identities are written. -/
structure Naming where
  manager : ManagerId → String
  array : ArrayId → String

def Label.render (naming : Naming) : Label → String
  | text s => s
  | manager id => naming.manager id
  | array id => naming.array id

def Phrase.render (naming : Naming) (p : Phrase) : String :=
  String.join (p.map (Label.render naming))

/-- A phrase without identities. -/
def Phrase.ofText (s : String) : Phrase := [.text s]

end ArrayLifetimes
