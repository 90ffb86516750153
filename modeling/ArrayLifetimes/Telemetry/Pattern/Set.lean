/-
Sets in patterns: characters, ranges and other sets in brackets.

Two sets can be joined, cut and subtracted.  An operation takes all that stands before it in
the bracket as its left side.
-/
import ArrayLifetimes.Telemetry.Pattern.Basic

namespace ArrayLifetimes

namespace Pattern

/-- The named sets of ASCII characters. -/
def setNames : List String :=
  ["alnum", "alpha", "ascii", "blank", "cntrl", "digit", "graph", "lower", "print", "punct",
    "space", "upper", "word", "xdigit"]

/-- A named set, read after the bracket that opens it: whether it is negated, and what follows. -/
def readNamed : List Char → Option (Bool × List Char)
  | ':' :: rest =>
    let (negated, rest) := match rest with
      | '^' :: rest => (true, rest)
      | rest => (false, rest)
    let name := rest.takeWhile (· != ':')
    match rest.dropWhile (· != ':') with
    | ':' :: ']' :: after =>
      if setNames.contains (String.ofList name) then some (negated, after) else none
    | _ => none
  | _ => none

/-- A negated set of ASCII characters has characters that are none. -/
def isAllowedNamed (m : Modes) (negated : Bool) : Bool :=
  if m.unicode then !m.ignoreCase else !negated

/-- A set whose bracket is open. -/
structure OpenSet where
  /-- How deep the left side of an operation is, if there was one. -/
  left : Option Nat := none
  /-- How deep the items since then are. -/
  items : List Nat := []
  /-- Nothing but hyphens was read yet. -/
  atStart : Bool := true

namespace OpenSet

def depth (s : OpenSet) : Nat :=
  match s.left with
  | none => depthOf s.items
  | some left => 1 + Nat.max left (depthOf s.items)

/-- Takes an item in. -/
def add (s : OpenSet) (depth : Nat) : OpenSet :=
  { s with items := depth :: s.items, atStart := false }

/-- Makes all that was read the left side of an operation. -/
def operate (s : OpenSet) : OpenSet := { left := some s.depth, atStart := false }

end OpenSet

/-- What follows the caret of a set that is negated, if the set may be. -/
def afterCaret (m : Modes) (cs : List Char) : Option (List Char) :=
  match m.skip cs with
  | '^' :: rest => if m.unicode then some rest else none
  | rest => some rest

/-- A piece of a set. -/
def readSetAtom (m : Modes) : List Char → Option (Atom × List Char)
  | [] => none
  | '\\' :: rest => readEscape m rest
  | c :: rest => some (.char c false, rest)

/-- What follows a piece of a set or a range of characters. -/
def afterRange (m : Modes) (cs : List Char) : Option (List Char) := do
  let (first, rest) ← readSetAtom m cs
  let alone := if first.isAllowedInSet m then some (m.skip rest) else none
  match m.skip rest with
  | '-' :: next =>
    if m.peek next = some ']' || m.peek next = some '-' then alone
    else
      let (last, rest) ← readSetAtom m (m.skip next)
      match first, last with
      | .char a _, .char b _ =>
        if a ≤ b && first.isAllowedInSet m && last.isAllowedInSet m then some rest else none
      | _, _ => none
  | _ => alone

/-- Reads on in the innermost of the open sets.  The answer is how deep the outermost is, and what
follows it. -/
def readSets (m : Modes) : Nat → OpenSet → List OpenSet → List Char → Option (Nat × List Char)
  | 0, _, _, _ => none
  | fuel + 1, s, outer, cs =>
    match m.skip cs with
    | [] => none
    | '-' :: rest =>
      if s.atStart then readSets m fuel { s.add 0 with atStart := true } outer rest
      else if rest.head? = some '-' then readSets m fuel s.operate outer rest.tail
      else do readSets m fuel (s.add 0) outer (← afterRange m ('-' :: rest))
    | ']' :: rest =>
      if s.atStart && s.items.isEmpty then readSets m fuel (s.add 0) outer rest
      else
        match outer with
        | [] => some (1 + s.depth, rest)
        | parent :: others => readSets m fuel (parent.add (1 + s.depth)) others rest
    | '[' :: rest =>
      match readNamed rest with
      | some (negated, after) =>
        if isAllowedNamed m negated then readSets m fuel (s.add 0) outer after else none
      | none => do readSets m fuel {} (s :: outer) (← afterCaret m rest)
    | '&' :: '&' :: rest | '~' :: '~' :: rest => readSets m fuel s.operate outer rest
    | rest => do readSets m fuel (s.add 0) outer (← afterRange m rest)

/-- A set, read after its bracket: how deep it is, and what follows.  Every step takes at least one
character. -/
def readSet (m : Modes) (cs : List Char) : Option (Nat × List Char) := do
  readSets m (cs.length + 1) {} [] (← afterCaret m cs)

end Pattern

end ArrayLifetimes
