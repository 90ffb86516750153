/-
Reading patterns: which texts are patterns.

A pattern is read from left to right, with a stack of the groups that are open.  A mode that
is set holds up to the end of the group that it is set in, in later alternatives too.
-/
import ArrayLifetimes.Telemetry.Pattern.Set
import ArrayLifetimes.Text.Numeral

namespace ArrayLifetimes

namespace Pattern

/-- A part of a pattern. -/
structure Part where
  depth : Nat
  /-- Setting a mode cannot be repeated. -/
  isRepeatable : Bool

/-- A group that is open. -/
structure Group where
  modes : Modes
  /-- How deep the alternatives are that have ended. -/
  alternatives : List Nat := []
  /-- The parts of the last alternative, the latest first. -/
  parts : List Part := []

namespace Group

def add (g : Group) (depth : Nat) : Group := { g with parts := ⟨depth, true⟩ :: g.parts }

/-- Ends an alternative. -/
def branch (g : Group) : Group :=
  { g with alternatives := depthOf (g.parts.map Part.depth) :: g.alternatives, parts := [] }

def depth (g : Group) : Nat := depthOf g.branch.alternatives

/-- Repeats the latest part. -/
def repeated (g : Group) : Option Group :=
  match g.parts with
  | ⟨depth, true⟩ :: rest => some { g with parts := ⟨1 + depth, true⟩ :: rest }
  | _ => none

/-- Adds a piece without parts. -/
def atom (g : Group) (a : Atom) : Option Group :=
  if a.isAllowed g.modes then some (g.add 0) else none

end Group

/-- Groups that are open, and the names that groups have. -/
structure Reading where
  current : Group
  outer : List Group := []
  names : List (List Char) := []

namespace Reading

/-- Opens a group. -/
def enter (r : Reading) (modes : Modes) : Reading :=
  { r with current := { modes }, outer := r.current :: r.outer }

/-- Closes a group. -/
def leave (r : Reading) : Option Reading :=
  match r.outer with
  | [] => none
  | g :: outer => some { r with current := g.add (1 + r.current.depth), outer }

end Reading

/-- Whether a group may have a name: a letter or underscore first, digits and a few marks later. -/
def isGroupName : List Char → Bool
  | [] => false
  | c :: rest =>
    (c == '_' || Text.isLetter c) &&
      rest.all fun c => ['_', '.', '[', ']'].contains c || Text.isAlphanumeric c

/-- The name of a group, and what follows its end. -/
def readGroupName (cs : List Char) : Option (List Char × List Char) :=
  let name := cs.takeWhile (· != '>')
  match cs.dropWhile (· != '>') with
  | _ :: rest => if isGroupName name then some (name, rest) else none
  | [] => none

/-- A list of modes while it is read. -/
structure ModeList where
  modes : Modes
  /-- The letters of modes, and the hyphen after which they are turned off, the latest first. -/
  mentioned : List Char := []

/-- A list of modes with its end, a colon or a parenthesis, and what follows. -/
def readModes (l : ModeList) : List Char → Option (ModeList × Char × List Char)
  | [] => none
  | c :: rest =>
    if c = ':' || c = ')' then if l.mentioned.head? = some '-' then none else some (l, c, rest)
    else if l.mentioned.contains c then none
    else if c = '-' || Modes.letters.contains c then
      readModes ⟨l.modes.set (!l.mentioned.contains '-') c, c :: l.mentioned⟩ rest
    else none

/-- Opens a group, or sets modes, after an opening parenthesis. -/
def openGroup (r : Reading) (cs : List Char) : Option (Reading × List Char) :=
  let m := r.current.modes
  let named (rest : List Char) : Option (Reading × List Char) := do
    let (name, rest) ← readGroupName rest
    if r.names.contains name then none
    else return ({ r.enter m with names := name :: r.names }, rest)
  match m.skip cs with
  | '?' :: 'P' :: '<' :: rest => named rest
  | '?' :: '<' :: rest => named rest
  | '?' :: rest => do
    let (l, last, rest) ← readModes ⟨m, []⟩ rest
    if last = ':' then return (r.enter l.modes, rest)
    else if l.mentioned.isEmpty then none
    else
      let g := r.current
      return ({ r with current := { g with modes := l.modes, parts := ⟨0, false⟩ :: g.parts } },
        rest)
  | rest => some (r.enter m, rest)

/-- What follows the mark of a repetition that takes as little as it can. -/
def afterLazy : List Char → List Char
  | '?' :: rest => rest
  | rest => rest

/-- Reads on in the innermost of the open groups, up to the end.  The answer is how deep the whole
pattern is. -/
def read : Nat → Reading → List Char → Option Nat
  | 0, _, _ => none
  | fuel + 1, r, cs =>
    let g := r.current
    let goOn (next : Option Group) (rest : List Char) : Option Nat := do
      read fuel { r with current := ← next } rest
    match g.modes.skip cs with
    | [] => if r.outer.isEmpty then some g.depth else none
    | c :: rest =>
      match c with
      | '(' => do
        let (r, rest) ← openGroup r rest
        read fuel r rest
      | ')' => do read fuel (← r.leave) rest
      | '|' => goOn (some g.branch) rest
      | '[' => do
        let (depth, rest) ← readSet g.modes rest
        goOn (some (g.add depth)) rest
      | '?' | '*' | '+' => goOn g.repeated (afterLazy rest)
      | '\x7b' => none
      | '.' => goOn (g.atom .any) rest
      | '^' | '$' => goOn (g.atom .textEdge) rest
      | '\\' => do
        let (a, rest) ← readEscape g.modes rest
        goOn (g.atom a) rest
      | c => goOn (g.atom (.char c false)) rest

/-- Whether characters are a pattern.  Every step of reading takes at least one of them.  A brace
that opens would have to be closed, and no field has a closing brace. -/
def isPattern (cs : List Char) : Bool :=
  match read (cs.length + 1) ⟨{ modes := {} }, [], []⟩ cs with
  | some depth => depth ≤ depthLimit
  | none => false

end Pattern

end ArrayLifetimes
