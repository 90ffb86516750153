/-
TOML documents.

A document is a list of lines: an entry, the header of a table, or the header of one
more table of an array.  Reading gives these lines; `assemble?` then builds the tables
and refuses a document that defines something twice.

A table is *implied* while only keys below it have been named.  An implied table can
get its header later, once.  A table that dotted keys have made is *dotted*: it never
gets a header, and only dotted keys add entries to it.
-/
import ArrayLifetimes.Toml.Scalar

namespace ArrayLifetimes

namespace Toml

/-- A value: what stands behind the equals sign of an entry. -/
inductive Value where
  | scalar (s : Scalar)
  | array (items : List Value)
  | table (members : List (String × Value))
  deriving Repr, Inhabited

/-- Puts an entry into the members of an inline table, below the tables of its dotted key. -/
def insertInline : List String → Value → List (String × Value) → Option (List (String × Value))
  | [], _, _ => none
  | [key], v, members => if (members.lookup key).isSome then none else some (members ++ [(key, v)])
  | key :: path, v, members =>
    match members.lookup key with
    | none => do return members ++ [(key, .table (← insertInline path v []))]
    | some (.table inner) => do
      let inner ← insertInline path v inner
      return members.map fun (k, old) => if k = key then (k, .table inner) else (k, old)
    | some _ => none

mutual

/-- A value at the start of the input, nested at most `depth` deep, and what follows. -/
def readValue (depth : Nat) : Nat → List Char → Option (Value × List Char)
  | 0, _ => none
  | fuel + 1, cs =>
    match cs with
    | '[' :: rest =>
      match depth with
      | 0 => none
      | depth + 1 => do
        let (items, after) ← readItems depth fuel (skipSpace false rest)
        return (.array items, after)
    | '\x7b' :: rest =>
      match depth with
      | 0 => none
      | depth + 1 =>
        match skipBlank rest with
        | '\x7d' :: after => some (.table [], after)
        | start => do
          let (members, after) ← readMembers depth fuel [] start
          return (.table members, after)
    | _ => do
      let (s, after) ← readScalar cs
      return (.scalar s, after)

/-- The items of an array up to its end; a comma may follow the last one. -/
def readItems (depth : Nat) : Nat → List Char → Option (List Value × List Char)
  | 0, _ => none
  | fuel + 1, cs =>
    match cs with
    | ']' :: after => some ([], after)
    | _ => do
      let (item, rest) ← readValue depth fuel cs
      match skipSpace false rest with
      | ']' :: after => return ([item], after)
      | ',' :: next =>
        let (items, after) ← readItems depth fuel (skipSpace false next)
        return (item :: items, after)
      | _ => none

/-- The members of an inline table up to its end, added to those before them. -/
def readMembers (depth : Nat) :
    Nat → List (String × Value) → List Char → Option (List (String × Value) × List Char)
  | 0, _, _ => none
  | fuel + 1, members, cs => do
    let (path, rest) ← readKey depthLimit cs
    let start ← after? '=' rest
    let (v, rest) ← readValue depth fuel (skipBlank start)
    let members ← insertInline path v members
    match skipBlank rest with
    | '\x7d' :: after => return (members, after)
    | ',' :: next => readMembers depth fuel members next
    | _ => none

end

inductive Line where
  | entry (path : List String) (v : Value)
  | header (path : List String)
  | item (path : List String)
  deriving Repr

/-- What follows the end of a line: maybe blanks and a comment, then a break or the end of
the input. -/
def afterLine? (cs : List Char) : Option (List Char) :=
  let rest := match skipBlank cs with
    | '#' :: comment => comment.dropWhile isPlain
    | rest => rest
  if rest.isEmpty then some [] else afterBreak? rest

/-- One line that is neither blank nor a comment. -/
def readLine (cs : List Char) : Option (Line × List Char) := do
  match cs with
  | '[' :: '[' :: rest =>
    let (path, rest) ← readKey depthLimit rest
    return (.item path, ← afterLine? (← after? ']' (← after? ']' rest)))
  | '[' :: rest =>
    let (path, rest) ← readKey depthLimit rest
    return (.header path, ← afterLine? (← after? ']' rest))
  | _ =>
    let (path, rest) ← readKey depthLimit cs
    let start ← after? '=' rest
    let (v, rest) ← readValue depthLimit (start.length + 1) (skipBlank start)
    return (.entry path v, ← afterLine? rest)

/-- All lines of a document. -/
def readLines : Nat → List Char → Option (List Line)
  | 0, _ => none
  | fuel + 1, cs =>
    match skipSpace false cs with
    | [] => some []
    | start => do
      let (line, rest) ← readLine start
      let lines ← readLines fuel rest
      return line :: lines

/-- What a table holds under a key. -/
inductive Node where
  | leaf (v : Value)
  | table (implied dotted : Bool) (members : List (String × Node))
  | tables (items : List (List (String × Node)))
  deriving Inhabited

abbrev Members := List (String × Node)

/-- The members with another node under a key. -/
def put (key : String) (node : Node) (members : Members) : Members :=
  if (members.lookup key).isSome then
    members.map fun (k, old) => if k = key then (k, node) else (k, old)
  else members ++ [(key, node)]

/-- Changes the table at a path; a missing table on the way is made, implied.  The last
table of an array stands for the array. -/
def within (f : Members → Option Members) : List String → Members → Option Members
  | [], members => f members
  | key :: path, members =>
    match members.lookup key with
    | none => do return put key (.table true false (← within f path [])) members
    | some (.table implied dotted inner) => do
      return put key (.table implied dotted (← within f path inner)) members
    | some (.tables items) => do
      let last ← items.getLast?
      return put key (.tables (items.dropLast ++ [← within f path last])) members
    | some (.leaf _) => none

/-- Adds an entry below the tables of its dotted key.  `here` says that the entry may stand in
this very table. -/
def addEntry (v : Value) : List String → Bool → Members → Option Members
  | [], _, _ => none
  | [key], here, members =>
    if !here || (members.lookup key).isSome then none else some (members ++ [(key, .leaf v)])
  | key :: path, _, members =>
    match members.lookup key with
    | none => do return put key (.table true true (← addEntry v path true [])) members
    | some (.table implied dotted inner) =>
      if implied then do
        return put key (.table implied dotted (← addEntry v path dotted inner)) members
      else none
    | some (.tables items) => do
      let last ← items.getLast?
      return put key (.tables (items.dropLast ++ [← addEntry v path false last])) members
    | some (.leaf _) => none

/-- Opens a table by its header. -/
def openTable (key : String) (members : Members) : Option Members :=
  match members.lookup key with
  | none => some (put key (.table false false []) members)
  | some (.table true false inner) => some (put key (.table false false inner) members)
  | some _ => none

/-- Opens one more table of an array. -/
def openItem (key : String) (members : Members) : Option Members :=
  match members.lookup key with
  | none => some (put key (.tables [[]]) members)
  | some (.tables items) => some (put key (.tables (items ++ [[]])) members)
  | some _ => none

/-- The tables after one more line; `current` is the path of the last header. -/
def assemble (state : List String × Members) : Line → Option (List String × Members)
  | .entry path v => do
    return (state.1, ← within (addEntry v path true) state.1 state.2)
  | .header path => do
    let key ← path.getLast?
    return (path, ← within (openTable key) path.dropLast state.2)
  | .item path => do
    let key ← path.getLast?
    return (path, ← within (openItem key) path.dropLast state.2)

/-- The mark that may stand at the start of a text. -/
def byteOrderMark : Char := '\ufeff'

/-- A document as the members of its outermost table. -/
def parse? (s : String) : Option Members := do
  let cs := match s.toList with
    | c :: rest => if c = byteOrderMark then rest else c :: rest
    | [] => []
  let lines ← readLines (cs.length + 1) cs
  let state ← lines.foldlM assemble ([], [])
  return state.2

end Toml

end ArrayLifetimes
