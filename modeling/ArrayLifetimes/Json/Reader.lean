/-
Reading JSON.

The grammar is the standard one: no comments, no comma after the last item, no
control characters in texts.  `parse?` takes a whole document with white space around
it.  The readers of arrays and objects call each other; each call takes at least one
character, so the length of the input bounds how deep they go.
-/
import ArrayLifetimes.Json.Number
import ArrayLifetimes.Text.Hexadecimal

namespace ArrayLifetimes

namespace Json

def isBlank (c : Char) : Bool := c == ' ' || c == '\n' || c == '\t' || c == '\r'

def skipBlank (cs : List Char) : List Char := cs.dropWhile isBlank

def isHighSurrogate (n : Nat) : Bool := 0xd800 ≤ n && n < 0xdc00

def isLowSurrogate (n : Nat) : Bool := 0xdc00 ≤ n && n < 0xe000

/-- The character of a single-letter escape. -/
def shortEscape? : Char → Option Char
  | '"' => some '"'
  | '\\' => some '\\'
  | '/' => some '/'
  | 'b' => some '\x08'
  | 'f' => some '\x0c'
  | 'n' => some '\n'
  | 'r' => some '\r'
  | 't' => some '\t'
  | _ => none

/-- Puts a character, if there is one, before a text that may be missing. -/
def consChar (c : Option Char) (tail : Option (List Char) × List Char) :
    Option (List Char) × List Char :=
  (match c, tail.1 with
    | some c, some cs => some (c :: cs)
    | _, _ => none, tail.2)

/-- The text up to the closing quote, and what follows it.  The text is missing if half
of a surrogate pair stands alone in it. -/
def readText : List Char → Option (Option (List Char) × List Char)
  | [] => none
  | '"' :: rest => some (some [], rest)
  | '\\' :: 'u' :: a :: b :: c :: d :: '\\' :: 'u' :: e :: f :: g :: h :: rest => do
    let first ← Text.hexUnit? a b c d
    let second ← Text.hexUnit? e f g h
    if isHighSurrogate first && isLowSurrogate second then
      let tail ← readText rest
      let code := 0x10000 + 1024 * (first - 0xd800) + (second - 0xdc00)
      return consChar (some (Char.ofNat code)) tail
    else
      let tail ← readText ('\\' :: 'u' :: e :: f :: g :: h :: rest)
      let alone := isHighSurrogate first || isLowSurrogate first
      return consChar (if alone then none else some (Char.ofNat first)) tail
  | '\\' :: 'u' :: a :: b :: c :: d :: rest => do
    let unit ← Text.hexUnit? a b c d
    let tail ← readText rest
    let alone := isHighSurrogate unit || isLowSurrogate unit
    return consChar (if alone then none else some (Char.ofNat unit)) tail
  | '\\' :: c :: rest => do
    let meant ← shortEscape? c
    let tail ← readText rest
    return consChar (some meant) tail
  | c :: rest =>
    if c.toNat < 0x20 then none
    else do
      let tail ← readText rest
      return consChar (some c) tail

/-- The rest of the input after a fixed word. -/
def afterWord? (word : String) (cs : List Char) : Option (List Char) :=
  if word.toList.isPrefixOf cs then some (cs.drop word.length) else none

mutual

/-- A value at the start of the characters, and what follows it. -/
def readValue : Nat → List Char → Option (Value × List Char)
  | 0, _ => none
  | fuel + 1, cs =>
    match cs with
    | '{' :: rest =>
      match skipBlank rest with
      | '}' :: after => some (.object [], after)
      | start => do
        let (members, after) ← readMembers fuel start
        return (.object members, after)
    | '[' :: rest =>
      match skipBlank rest with
      | ']' :: after => some (.array [], after)
      | start => do
        let (items, after) ← readItems fuel start
        return (.array items, after)
    | '"' :: rest => do
      let (s, after) ← readText rest
      return (.text (s.map String.ofList), after)
    | 't' :: _ => do return (.bool true, ← afterWord? "true" cs)
    | 'f' :: _ => do return (.bool false, ← afterWord? "false" cs)
    | 'n' :: _ => do return (.null, ← afterWord? "null" cs)
    | _ => readNumber cs

/-- The items of an array from its first one on, and what follows its end. -/
def readItems : Nat → List Char → Option (List Value × List Char)
  | 0, _ => none
  | fuel + 1, cs => do
    let (item, rest) ← readValue fuel cs
    match skipBlank rest with
    | ']' :: after => return ([item], after)
    | ',' :: next =>
      let (items, after) ← readItems fuel (skipBlank next)
      return (item :: items, after)
    | _ => none

/-- The members of an object from its first one on, and what follows its end. -/
def readMembers : Nat → List Char → Option (List (Option String × Value) × List Char)
  | 0, _ => none
  | fuel + 1, cs =>
    match cs with
    | '"' :: start => do
      let (key, rest) ← readText start
      match skipBlank rest with
      | ':' :: next =>
        let (value, rest) ← readValue fuel (skipBlank next)
        let key := key.map String.ofList
        match skipBlank rest with
        | '}' :: after => return ([(key, value)], after)
        | ',' :: next =>
          let (members, after) ← readMembers fuel (skipBlank next)
          return ((key, value) :: members, after)
        | _ => none
      | _ => none
    | _ => none

end

/-- A whole document. -/
def parse? (s : String) : Option Value :=
  let cs := s.toList
  match readValue (cs.length + 1) (skipBlank cs) with
  | some (v, rest) => if (skipBlank rest).isEmpty then some v else none
  | none => none

end Json

end ArrayLifetimes
