/-
Texts and keys in TOML.

A text stands between single or triple quotes.  Between double quotes a backslash starts
an escape, between apostrophes nothing is special.  A tripled quote opens a text of
several lines; a line break right after it does not count, a carriage return before any
other one is dropped, one or two quotes may stand before the closing ones, and a backslash
at the end of a line joins it to the next character that is not blank.

Characters below the blank are excluded, the tab apart, and so is the deletion character.
-/
import ArrayLifetimes.Json.Reader

namespace ArrayLifetimes

namespace Toml

def isBlank (c : Char) : Bool := c == ' ' || c == '\t'

def skipBlank (cs : List Char) : List Char := cs.dropWhile isBlank

/-- A character that may stand in a comment or text. -/
def isPlain (c : Char) : Bool := c == '\t' || (0x20 ≤ c.toNat && c.toNat != 0x7f)

/-- What follows a line break, if there is one. -/
def afterBreak? : List Char → Option (List Char)
  | '\n' :: rest => some rest
  | '\r' :: '\n' :: rest => some rest
  | _ => none

/-- The rest of the input after blanks, line breaks and comments are skipped. -/
def skipSpace (inComment : Bool) : List Char → List Char
  | [] => []
  | '\n' :: rest => skipSpace false rest
  | '\r' :: '\n' :: rest => skipSpace false rest
  | c :: rest =>
    if inComment then if isPlain c then skipSpace true rest else c :: rest
    else if isBlank c then skipSpace false rest
    else if c == '#' then skipSpace true rest
    else c :: rest

/-- The character with a number, if the number is not half of a surrogate pair. -/
def scalar? (n : Nat) : Option Char := if n.isValidChar then some (Char.ofNat n) else none

def shortEscape? : Char → Option Char
  | 'b' => some '\x08'
  | 't' => some '\t'
  | 'n' => some '\n'
  | 'f' => some '\x0c'
  | 'r' => some '\r'
  | '"' => some '"'
  | '\\' => some '\\'
  | _ => none

/-- A text being read: its characters so far unknown, and the rest of the input. -/
abbrev Scanned := Option (List Char × List Char)

def Scanned.cons (c : Char) (tail : Scanned) : Scanned := tail.map fun (cs, rest) => (c :: cs, rest)

/-- What a backslash is followed by: an escape. -/
inductive Escape where
  | char (c : Char) (length : Nat)
  | wrong

/-- The escape after a backslash, with the number of characters that it takes. -/
def escape (cs : List Char) : Escape :=
  match cs with
  | 'u' :: a :: b :: c :: d :: _ =>
    match (Text.hexUnit? a b c d).bind scalar? with
    | some c => .char c 5
    | none => .wrong
  | 'U' :: a :: b :: c :: d :: e :: f :: g :: h :: _ =>
    match Text.hexUnit? a b c d, Text.hexUnit? e f g h with
    | some high, some low =>
      match scalar? (65536 * high + low) with
      | some c => .char c 9
      | none => .wrong
    | _, _ => .wrong
  | c :: _ =>
    match shortEscape? c with
    | some c => .char c 1
    | none => .wrong
  | [] => .wrong

/-- A line of text between double quotes, from after the opening one; the first `skip`
characters belong to an escape that is read already. -/
def readBasic (skip : Nat) : List Char → Scanned
  | [] => none
  | c :: rest =>
    match skip with
    | n + 1 => readBasic n rest
    | 0 =>
      if c == '"' then some ([], rest)
      else if c == '\\' then
        match escape rest with
        | .char c length => (readBasic length rest).cons c
        | .wrong => none
      else if isPlain c then (readBasic 0 rest).cons c
      else none

/-- A line of text between apostrophes. -/
def readLiteral : List Char → Scanned
  | [] => none
  | c :: rest =>
    if c == '\'' then some ([], rest)
    else if isPlain c then (readLiteral rest).cons c
    else none

/-- Only blanks stand before the next line break. -/
def endsLine (cs : List Char) : Bool := (afterBreak? (skipBlank cs)).isSome

/-- How many quotes stand at the start, five at most. -/
def quoteRun (quote : Char) (cs : List Char) : Nat := ((cs.take 5).takeWhile (· == quote)).length

/-- The end of a text of several lines at a run of at least three quotes: those before the
last three belong to the text. -/
def closing (quote : Char) (run : Nat) (cs : List Char) : List Char × List Char :=
  (List.replicate (run - 3) quote, cs.drop run)

/-- Lines between tripled double quotes.  `joining` says that blanks and line breaks are
skipped after a backslash at the end of a line. -/
def readBasicLines (skip : Nat) (joining : Bool) : List Char → Scanned
  | [] => none
  | c :: rest =>
    match skip with
    | n + 1 => readBasicLines n joining rest
    | 0 =>
      let run := quoteRun '"' (c :: rest)
      if joining && (isBlank c || c == '\n') then readBasicLines 0 true rest
      else if joining && c == '\r' && rest.head? == some '\n' then readBasicLines 1 true rest
      else if 3 ≤ run then some (closing '"' run (c :: rest))
      else if c == '\\' then
        if endsLine rest then readBasicLines 0 true rest
        else
          match escape rest with
          | .char c length => (readBasicLines length false rest).cons c
          | .wrong => none
      else if c == '\n' then (readBasicLines 0 false rest).cons '\n'
      else if c == '\r' && rest.head? == some '\n' then (readBasicLines 1 false rest).cons '\n'
      else if isPlain c then (readBasicLines 0 false rest).cons c
      else none

/-- Lines between tripled apostrophes. -/
def readLiteralLines : List Char → Scanned
  | [] => none
  | c :: rest =>
    let run := quoteRun '\'' (c :: rest)
    if 3 ≤ run then some (closing '\'' run (c :: rest))
    else if c == '\r' && rest.head? == some '\n' then readLiteralLines rest
    else if c == '\n' || isPlain c then (readLiteralLines rest).cons c
    else none

/-- Without the line break at the start. -/
def dropBreak (cs : List Char) : List Char := (afterBreak? cs).getD cs

/-- A text at the start of the input. -/
def readText : List Char → Scanned
  | '"' :: '"' :: '"' :: rest => readBasicLines 0 false (dropBreak rest)
  | '\'' :: '\'' :: '\'' :: rest => readLiteralLines (dropBreak rest)
  | '"' :: rest => readBasic 0 rest
  | '\'' :: rest => readLiteral rest
  | _ => none

/-- A character of a key without quotes. -/
def isBare (c : Char) : Bool :=
  ('a' ≤ c && c ≤ 'z') || ('A' ≤ c && c ≤ 'Z') || c.isDigit || c == '-' || c == '_'

/-- One part of a key. -/
def readKeyPart (cs : List Char) : Option (String × List Char) :=
  match cs with
  | '"' :: rest => (readBasic 0 rest).map fun (k, after) => (String.ofList k, after)
  | '\'' :: rest => (readLiteral rest).map fun (k, after) => (String.ofList k, after)
  | _ =>
    let bare := cs.takeWhile isBare
    if bare.isEmpty then none else some (String.ofList bare, cs.dropWhile isBare)

/-- How many parts a key may have, and how deep values may be nested. -/
def depthLimit : Nat := 127

/-- The parts of a key with points between them, and blanks around each part. -/
def readKey : Nat → List Char → Option (List String × List Char)
  | 0, _ => none
  | fuel + 1, cs => do
    let (part, rest) ← readKeyPart (skipBlank cs)
    match skipBlank rest with
    | '.' :: next =>
      let (parts, after) ← readKey fuel next
      return (part :: parts, after)
    | after => return ([part], after)

end Toml

end ArrayLifetimes
