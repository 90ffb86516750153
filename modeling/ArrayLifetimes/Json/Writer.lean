/-
Writing JSON.

Two layouts: everything on one line without a blank, or one item on a line with two
blanks for each level.  A text is quoted by escaping quotes, backslashes and control
characters, and nothing else.
-/
import ArrayLifetimes.Json.Value
import ArrayLifetimes.Number.Positional

namespace ArrayLifetimes

namespace Json

/-- A hexadecimal digit, in lower case. -/
def hexChar (n : Nat) : Char := Nat.digitChar (n % 16)

/-- A character as it stands between quotes. -/
def escapedChar (c : Char) : List Char :=
  match c with
  | '"' => ['\\', '"']
  | '\\' => ['\\', '\\']
  | '\n' => ['\\', 'n']
  | '\r' => ['\\', 'r']
  | '\t' => ['\\', 't']
  | '\x08' => ['\\', 'b']
  | '\x0c' => ['\\', 'f']
  | c =>
    if c.toNat < 0x20 then ['\\', 'u', '0', '0', hexChar (c.toNat / 16), hexChar c.toNat]
    else [c]

/-- A text with its quotes. -/
def quoted (s : String) : String :=
  String.ofList ('"' :: (s.toList.flatMap escapedChar ++ ['"']))

/-- The text of a value that is neither an array nor an object. -/
def scalarText : Value → String
  | .bool b => if b then "true" else "false"
  | .natural n => toString n
  | .negative n => toString n
  | .real x => x.jsonText
  | .text (some s) => quoted s
  | _ => "null"

/-- The key of a member. -/
def keyText (key : Option String) : String := quoted (key.getD "")

mutual

/-- On one line. -/
def compact : Value → String
  | .array items => "[" ++ String.intercalate "," (compactItems items) ++ "]"
  | .object members => "\x7b" ++ String.intercalate "," (compactMembers members) ++ "\x7d"
  | v => scalarText v

def compactItems : List Value → List String
  | [] => []
  | v :: rest => compact v :: compactItems rest

def compactMembers : List (Option String × Value) → List String
  | [] => []
  | (k, v) :: rest => (keyText k ++ ":" ++ compact v) :: compactMembers rest

end

/-- A new line at a level. -/
def lineBreak (level : Nat) : String := "\n" ++ String.ofList (List.replicate (2 * level) ' ')

/-- Items on lines of their own between brackets; nothing between them if there is no item. -/
def block (level : Nat) (opening closing : String) (items : List String) : String :=
  if items.isEmpty then opening ++ closing
  else opening ++ lineBreak (level + 1) ++ String.intercalate ("," ++ lineBreak (level + 1)) items ++
    lineBreak level ++ closing

mutual

/-- One item on a line, for a value that starts at a level. -/
def pretty (level : Nat) : Value → String
  | .array items => block level "[" "]" (prettyItems level items)
  | .object members => block level "\x7b" "\x7d" (prettyMembers level members)
  | v => scalarText v

def prettyItems (level : Nat) : List Value → List String
  | [] => []
  | v :: rest => pretty (level + 1) v :: prettyItems level rest

def prettyMembers (level : Nat) : List (Option String × Value) → List String
  | [] => []
  | (k, v) :: rest => (keyText k ++ ": " ++ pretty (level + 1) v) :: prettyMembers level rest

end

end Json

end ArrayLifetimes
