/-
Patterns: what they are made of.

A pattern is a regular expression.  No tables of characters are at hand when it is read.  So
a pattern that goes by Unicode may not ask for letters, digits or words, nor for letters of
either case.  A pattern may turn to ASCII instead, but then it has to match whole
characters still.
-/
import ArrayLifetimes.Text.Blank
import ArrayLifetimes.Text.Hexadecimal

namespace ArrayLifetimes

namespace Pattern

/-- The modes in which a part of a pattern is read. -/
structure Modes where
  ignoreCase : Bool := false
  unicode : Bool := true
  /-- White space and comments do not count. -/
  verbose : Bool := false
  deriving DecidableEq, Repr

namespace Modes

/-- The letters of all modes.  Those without a field make no difference to what is allowed. -/
def letters : List Char := ['i', 'm', 's', 'U', 'u', 'R', 'x']

/-- Turns a mode on or off by its letter. -/
def set (m : Modes) (on : Bool) : Char → Modes
  | 'i' => { m with ignoreCase := on }
  | 'u' => { m with unicode := on }
  | 'x' => { m with verbose := on }
  | _ => m

end Modes

/-- What follows white space and comments; a comment goes on to the end of its line. -/
def dropComments : Bool → List Char → List Char
  | _, [] => []
  | true, c :: rest => dropComments (c != '\n') rest
  | false, c :: rest =>
    if Text.isBlank c then dropComments false rest
    else if c = '#' then dropComments true rest
    else c :: rest

/-- What follows characters that do not count. -/
def Modes.skip (m : Modes) (cs : List Char) : List Char :=
  if m.verbose then dropComments false cs else cs

/-- The next character that counts.  Of a comment, its own first character is taken. -/
def Modes.peek (m : Modes) (cs : List Char) : Option Char :=
  if m.verbose then
    match Text.trimStart cs with
    | '#' :: rest => (Text.trimStart rest).head?
    | rest => rest.head?
  else cs.head?

/-- A piece of a pattern that has no parts. -/
inductive Atom where
  /-- A character; it may be written as the number of a byte. -/
  | char (c : Char) (asByte : Bool)
  /-- Any character, up to the end of a line or not. -/
  | any
  /-- Digits, white space or word characters, or all but those. -/
  | kind (negated : Bool)
  /-- A place at the start or end of a line or text. -/
  | textEdge
  /-- A place at the start or end of a word. -/
  | wordEdge
  deriving DecidableEq, Repr

namespace Atom

/-- Whether a pattern may have the piece outside of sets. -/
def isAllowed (m : Modes) : Atom → Bool
  | char c asByte => if m.unicode then !m.ignoreCase else !asByte || c.toNat < 0x80
  | any => m.unicode
  | kind negated => !m.unicode && !negated
  | textEdge => true
  | wordEdge => !m.unicode

/-- Whether a set may have the piece. -/
def isAllowedInSet (m : Modes) : Atom → Bool
  | char c _ => if m.unicode then !m.ignoreCase else c.toNat < 0x80
  | kind negated => !m.unicode && !negated
  | any | textEdge | wordEdge => false

end Atom

/-- The number that a given number of hexadecimal digits goes on with, and what follows them. -/
def readHex (m : Modes) : Nat → Nat → List Char → Option (Nat × List Char)
  | 0, n, cs => some (n, cs)
  | digits + 1, n, cs =>
    match m.skip cs with
    | [] => none
    | c :: rest => do readHex m digits (16 * n + (← Text.hexDigit? c)) rest

/-- The character of a number of hexadecimal digits. -/
def readCodePoint (m : Modes) (digits : Nat) (cs : List Char) : Option (Atom × List Char) := do
  let (n, rest) ← readHex m digits 0 cs
  if n.isValidChar then return (.char (Char.ofNat n) (digits == 2), rest) else none

/-- The character of an escape by a letter. -/
def control? : Char → Option Char
  | 'a' => some '\x07'
  | 'f' => some '\x0c'
  | 'n' => some '\n'
  | 'r' => some '\r'
  | 't' => some '\t'
  | 'v' => some '\x0b'
  | _ => none

/-- Whether a character after a backslash stands for itself. -/
def isEscapable (c : Char) : Bool := c.toNat < 0x80 && !c.isAlphanum

/-- What an escape stands for, read after its backslash. -/
def readEscape (m : Modes) : List Char → Option (Atom × List Char)
  | [] => none
  | 'x' :: rest => readCodePoint m 2 rest
  | 'u' :: rest => readCodePoint m 4 rest
  | 'U' :: rest => readCodePoint m 8 rest
  | c :: rest =>
    if ['d', 's', 'w'].contains c then some (.kind false, rest)
    else if ['D', 'S', 'W'].contains c then some (.kind true, rest)
    else if ['A', 'z'].contains c then some (.textEdge, rest)
    else if ['b', 'B', '<', '>'].contains c then some (.wordEdge, rest)
    else if isEscapable c then some (.char c false, rest)
    else (control? c).map fun meant => (.char meant false, rest)

/-! ### Nesting -/

/-- How deep parts side by side are, from how deep each is.  One part alone adds nothing. -/
def depthOf : List Nat → Nat
  | [] => 0
  | [depth] => depth
  | depth :: rest => 1 + rest.foldl Nat.max depth

/-- How deep a pattern may be. -/
def depthLimit : Nat := 250

end Pattern

end ArrayLifetimes
