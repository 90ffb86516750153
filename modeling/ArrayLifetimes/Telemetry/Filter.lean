/-
Filters: which events a log shows.

A filter is a list of directives between commas.  A directive is a level, or a target that
may have a level after an equals sign; between the two there may be a span in brackets,
with a field in braces.  A directive that is empty is skipped.

A level alone asks for events of the managers at that level, and for warnings of
everything else.

The parts of a directive are looked for without the white space around it, but their
positions are taken from its very start.  So white space before a directive shifts its
parts, and may even cut a character in two.
-/
import ArrayLifetimes.Telemetry.Pattern.Reader
import ArrayLifetimes.Text.Cut

namespace ArrayLifetimes

namespace Filter

/-- Why a filter cannot be made. -/
inductive Refusal where
  | malformed
  | miscut (f : Text.CutFault)
  deriving DecidableEq, Repr

abbrev Checked := Except Refusal

def require (b : Bool) : Checked Unit := if b then .ok () else .error .malformed

/-- The characters of a directive from one byte to another. -/
def part (directive : List Char) (start stop : Nat) : Checked (List Char) :=
  (Text.cut directive start stop).mapError .miscut

/-! ### Levels -/

/-- The names of levels. -/
def levelNames : List String := ["trace", "debug", "info", "warn", "error", "off"]

/-- A level by its number: at most 5, with a plus sign or without. -/
def isLevelNumber (cs : List Char) : Bool :=
  let digits := if cs.head? = some '+' then cs.tail else cs
  !digits.isEmpty && digits.all Char.isDigit &&
    decide (digits.foldl (fun n c => 10 * n + (c.toNat - '0'.toNat)) 0 ≤ 5)

/-- A level, by its name in letters of either case or by its number. -/
def isLevel (cs : List Char) : Bool :=
  levelNames.contains (String.ofList (Text.lowered cs)) || isLevelNumber cs

/-- Whether what stands after an equals sign will do. -/
def isLevelOrEmpty (cs : List Char) : Bool := cs.isEmpty || isLevel cs

/-! ### Fields -/

/-- What follows a sign, if there is one. -/
def afterSign : List Char → List Char
  | '+' :: rest | '-' :: rest => rest
  | rest => rest

def isDigits (cs : List Char) : Bool := !cs.isEmpty && cs.all Char.isDigit

/-- An exponent, if there is anything. -/
def isExponentOrEmpty : List Char → Bool
  | [] => true
  | c :: rest => (c == 'e' || c == 'E') && isDigits (afterSign rest)

/-- Digits, with a point among them or without, and perhaps an exponent. -/
def isDecimal (cs : List Char) : Bool :=
  let whole := cs.takeWhile Char.isDigit
  match cs.dropWhile Char.isDigit with
  | '.' :: rest =>
    !(whole ++ rest.takeWhile Char.isDigit).isEmpty &&
      isExponentOrEmpty (rest.dropWhile Char.isDigit)
  | rest => !whole.isEmpty && isExponentOrEmpty rest

/-- A number, infinity and what is not a number included. -/
def isNumber (cs : List Char) : Bool :=
  let cs := afterSign cs
  ["inf", "infinity", "nan"].contains (String.ofList (Text.lowered cs)) || isDecimal cs

/-- Whether a field will do: a name, with a number or pattern after an equals sign or without.  What
follows a second equals sign is left out. -/
def isField (cs : List Char) : Bool :=
  !cs.isEmpty &&
    match cs.dropWhile (· != '=') with
    | [] => true
    | _ :: rest =>
      let value := rest.takeWhile (· != '=')
      isNumber value || Pattern.isPattern value

/-! ### Directives -/

/-- Where a reader of a directive is, with the byte at which its part begins. -/
inductive Place where
  /-- In a level or target. -/
  | target
  /-- In what follows an equals sign. -/
  | level (start : Nat)
  /-- In a span, before its field. -/
  | span (start : Nat)
  | field (start : Nat)
  /-- After the field of a span. -/
  | fields
  /-- After a span. -/
  | afterSpan
  deriving DecidableEq, Repr

/-- Whether a character can start a target. -/
def startsTarget (c : Char) : Bool := c = '-' || c = ':' || c = '_' || Text.isAlphanumeric c

/-- Where a directive begins. -/
def firstPlace (c : Char) : Checked Place :=
  if c = '[' then .ok (.span 1) else do
    require (startsTarget c)
    return .target

/-- Where a reader is after a character.  `position` is the byte at which the character is. -/
def nextPlace (directive : List Char) (position : Nat) (c : Char) : Place → Checked Place
  | .target => do
    if c = '=' then
      let _ ← part directive 0 position
      return .level (position + 1)
    else if c = '[' then
      let _ ← part directive 0 position
      return .span (position + 1)
    else return .target
  | .level start => return .level start
  | .span start => do
    if c = ']' then
      let _ ← part directive start position
      return .afterSpan
    else if c = '\x7b' then
      let _ ← part directive start position
      return .field (position + 1)
    else return .span start
  | .field start => do
    if c = '\x7d' then
      require (isField (← part directive start position))
      return .fields
    else return .field start
  | .fields => do
    require (c == ']')
    return .afterSpan
  | .afterSpan => do
    require (c == '=')
    return .level (position + 1)

/-- Whether a directive may end at a place. -/
def checkEnd (directive : List Char) : Place → Checked Unit
  | .target | .afterSpan => .ok ()
  | .level start => do
    require (isLevelOrEmpty (← part directive start (Text.byteLength directive)))
  | .span _ | .field _ | .fields => .error .malformed

/-- Whether a directive goes on well from a place. -/
def checkFrom (directive : List Char) : Place → Nat → List Char → Checked Unit
  | place, _, [] => checkEnd directive place
  | place, position, c :: rest => do
    checkFrom directive (← nextPlace directive position c place) (position + c.utf8Size) rest

/-- Whether a directive is well formed. -/
def checkDirective (directive : List Char) : Checked Unit :=
  match Text.trim directive with
  | [] => .error .malformed
  | c :: rest => do checkFrom directive (← firstPlace c) c.utf8Size rest

/-- The pieces between commas. -/
def pieces : List Char → List (List Char)
  | [] => [[]]
  | c :: rest =>
    if c = ',' then [] :: pieces rest
    else
      match pieces rest with
      | [] => [[c]]
      | piece :: others => (c :: piece) :: others

/-- Whether all directives of a list are well formed; the first that is not decides. -/
def checkAll : List (List Char) → Checked Unit
  | [] => .ok ()
  | [] :: rest => checkAll rest
  | directive :: rest => do
    checkDirective directive
    checkAll rest

/-- What a log shows that is not told what to show. -/
def standard : String := "warn,managers=info"

/-- The directives for a level, which may be a list of directives itself. -/
def directives (level : Option String) : List Char :=
  match (level.map fun s => Text.trim s.toList).getD [] with
  | [] => standard.toList
  | cs =>
    if cs.contains '=' || cs.contains ',' then cs else "warn,managers=".toList ++ cs

/-- Whether a log can be installed at a level. -/
def check (level : Option String) : Checked Unit := checkAll (pieces (directives level))

end Filter

end ArrayLifetimes
