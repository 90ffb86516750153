/-
Cutting a text at byte positions.

A character takes up one to four bytes, and a text can be cut only between characters.  A
position inside a character is a fault, which tells what character that is and which
bytes it takes up.
-/
import ArrayLifetimes.Number.Operations
import ArrayLifetimes.Text.Quoted

namespace ArrayLifetimes

namespace Text

/-- The number of bytes that characters take up. -/
def byteLength (cs : List Char) : Nat := (cs.map Char.utf8Size).sum

theorem byteLength_cons (c : Char) (cs : List Char) :
    byteLength (c :: cs) = c.utf8Size + byteLength cs := rfl

theorem byteLength_append (cs ds : List Char) :
    byteLength (cs ++ ds) = byteLength cs + byteLength ds := by
  simp [byteLength]

/-- The characters that begin before a byte position, and those that do not. -/
def splitBytes : Nat → List Char → List Char × List Char
  | _, [] => ([], [])
  | n, c :: rest =>
    if n = 0 then ([], c :: rest)
    else
      let (before, after) := splitBytes (n - c.utf8Size) rest
      (c :: before, after)

/-- Two parts are split where the first one ends. -/
theorem splitBytes_append (cs ds : List Char) :
    splitBytes (byteLength cs) (cs ++ ds) = (cs, ds) := by
  induction cs with
  | nil => cases ds <;> simp [splitBytes, byteLength]
  | cons c cs ih =>
    have := c.utf8Size_pos
    rw [byteLength_cons, List.cons_append, splitBytes, if_neg (by omega),
      Nat.add_sub_cancel_left, ih]

/-- The character that a byte position is inside of, with its first byte.  `first` is where the
characters begin. -/
def around? (position first : Nat) : List Char → Option (Char × Nat)
  | [] => none
  | c :: rest =>
    if position ≤ first then none
    else if position < first + c.utf8Size then some (c, first)
    else around? position (first + c.utf8Size) rest

/-- No character is around the end of a part. -/
theorem around?_append (first : Nat) (cs ds : List Char) :
    around? (first + byteLength cs) first (cs ++ ds) = none := by
  induction cs generalizing first with
  | nil => cases ds <;> simp [around?, byteLength]
  | cons c cs ih =>
    have := c.utf8Size_pos
    rw [byteLength_cons, List.cons_append, around?, if_neg (by omega), if_neg (by omega),
      ← Nat.add_assoc]
    exact ih _

/-- One of the two ends of a cut. -/
inductive CutEnd where
  | start
  | stop
  deriving DecidableEq, Repr

def CutEnd.text : CutEnd → String
  | start => "start"
  | stop => "end"

/-- A cut whose one end is inside a character. -/
structure CutFault where
  side : CutEnd
  position : Nat
  char : Char
  /-- The position of the first byte of the character. -/
  first : Nat
  deriving DecidableEq, Repr

/-- `end byte index 1 is not a char boundary; it is inside 'é' (bytes 0..2 of string)`. -/
def CutFault.message (f : CutFault) : String :=
  String.join [f.side.text, " byte index ", toString f.position,
    " is not a char boundary; it is inside '", String.ofList (diagnosticChar f.char),
    "' (bytes ", toString f.first, "..", toString (f.first + f.char.utf8Size), " of string)"]

/-- The characters from one byte position to another. -/
def cut (cs : List Char) (start stop : Nat) : Except CutFault (List Char) :=
  match around? start 0 cs, around? stop 0 cs with
  | some (c, first), _ => .error ⟨.start, start, c, first⟩
  | none, some (c, first) => .error ⟨.stop, stop, c, first⟩
  | none, none => .ok (splitBytes (stop - start) (splitBytes start cs).2).1

/-- A part can be cut out from where it begins to where it ends. -/
theorem cut_append (before part after : List Char) :
    cut (before ++ part ++ after) (byteLength before) (byteLength (before ++ part)) = .ok part := by
  have hstart := around?_append 0 before (part ++ after)
  have hstop := around?_append 0 (before ++ part) after
  rw [Nat.zero_add, ← List.append_assoc] at hstart
  rw [Nat.zero_add] at hstop
  simp only [cut, hstart, hstop]
  rw [byteLength_append, Nat.add_sub_cancel_left, List.append_assoc, splitBytes_append,
    splitBytes_append]

end Text

end ArrayLifetimes
