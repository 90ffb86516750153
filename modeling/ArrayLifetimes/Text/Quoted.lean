/-
Texts in diagnostics: between quotes, with everything escaped that could not be read back
from a printed page.
-/
import ArrayLifetimes.Text.Hidden

namespace ArrayLifetimes

namespace Text

/-- An escape that names the code point. -/
def codePointEscape (c : Char) : List Char :=
  '\\' :: 'u' :: '\x7b' :: (Nat.toDigits 16 c.toNat ++ ['\x7d'])

/-- A character as it stands between quotes. -/
def diagnosticChar (c : Char) : List Char :=
  match c with
  | '\x00' => ['\\', '0']
  | '\t' => ['\\', 't']
  | '\n' => ['\\', 'n']
  | '\r' => ['\\', 'r']
  | '"' => ['\\', '"']
  | '\\' => ['\\', '\\']
  | c => if isHidden c then codePointEscape c else [c]

/-- A text between quotes. -/
def diagnosticQuoted (s : String) : String :=
  String.ofList ('"' :: (s.toList.flatMap diagnosticChar ++ ['"']))

end Text

end ArrayLifetimes
