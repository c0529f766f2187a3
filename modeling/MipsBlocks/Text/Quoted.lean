import MipsBlocks.Text.Unprintable

/-!
# Quoted text

A text is shown between double quotes. Backslashes and quotes are escaped, the usual controls have
one-letter escapes, and any other character without a picture of its own is shown by its number.
-/

set_option autoImplicit false
set_option relaxedAutoImplicit false

namespace MipsBlocks

namespace Quoted

/-- A character shown by its number. -/
def numbered (c : Char) : List Char :=
  ['\\', 'u', '\x7b'] ++ Nat.toDigits 16 c.toNat ++ ['\x7d']

/-- How a character is shown. -/
def encodeChar (c : Char) : List Char :=
  match c with
  | '\x00' => ['\\', '0']
  | '\t' => ['\\', 't']
  | '\n' => ['\\', 'n']
  | '\r' => ['\\', 'r']
  | '\\' => ['\\', '\\']
  | '"' => ['\\', '"']
  | _ => if isUnprintable c then numbered c else [c]

/-- A text between double quotes. -/
def encode (text : List Char) : List Char := '"' :: text.flatMap encodeChar ++ ['"']

end Quoted

/-- How a text is shown. -/
def quoted (text : String) : String := String.ofList (Quoted.encode text.toList)

end MipsBlocks
