/-!
# Lines of keys and values

A line `key = value` has a key that needs no quotes and an integer or a string as its value. An
integer is written with its sign and its decimal digits, and a string between double quotes, with
escapes for quotes, backslashes and the characters that cannot stand in a text. `writeLines` is the
text of such lines.
-/

set_option autoImplicit false
set_option relaxedAutoImplicit false

namespace MipsBlocks

namespace Toml

/-- The bytes of a text from `first` on, up to but without `last`. -/
structure Span where
  first : Nat
  last : Nat
  deriving DecidableEq

/-- The range as it is reported. -/
def Span.text (s : Span) : String := "bytes " ++ toString s.first ++ ".." ++ toString s.last

/-! ### Characters -/

def isDigit (c : Char) : Bool := '0' ≤ c && c ≤ '9'

/-- Whether a character can stand in a key without quotes. -/
def isBareKeyChar (c : Char) : Bool :=
  isDigit c || ('a' ≤ c && c ≤ 'z') || ('A' ≤ c && c ≤ 'Z') || c = '-' || c = '_'

/-- Whether a character can stand between quotes without an escape, the quotes apart. -/
def isTextChar (c : Char) : Bool := c = '\t' || (' ' ≤ c && c ≤ '~') || '\x80' ≤ c

/-- The four hexadecimal digits of a number below 256. -/
def hexDigits (n : Nat) : List Char :=
  ['0', '0', Nat.digitChar (n / 16), Nat.digitChar (n % 16)]

/-- A character between the quotes of a string. -/
def escaped (c : Char) : List Char :=
  if c = '"' ∨ c = '\\' then ['\\', c]
  else if isTextChar c then [c]
  else '\\' :: 'u' :: hexDigits c.toNat

/-- A string with its quotes. -/
def quotedChars (text : List Char) : List Char := '"' :: (text.flatMap escaped ++ ['"'])

/-! ### Values -/

/-- Whether an integer has 64 bits with a sign. -/
def fitsInteger (n : Int) : Bool := Int64.minValue.toInt ≤ n && n ≤ Int64.maxValue.toInt

/-- A value that is written on one line. -/
inductive Scalar where
  | integer (n : Int)
  | string (text : String)
  deriving DecidableEq

namespace Scalar

/-- Whether a document can hold a value. -/
def fits : Scalar → Bool
  | integer n => fitsInteger n
  | string _ => true

/-- How a value is written. -/
def chars : Scalar → List Char
  | integer n => (toString n).toList
  | string text => quotedChars text.toList

end Scalar

/-! ### Lines -/

structure Line where
  key : String
  value : Scalar
  deriving DecidableEq

namespace Line

/-- Whether a line can stand in a document. -/
structure Valid (l : Line) : Prop where
  key_ne_nil : l.key.toList ≠ []
  bare : ∀ c ∈ l.key.toList, isBareKeyChar c = true
  fits : l.value.fits = true

/-- How a line is written, without its end. -/
def chars (l : Line) : List Char := l.key.toList ++ ([' ', '=', ' '] ++ l.value.chars)

end Line

/-- The text with the given lines; `ended` says whether the last one has an end. -/
def writeLines (ended : Bool) : List Line → List Char
  | [] => []
  | [l] => l.chars ++ if ended then ['\n'] else []
  | l :: lines => l.chars ++ '\n' :: writeLines ended lines

end Toml

end MipsBlocks
