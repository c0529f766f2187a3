import MipsBlocks.Toml.Cursor

/-!
# Strings

A string stands between double quotes and has escapes, or between single quotes and has none.
Between three quotes it may have several lines: the first end of line is dropped, every other one
counts as a line feed, and up to two quotes may stand before the closing ones. A backslash at the
end of a line joins it with the text of the next lines.
-/

set_option autoImplicit false
set_option relaxedAutoImplicit false

namespace MipsBlocks

namespace Toml

/-! ### Characters -/

def isHexDigit (c : Char) : Bool :=
  ('0' ≤ c && c ≤ '9') || ('a' ≤ c && c ≤ 'f') || ('A' ≤ c && c ≤ 'F')

/-- The value of a digit of any base up to sixteen. -/
def digitValue (c : Char) : Nat :=
  if c ≤ '9' then c.toNat - '0'.toNat
  else if c ≤ 'F' then c.toNat - 'A'.toNat + 10
  else c.toNat - 'a'.toNat + 10

/-- The number that digits write in a base. -/
def numberOf (base : Nat) (digits : List Char) : Nat :=
  digits.foldl (fun n c ↦ base * n + digitValue c) 0

/-- The character with a number, if there is one. -/
def charOf? (n : Nat) : Option Char :=
  if n.isValidChar then some (Char.ofNat n) else none

/-- A character given by exactly `n` hexadecimal digits. -/
def numbered? (c : Cursor) (n : Nat) : Option (Char × Cursor) :=
  let (digits, c) := c.split n
  if digits.length = n && digits.all isHexDigit then
    (charOf? (numberOf 16 digits)).map fun char ↦ (char, c)
  else none

/-- The character of an escape, behind its backslash. -/
def escape? (c : Cursor) : Option (Char × Cursor) :=
  match c.rest with
  | 'b' :: _ => some ('\x08', c.drop 1)
  | 't' :: _ => some ('\t', c.drop 1)
  | 'n' :: _ => some ('\n', c.drop 1)
  | 'f' :: _ => some ('\x0c', c.drop 1)
  | 'r' :: _ => some ('\r', c.drop 1)
  | '"' :: _ => some ('"', c.drop 1)
  | '\\' :: _ => some ('\\', c.drop 1)
  | 'u' :: _ => numbered? (c.drop 1) 4
  | 'U' :: _ => numbered? (c.drop 1) 8
  | _ => none

/-! ### One line -/

/-- The rest of a string on one line with escapes, after the characters `done` in reverse order. -/
def basic? : Nat → List Char → Cursor → Option (List Char × Cursor)
  | 0, _, _ => none
  | fuel + 1, done, c =>
    match c.rest with
    | '"' :: _ => some (done.reverse, c.drop 1)
    | '\\' :: _ => (escape? (c.drop 1)).bind fun (char, c) ↦ basic? fuel (char :: done) c
    | char :: _ => if isTextChar char then basic? fuel (char :: done) (c.drop 1) else none
    | [] => none

/-- The rest of a string on one line without escapes. -/
def literal? (c : Cursor) : Option (List Char × Cursor) :=
  let (text, c) := c.run fun char ↦ isTextChar char && char ≠ '\''
  (c.expect? ['\'']).map fun c ↦ (text, c)

/-! ### Several lines -/

/-- The cursor behind the rest of a line after a backslash, and the blank lines and blanks that
follow it. -/
def joinLines? (c : Cursor) : Option Cursor :=
  c.skipBlanks.newline?.map blankLines
where
  /-- Skips blanks and ends of lines, of which a carriage return alone is none. -/
  blankLines (c : Cursor) : Cursor := go c.rest.length c
  go : Nat → Cursor → Cursor
    | 0, c => c
    | fuel + 1, c =>
      match c.skipBlanks.newline? with
      | some d => go fuel d
      | none => c.skipBlanks

/-- The rest of a string on several lines between `quote`s, with or without escapes. -/
def multiline? (quote : Char) (escapes : Bool) :
    Nat → List Char → Cursor → Option (List Char × Cursor)
  | 0, _, _ => none
  | fuel + 1, done, c =>
    let again := multiline? quote escapes fuel
    match c.newline? with
    | some c => again ('\n' :: done) c
    | none =>
      match c.rest with
      | [] => none
      | char :: _ =>
        if char = quote then
          let (quotes, c) := c.run (· = quote)
          if quotes.length < 3 then again (quotes ++ done) c
          else if quotes.length < 6 then some ((quotes.drop 3 ++ done).reverse, c)
          else none
        else if char = '\\' && escapes then
          match joinLines? (c.drop 1) with
          | some c => again done c
          | none => (escape? (c.drop 1)).bind fun (char, c) ↦ again (char :: done) c
        else if isTextChar char then again (char :: done) (c.drop 1)
        else none

/-- The cursor behind the end of line that directly follows the opening quotes. -/
def dropFirstNewline (c : Cursor) : Cursor := c.newline?.getD c

/-! ### Strings -/

/-- A string on one line. -/
def lineString? (c : Cursor) : Option (List Char × Cursor) :=
  match c.rest with
  | '"' :: rest => basic? (rest.length + 1) [] (c.drop 1)
  | '\'' :: _ => literal? (c.drop 1)
  | _ => none

/-- A string of any form. -/
def string? (c : Cursor) : Option (List Char × Cursor) :=
  match c.rest with
  | '"' :: '"' :: '"' :: rest =>
    multiline? '"' true (rest.length + 1) [] (dropFirstNewline (c.drop 3))
  | '\'' :: '\'' :: '\'' :: rest =>
    multiline? '\'' false (rest.length + 1) [] (dropFirstNewline (c.drop 3))
  | _ => lineString? c

end Toml

end MipsBlocks
