import MipsBlocks.Decimal.Binary
import MipsBlocks.Toml.Text

/-!
# Numbers

The tokens of integers and floating-point numbers are recognised by their length at the front of a
text, and their values are those of the tokens without underscores. An underscore stands between two
digits. Integers are those of 64 bits with a sign; a decimal integer has no leading zeros. A number
that would be positive infinity is refused.
-/

set_option autoImplicit false
set_option relaxedAutoImplicit false

namespace MipsBlocks

namespace Toml

/-! ### Tokens -/

/-- The length of a run of digits of a class, with single underscores before further digits. -/
def digitsLength (p : Char → Bool) : List Char → Nat
  | '_' :: c :: rest => if p c then 2 + digitsLength p rest else 0
  | c :: rest => if p c then 1 + digitsLength p rest else 0
  | [] => 0

/-- The length of a run of digits that is not empty. -/
def digitsLength? (p : Char → Bool) : List Char → Option Nat
  | c :: rest => if p c then some (1 + digitsLength p rest) else none
  | [] => none

/-- The length of a sign, if there is one. -/
def signLength : List Char → Nat
  | '+' :: _ | '-' :: _ => 1
  | _ => 0

/-- The length of a decimal integer. -/
def decimalLength? (text : List Char) : Option Nat :=
  let sign := signLength text
  match text.drop sign with
  | '0' :: _ => some (sign + 1)
  | rest => (digitsLength? isDigit rest).map (sign + ·)

/-- The length of a fraction with its point. -/
def fractionLength? : List Char → Option Nat
  | '.' :: rest => (digitsLength? isDigit rest).map (1 + ·)
  | _ => none

/-- The length of an exponent with its mark. -/
def exponentLength? : List Char → Option Nat
  | c :: rest =>
    if c = 'e' || c = 'E' then
      let sign := signLength rest
      (digitsLength? isDigit (rest.drop sign)).map (1 + sign + ·)
    else none
  | [] => none

/-- The lengths of the parts of a floating-point number: the integer, the fraction and the exponent,
one of the last two at least. -/
def floatLengths? (text : List Char) : Option (Nat × Nat × Nat) :=
  (decimalLength? text).bind fun whole ↦
    let rest := text.drop whole
    match fractionLength? rest with
    | some fraction => some (whole, fraction, (exponentLength? (rest.drop fraction)).getD 0)
    | none => (exponentLength? rest).map fun exponent ↦ (whole, 0, exponent)

/-! ### Values -/

/-- The token without underscores. -/
def withoutUnderscores (token : List Char) : List Char := token.filter (· ≠ '_')

/-- The integer that an optional sign and digits write in base ten. -/
def signedOf (token : List Char) : Int :=
  match token with
  | '-' :: digits => -(numberOf 10 digits : Int)
  | '+' :: digits => numberOf 10 digits
  | digits => numberOf 10 digits

/-- An integer in a base other than ten, behind its mark. -/
def baseInteger? (base : Nat) (p : Char → Bool) (c : Cursor) : Option (Int × Cursor) :=
  (digitsLength? p c.rest).bind fun length ↦
    let (token, c) := c.split length
    let n : Int := numberOf base (withoutUnderscores token)
    if fitsInteger n then some (n, c) else none

/-- An integer. -/
def integer? (c : Cursor) : Option (Int × Cursor) :=
  match c.rest with
  | '0' :: 'x' :: _ => baseInteger? 16 isHexDigit (c.drop 2)
  | '0' :: 'o' :: _ => baseInteger? 8 (fun d ↦ '0' ≤ d && d ≤ '7') (c.drop 2)
  | '0' :: 'b' :: _ => baseInteger? 2 (fun d ↦ d = '0' || d = '1') (c.drop 2)
  | _ =>
    (decimalLength? c.rest).bind fun length ↦
      let (token, c) := c.split length
      let n := signedOf (withoutUnderscores token)
      if fitsInteger n then some (n, c) else none

/-- The value of a floating-point number, given by its integer part with its sign, its fraction with
its point and its exponent with its mark. -/
def floatOf (whole fraction exponent : List Char) : Binary64 :=
  let digits := whole.filter isDigit ++ fraction.filter isDigit
  let shift := signedOf (withoutUnderscores (exponent.drop 1))
  .ofDecimal (whole.head? = some '-') (numberOf 10 digits)
    (shift - (fraction.filter isDigit).length)

/-- A floating-point number in digits. -/
def decimalFloat? (c : Cursor) : Option (Binary64 × Cursor) :=
  (floatLengths? c.rest).bind fun (whole, fraction, exponent) ↦
    let (wholePart, c) := c.split whole
    let (fractionPart, c) := c.split fraction
    let (exponentPart, c) := c.split exponent
    let value := floatOf wholePart fractionPart exponentPart
    if value = .infinite false then none else some (value, c)

/-- An infinity or a value that is no number. -/
def namedFloat? (c : Cursor) : Option (Binary64 × Cursor) :=
  let sign := signLength c.rest
  let d := c.drop sign
  match d.expect? ['i', 'n', 'f'] with
  | some e => some (.infinite (c.rest.head? = some '-'), e)
  | none => (d.expect? ['n', 'a', 'n']).map fun e ↦ (.nan, e)

/-- A floating-point number. -/
def float? (c : Cursor) : Option (Binary64 × Cursor) := (decimalFloat? c).or (namedFloat? c)

end Toml

end MipsBlocks
