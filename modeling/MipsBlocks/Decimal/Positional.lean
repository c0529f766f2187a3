import MipsBlocks.Decimal.Shortest

/-!
# Positional notation

A binary value is written with the shortest digits that read back, never with an exponent, and
always with at least one digit on each side of the point.
-/

set_option autoImplicit false
set_option relaxedAutoImplicit false

namespace MipsBlocks

namespace Decimal

/-- The digits without the zeros at the end. -/
def dropTrailingZeros (digits : List Char) : List Char :=
  (digits.reverse.dropWhile (· = '0')).reverse

/-- A decimal number in positional notation. -/
def positional (d : Decimal) : List Char :=
  let digits := Nat.toDigits 10 d.digits
  let places := (-d.exponent).toNat
  let padded := List.replicate (places + 1 - digits.length) '0' ++ digits
  let whole := padded.take (padded.length - places) ++ List.replicate d.exponent.toNat '0'
  let fraction := dropTrailingZeros (padded.drop (padded.length - places))
  whole ++ '.' :: (if fraction = [] then ['0'] else fraction)

end Decimal

/-- The text of a binary value. -/
def Binary64.text : Binary64 → String
  | nan => "NaN"
  | infinite negative => if negative then "-inf" else "inf"
  | finite negative m q =>
    let magnitude := if m = 0 then ⟨0, 0⟩ else Decimal.shortest m q
    (if negative then "-" else "") ++ String.ofList magnitude.positional

end MipsBlocks
