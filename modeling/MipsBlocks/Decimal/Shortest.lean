import MipsBlocks.Decimal.Binary

/-!
# Shortest decimals

`Decimal.shortest` finds the decimal number with the fewest digits that reads back as a given binary
value, the nearest one if there are two. A decimal number reads back as a value if it is no farther
from it than half way to the neighbours; half way itself counts when the value is even
(`readsBack`). Candidates are the two neighbours of the value on the grid of each number of digits.
-/

set_option autoImplicit false
set_option relaxedAutoImplicit false

namespace MipsBlocks

/-- The number `digits * 10 ^ exponent`. -/
structure Decimal where
  digits : Nat
  exponent : Int
  deriving DecidableEq

namespace Decimal

/-- Compares `d` with `n * 2 ^ q`. -/
def compareBinary (d : Decimal) (n : Nat) (q : Int) : Ordering :=
  compare (timesPow (timesPow d.digits 10 d.exponent) 2 (-q))
    (timesPow (timesPow n 2 q) 10 (-d.exponent))

/-- Whether the value below `m * 2 ^ q` is only half as far away as the one above. -/
def isNarrow (m : Nat) (q : Int) : Bool :=
  m = 1 <<< (Binary64.precision - 1) && Binary64.minExponent < q

/-- Whether `d` reads back as `m * 2 ^ q`. -/
def readsBack (d : Decimal) (m : Nat) (q : Int) : Bool :=
  let low := if isNarrow m q then 4 * m - 1 else 4 * m - 2
  let aboveLow := d.compareBinary low (q - 2)
  let belowHigh := d.compareBinary (4 * m + 2) (q - 2)
  (aboveLow = .gt && belowHigh = .lt) ||
    (m % 2 = 0 && aboveLow ≠ .lt && belowHigh ≠ .gt)

/-- The number of decimal digits. -/
def size (n : Nat) : Nat := (Nat.toDigits 10 n).length

/-- The least `k` with `num / den < 10 ^ k`, for a positive quotient. -/
def scale (num den : Nat) : Int :=
  if den ≤ num then size (num / den) else 1 - size ((den - 1) / num)

/-- The grid with `n` digits for a quotient, and the neighbour below the quotient on it. -/
def below (num den n : Nat) : Decimal :=
  let exponent := scale num den - n
  ⟨timesPow num 10 (-exponent) / timesPow den 10 exponent, exponent⟩

/-- Of two neighbours on a grid the one nearer to `num / den`, half way the upper one. -/
def nearer (num den : Nat) (low high : Decimal) : Decimal :=
  let sum := low.digits + high.digits
  if timesPow (2 * num) 10 (-low.exponent) < timesPow (sum * den) 10 low.exponent then low
  else high

/-- The decimal with `n` digits that reads back as `m * 2 ^ q`. -/
def withDigits? (m : Nat) (q : Int) (n : Nat) : Option Decimal :=
  let num := timesPow m 2 q
  let den := timesPow 1 2 (-q)
  let low := below num den n
  let high := { low with digits := low.digits + 1 }
  match low.readsBack m q, high.readsBack m q with
  | true, true => some (nearer num den low high)
  | true, false => some low
  | false, true => some high
  | false, false => none

/-- The exact value. -/
def exact (m : Nat) (q : Int) : Decimal :=
  if 0 ≤ q then ⟨timesPow m 2 q, 0⟩ else ⟨timesPow m 5 (-q), q⟩

/-- As many digits are always enough. -/
def maxDigits : Nat := 17

/-- The shortest decimal that reads back as `m * 2 ^ q`, which is not zero. -/
def shortest (m : Nat) (q : Int) : Decimal :=
  ((List.range maxDigits).findSome? fun n ↦ withDigits? m q (n + 1)).getD (exact m q)

end Decimal

end MipsBlocks
