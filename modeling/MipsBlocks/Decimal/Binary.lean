/-!
# Binary floating-point values

`Binary64` holds the values of the 64-bit binary format as an integer times a power of two.
`Binary64.ofRatio` is the value nearest to a quotient, with ties going to the even one, and
`Binary64.ofDecimal` the one nearest to a decimal number. All arithmetic is exact.
-/

set_option autoImplicit false
set_option relaxedAutoImplicit false

namespace MipsBlocks

/-- The number `m * base ^ e`, or `m` for a negative exponent. -/
def timesPow (m base : Nat) (e : Int) : Nat := m * base.pow e.toNat

inductive Binary64 where
  | nan
  | infinite (negative : Bool)
  /-- The value `m * 2 ^ q` with a sign. -/
  | finite (negative : Bool) (m : Nat) (q : Int)
  deriving DecidableEq

namespace Binary64

/-- The number of binary digits of `m`. -/
def precision : Nat := 53

/-- The least exponent `q`. -/
def minExponent : Int := -1074

/-- The largest exponent `q`. -/
def maxExponent : Int := 971

/-- The quotient rounded to the nearest integer, a half to the even neighbour. -/
def roundDiv (num den : Nat) : Nat :=
  let d := num / den
  let r := num % den
  if 2 * r < den then d else if den < 2 * r then d + 1 else d + d % 2

/-- Whether `2 ^ e` is at most the quotient `num / den`. -/
def powerLe (e : Int) (num den : Nat) : Bool :=
  timesPow den 2 e ≤ timesPow num 2 (-e)

/-- The exponent that gives the quotient its full precision, as far as the format has it. -/
def exponentOf (num den : Nat) : Int :=
  let e : Int := num.log2 - den.log2
  let e := if powerLe e num den then e else e - 1
  max (e - (precision - 1)) minExponent

/-- The value nearest to `num / den`, which is not negative. -/
def ofRatio (negative : Bool) (num den : Nat) : Binary64 :=
  let q := exponentOf num den
  let m := roundDiv (timesPow num 2 (-q)) (timesPow den 2 q)
  let (m, q) := if m = 1 <<< precision then (1 <<< (precision - 1), q + 1) else (m, q)
  if maxExponent < q then infinite negative else finite negative m q

/-- Decimal numbers below this power of ten are nearest to zero. -/
def leastDecimal : Int := -325

/-- Decimal numbers from this power of ten on have no finite value near them. -/
def greatestDecimal : Int := 310

/-- The value nearest to `m * 10 ^ e`. -/
def ofDecimal (negative : Bool) (m : Nat) (e : Int) : Binary64 :=
  let size : Int := (Nat.toDigits 10 m).length
  if m = 0 || size + e ≤ leastDecimal then finite negative 0 minExponent
  else if greatestDecimal < size + e then infinite negative
  else ofRatio negative (timesPow m 10 e) (timesPow 1 10 (-e))

end Binary64

end MipsBlocks
