import MipsBlocks.Toml.Number

/-!
# Dates and times

A date, a time, or both, with an offset if both are there. Nothing reads their values, so they are
recognised and checked but not kept: the day must be one of its month, and the seconds may be those
of a leap second.
-/

set_option autoImplicit false
set_option relaxedAutoImplicit false

namespace MipsBlocks

namespace Toml

/-- A number of exactly `n` digits between two bounds. -/
def fixedNumber? (n low high : Nat) (c : Cursor) : Option (Nat × Cursor) :=
  let (digits, c) := c.split n
  let value := numberOf 10 digits
  if digits.length = n && digits.all isDigit && low ≤ value && value ≤ high then some (value, c)
  else none

def isLeapYear (year : Nat) : Bool := year % 4 = 0 && (year % 100 ≠ 0 || year % 400 = 0)

/-- The number of days of a month. -/
def daysOf (year month : Nat) : Nat :=
  if month = 2 then if isLeapYear year then 29 else 28
  else if month ∈ [4, 6, 9, 11] then 30
  else 31

/-- The cursor behind a date. -/
def date? (c : Cursor) : Option Cursor := do
  let (year, c) ← fixedNumber? 4 0 9999 c
  let c ← c.expect? ['-']
  let (month, c) ← fixedNumber? 2 1 12 c
  let c ← c.expect? ['-']
  let (_, c) ← fixedNumber? 2 1 (daysOf year month) c
  return c

/-- The cursor behind the fraction of a second, if there is one. -/
def skipSecondFraction (c : Cursor) : Cursor :=
  match c.rest with
  | '.' :: d :: _ => if isDigit d then (c.drop 1).skip isDigit else c
  | _ => c

/-- The cursor behind a time. -/
def time? (c : Cursor) : Option Cursor := do
  let (_, c) ← fixedNumber? 2 0 23 c
  let c ← c.expect? [':']
  let (_, c) ← fixedNumber? 2 0 59 c
  let c ← c.expect? [':']
  let (_, c) ← fixedNumber? 2 0 60 c
  return skipSecondFraction c

/-- The cursor behind an offset of hours and minutes. -/
def offset? (c : Cursor) : Option Cursor :=
  match c.rest with
  | 'Z' :: _ | 'z' :: _ => some (c.drop 1)
  | '+' :: _ | '-' :: _ => do
    let (_, c) ← fixedNumber? 2 0 23 (c.drop 1)
    let c ← c.expect? [':']
    let (_, c) ← fixedNumber? 2 0 59 c
    return c
  | _ => none

/-- The cursor behind a time, with an offset if there is one, that follows a date. -/
def laterTime? (c : Cursor) : Option Cursor :=
  match c.rest with
  | 'T' :: _ | 't' :: _ | ' ' :: _ => (time? (c.drop 1)).map fun c ↦ (offset? c).getD c
  | _ => none

/-- The cursor behind a date, a time or both. -/
def dateTime? (c : Cursor) : Option Cursor :=
  match date? c with
  | some c => some ((laterTime? c).getD c)
  | none => time? c

end Toml

end MipsBlocks
