/-!
# Operations without a result

A checked operation on machine words has no result when the exact result does not fit, or when a
shift reaches the width of its operand. `Overflow` says which operation it was and
`Overflow.message` words it.
-/

set_option autoImplicit false
set_option relaxedAutoImplicit false

namespace MipsBlocks

/-- The checked operation that has no result on its operands. -/
inductive Overflow where
  | add
  | subtract
  | shiftLeft
  | shiftRight
  deriving DecidableEq

namespace Overflow

/-- The verb that names the operation. -/
def verb : Overflow → String
  | add => "add"
  | subtract => "subtract"
  | shiftLeft => "shift left"
  | shiftRight => "shift right"

def message (o : Overflow) : String :=
  "attempt to " ++ o.verb ++ " with overflow"

end Overflow

end MipsBlocks
