import MipsBlocks.Analysis
import MipsBlocks.Config.Basic

/-!
# Sites

A site is the analysis of one address together with that of its delay slot. A branch in a delay
slot has no slot of its own. The analyses of a block are numbered in the order in which they are
made, a branch before its slot; `Site.order` is the number of the first one of the site.
-/

set_option autoImplicit false
set_option relaxedAutoImplicit false

namespace MipsBlocks

structure Site where
  node : Analysis
  /-- The delay slot of a branch. -/
  slot : Option Analysis := none
  order : Nat := 0
  deriving DecidableEq

namespace Site

/-- The analysis of a delay slot at `pc`. -/
def describeSlot (config : Config) (source : Source) (pc : VirtAddr) : Analysis :=
  (Analysis.describe config.flavor config.addressSpace source pc).flag {.inDelaySlot}

/-- The site at `pc`, as described without regard to the rest of its block. -/
def describe (config : Config) (source : Source) (pc : VirtAddr) (order : Nat) : Site :=
  let node := Analysis.describe config.flavor config.addressSpace source pc
  { node
    slot :=
      if node.isBranch && 0 < node.delaySlots then
        some (describeSlot config source (node.pc + BitVec.ofNat 64 node.length))
      else none
    order }

/-- The addresses that a site describes, in the order in which it does. -/
def pcs (s : Site) : List VirtAddr := s.node.pc :: s.slot.toList.map Analysis.pc

/-- The site with more flags on its first analysis. -/
def flag (s : Site) (flags : Flags) : Site := { s with node := s.node.flag flags }

end Site

end MipsBlocks
