import MipsBlocks.Analysis

/-!
# Descriptors

A descriptor is an analysis with its place in a block: the next descriptor of the chain, the
descriptor of its delay slot, and for a delay slot the branch that owns it. Descriptors refer to
each other by the handles of the pool that holds them.
-/

set_option autoImplicit false
set_option relaxedAutoImplicit false

namespace MipsBlocks

/-- The place of a descriptor in its pool. -/
structure Handle where
  index : Nat
  deriving DecidableEq

structure Descriptor extends Analysis where
  next : Option Handle := none
  delaySlot : Option Handle := none
  /-- The branch that a delay slot belongs to. -/
  owner : Option Handle := none
  deriving DecidableEq

/-- A descriptor without knowledge and without links. -/
def Descriptor.fresh (pc : VirtAddr) : Descriptor where
  toAnalysis := Analysis.fresh pc

end MipsBlocks
