import MipsBlocks.Address
import MipsBlocks.Instruction.Word

/-!
# Sources of instructions

The analysis needs two things of the guest's memory: the physical address of a virtual one, and the
words there. Words come through two channels, because some guests encrypt the operands of their
instructions apart from the operations: the operation channel decides what an instruction is, and
the argument channel is read only for literal operand data.
-/

set_option autoImplicit false
set_option relaxedAutoImplicit false

namespace MipsBlocks

structure Source where
  /-- The physical address, or `none` where a fetch would fault. -/
  translate : AddressSpace → VirtAddr → Option PhysAddr
  fetchOpcode : PhysAddr → Word
  /-- Without encryption both channels hold the same words. -/
  fetchArgument : PhysAddr → Word := fetchOpcode

end MipsBlocks
