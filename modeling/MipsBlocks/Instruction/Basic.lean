import MipsBlocks.Flavor
import MipsBlocks.Instruction.Word

/-!
# Instructions

`Insn` is the abstract syntax of the instructions, as far as the analysis tells them apart: two
mnemonics that read and write the same registers and affect control in the same way are one
constructor. A relative branch carries its condition as a `Cond`, whose meaning is `Cond.Holds` on
the values of the registers and of the two condition bits.
-/

set_option autoImplicit false
set_option relaxedAutoImplicit false

namespace MipsBlocks

/-! ### Branch conditions -/

/-- What the condition of a relative branch is about. -/
inductive Cond where
  | eq (rs rt : Reg)
  | ne (rs rt : Reg)
  | lez (rs : Reg)
  | gtz (rs : Reg)
  | ltz (rs : Reg)
  | gez (rs : Reg)
  /-- The condition line of the system coprocessor has the given value. -/
  | system (value : Bool)
  /-- The floating-point condition has the given value. -/
  | fpu (value : Bool)
  deriving DecidableEq

/-- What the conditions of branches can look at. -/
structure Operands where
  /-- The integer registers. -/
  gpr : Reg → BitVec 64
  /-- The condition line of the system coprocessor. -/
  line : Bool
  /-- The floating-point condition. -/
  fcc : Bool
  /-- The first register is hard-wired. -/
  gpr_zero : gpr Reg.zero = 0#64

namespace Cond

/-- When the branch is taken. -/
def Holds (o : Operands) : Cond → Prop
  | eq rs rt => o.gpr rs = o.gpr rt
  | ne rs rt => o.gpr rs ≠ o.gpr rt
  | lez rs => (o.gpr rs).toInt ≤ 0
  | gtz rs => 0 < (o.gpr rs).toInt
  | ltz rs => (o.gpr rs).toInt < 0
  | gez rs => 0 ≤ (o.gpr rs).toInt
  | system value => o.line = value
  | fpu value => o.fcc = value

/-- Whether the operand fields alone show that the condition holds. -/
def isConstant : Cond → Bool
  | eq rs rt => rs = rt
  | lez rs => rs = Reg.zero
  | gez rs => rs = Reg.zero
  | _ => false

/-- The registers that the condition looks at. -/
def reads : Cond → RegSet
  | eq rs rt => {.gpr rs, .gpr rt}
  | ne rs rt => {.gpr rs, .gpr rt}
  | lez rs => {.gpr rs}
  | gtz rs => {.gpr rs}
  | ltz rs => {.gpr rs}
  | gez rs => {.gpr rs}
  | system _ => ∅
  | fpu _ => {.fcc}

/-- Whether evaluating the condition needs a coprocessor, which may be unusable. -/
def needsCoprocessor : Cond → Bool
  | system _ => true
  | fpu _ => true
  | _ => false

end Cond

/-! ### Instructions -/

/-- The operations that leave their result in `hi` and `lo`. -/
inductive HiLoOp where
  | multiply
  | divide
  | multiplyDouble
  | divideDouble
  deriving DecidableEq

/-- How a load treats its register. -/
inductive LoadKind where
  /-- The register is overwritten. -/
  | whole
  /-- The bytes are merged into the register. -/
  | merging
  /-- The register is a floating-point one. -/
  | fpu
  /-- The register belongs to the second coprocessor. -/
  | coprocessor
  deriving DecidableEq

/-- How a store treats its register. -/
inductive StoreKind where
  /-- The register is stored. -/
  | whole
  /-- The register is stored and receives the mark of success. -/
  | conditional
  /-- The register is a floating-point one. -/
  | fpu
  /-- The register belongs to the second coprocessor. -/
  | coprocessor
  deriving DecidableEq

/-- The operations of the system coprocessor without operands. -/
inductive SystemOp where
  /-- Reads the translation buffer or waits for an interrupt. -/
  | probe
  /-- Writes the translation buffer. -/
  | writeTlb
  /-- Returns from an exception. -/
  | returnFromException
  deriving DecidableEq

/-- The instructions that the analysis tells apart. -/
inductive Insn where
  /-- Shifts by a constant amount. -/
  | shift (rd rt : Reg)
  /-- Arithmetic on two registers; it may trap on overflow. -/
  | alu (traps : Bool) (rd rs rt : Reg)
  /-- Moves if the floating-point condition has some value. -/
  | moveOnFcc (rd rs : Reg)
  /-- Moves if an integer register is, or is not, zero. -/
  | moveOnGpr (rd rs rt : Reg)
  | hiLo (op : HiLoOp) (rs rt : Reg)
  | jumpRegister (rs : Reg)
  | jumpLinkRegister (rd rs : Reg)
  | moveFromHi (rd : Reg)
  | moveToHi (rs : Reg)
  | moveFromLo (rd : Reg)
  | moveToLo (rs : Reg)
  /-- System calls and breakpoints. -/
  | exception
  | sync
  /-- Traps if two registers compare in some way. -/
  | trap (rs rt : Reg)
  /-- Traps if a register and a literal compare in some way. -/
  | trapImmediate (rs : Reg)
  | jump (link : Bool) (index : BitVec 26)
  | branch (cond : Cond) (likely link : Bool) (offset : BitVec 16)
  /-- Arithmetic on a register and a literal; it may trap on overflow. -/
  | aluImmediate (traps : Bool) (rt rs : Reg)
  | loadUpper (rt : Reg)
  | load (kind : LoadKind) (rt base : Reg)
  | store (kind : StoreKind) (rt base : Reg)
  | cache (base : Reg)
  | prefetch (base : Reg)
  /-- Any operation of the second coprocessor, which no model has. -/
  | coprocessor2
  /-- Multiplies and adds to `hi` and `lo`. -/
  | multiplyAdd (rs rt : Reg)
  /-- Multiplies into a register. -/
  | multiplyTo (rd rs rt : Reg)
  | moveFromSystem (rt rd : Reg)
  | controlFromSystem (rt : Reg)
  | moveToSystem (rt rd : Reg)
  | system (op : SystemOp)
  | moveFromFpu (rt fs : Reg)
  | controlFromFpu (rt : Reg)
  | moveToFpu (rt fs : Reg)
  | controlToFpu (rt : Reg)
  | fpuBinary (fd fs ft : Reg)
  | fpuUnary (fd fs : Reg)
  | fpuMoveOnFcc (fd fs : Reg)
  | fpuMoveOnGpr (fd fs rt : Reg)
  /-- Reciprocals, also of square roots. -/
  | fpuReciprocal (fd fs : Reg)
  | fpuCompare (fs ft : Reg)
  | fpuLoadIndexed (fd base index : Reg)
  | fpuStoreIndexed (fs base index : Reg)
  | prefetchIndexed
  | fpuMultiplyAdd (fd fr fs ft : Reg)
  deriving DecidableEq

/-- What an instruction asks of the processor. -/
def Insn.requirement : Insn → Requirement
  | moveOnFcc .. | moveOnGpr .. | prefetch .. => .mips4
  | fpuMoveOnFcc .. | fpuMoveOnGpr .. | fpuReciprocal .. => .mips4
  | fpuLoadIndexed .. | fpuStoreIndexed .. | prefetchIndexed | fpuMultiplyAdd .. => .mips4
  | multiplyAdd .. | multiplyTo .. => .idt
  | _ => .base

end MipsBlocks
