import MipsBlocks.Address
import MipsBlocks.Flags
import MipsBlocks.Instruction.Basic

/-!
# Effects

`Insn.effect` is the static analysis of one instruction at one address: the registers it reads and
writes, its flags and cost, the literal it carries, and where it can go. A relative branch whose
condition is constant is analysed as unconditional (`branch` below): it ends the sequence, reads
nothing and never skips its delay slot. An encoding that is no instruction has the effect
`Effect.invalid`.
-/

set_option autoImplicit false
set_option relaxedAutoImplicit false

namespace MipsBlocks

/-- What executing an instruction at a known address involves. -/
structure Effect where
  reads : RegSet := ∅
  writes : RegSet := ∅
  flags : Flags := ∅
  cycles : Nat := 1
  /-- Whether the word carries literal operand data. -/
  literal : Bool := false
  /-- The static branch target. -/
  target : Option VirtAddr := none
  delaySlots : Nat := 0
  skipSlots : Nat := 0

namespace Effect

/-- An encoding that is unknown or disabled raises an exception and does nothing else. -/
def invalid : Effect where
  flags := {.invalidOpcode, .willCauseException, .endSequence}

/-- A jump: always taken, and the last of its sequence. -/
def jump (target : Option VirtAddr) : Effect where
  flags := {.unconditionalBranch, .endSequence}
  target := target
  delaySlots := 1

/-- A relative branch to `target`. -/
def branch (cond : Cond) (likely : Bool) (target : VirtAddr) : Effect :=
  let coprocessor : Flags := if cond.needsCoprocessor then {.canCauseException} else ∅
  if cond.isConstant then
    { jump (some target) with flags := {.unconditionalBranch, .endSequence} ∪ coprocessor }
  else
    { reads := cond.reads
      flags := (if likely then {.conditionalBranch, .likelyBranch} else {.conditionalBranch})
        ∪ coprocessor
      target := some target
      delaySlots := 1
      skipSlots := if likely then 1 else 0 }

end Effect

/-- The target of a relative branch: the offset counts instructions from the delay slot. -/
def branchTarget (pc : VirtAddr) (offset : BitVec 16) : VirtAddr :=
  pc + 4#64 + (offset.signExtend 64 <<< 2)

/-- The target of a jump: it stays in the region of 256 MiB that holds the delay slot. -/
def jumpTarget (pc : VirtAddr) (index : BitVec 26) : VirtAddr :=
  ⟨(pc + 4#64).select (~~~0x0fffffff#64) ||| (index.setWidth 64 <<< 2)⟩

namespace HiLoOp

/-- The cost of a multiplication or division. -/
def cycles : HiLoOp → Nat
  | multiply => 3
  | divide => 35
  | multiplyDouble => 7
  | divideDouble => 67

end HiLoOp

/-- The cost of the vendor's multiplications. -/
def multiplyCycles : Nat := 3

/-! ### Registers of the system coprocessor -/

namespace SystemRegister

def count : Reg := 9#5
def status : Reg := 12#5
def cause : Reg := 13#5

/-- Reading a register that depends on the timer costs the cycles to bring the timer up to date. -/
def readCycles (rd : Reg) : Nat := if rd = count ∨ rd = cause then 251 else 1

/-- Writing the status can switch modes, and writing status or cause can unmask an interrupt. -/
def writeFlags (rd : Reg) : Flags :=
  if rd = status then {.canExposeExternalInterrupt, .canChangeModes, .endSequence}
  else if rd = cause then {.canExposeExternalInterrupt}
  else ∅

end SystemRegister

namespace Insn

/-- The effect of an instruction at the address `pc`. -/
def effect (pc : VirtAddr) : Insn → Effect
  | shift rd rt => { reads := {.gpr rt}, writes := {.gpr rd} }
  | alu traps rd rs rt =>
    { reads := {.gpr rs, .gpr rt}, writes := {.gpr rd}
      flags := if traps then {.canCauseException} else ∅ }
  | moveOnFcc rd rs => { reads := {.gpr rs, .gpr rd, .fcc}, writes := {.gpr rd} }
  | moveOnGpr rd rs rt => { reads := {.gpr rs, .gpr rt, .gpr rd}, writes := {.gpr rd} }
  | hiLo op rs rt =>
    { reads := {.gpr rs, .gpr rt}, writes := {.lo, .hi}, cycles := op.cycles }
  | jumpRegister rs => { Effect.jump none with reads := {.gpr rs} }
  | jumpLinkRegister rd rs => { Effect.jump none with reads := {.gpr rs}, writes := {.gpr rd} }
  | moveFromHi rd => { reads := {.hi}, writes := {.gpr rd} }
  | moveToHi rs => { reads := {.gpr rs}, writes := {.hi} }
  | moveFromLo rd => { reads := {.lo}, writes := {.gpr rd} }
  | moveToLo rs => { reads := {.gpr rs}, writes := {.lo} }
  | exception => { flags := {.willCauseException, .endSequence} }
  | sync => {}
  | trap rs rt => { reads := {.gpr rs, .gpr rt}, flags := {.canCauseException} }
  | trapImmediate rs => { reads := {.gpr rs}, flags := {.canCauseException}, literal := true }
  | jump link index =>
    { Effect.jump (some (jumpTarget pc index)) with
      writes := if link then {.gpr Reg.ra} else ∅ }
  | branch cond likely link offset =>
    { Effect.branch cond likely (branchTarget pc offset) with
      writes := if link then {.gpr Reg.ra} else ∅ }
  | aluImmediate traps rt rs =>
    { reads := {.gpr rs}, writes := {.gpr rt}, literal := true
      flags := if traps then {.canCauseException} else ∅ }
  | loadUpper rt => { writes := {.gpr rt}, literal := true }
  | load kind rt base =>
    { reads := match kind with
        | .merging => {.gpr base, .gpr rt}
        | _ => {.gpr base}
      writes := match kind with
        | .whole | .merging => {.gpr rt}
        | .fpu => {.fpr rt}
        | .coprocessor => ∅
      flags := {.readsMemory, .canCauseException}
      literal := true }
  | store kind rt base =>
    { reads := match kind with
        | .whole | .conditional => {.gpr base, .gpr rt}
        | .fpu => {.gpr base, .fpr rt}
        | .coprocessor => {.gpr base}
      writes := match kind with
        | .conditional => {.gpr rt}
        | _ => ∅
      flags := {.writesMemory, .canCauseException}
      literal := true }
  | cache base => { reads := {.gpr base}, flags := {.canCauseException}, literal := true }
  | prefetch base => { reads := {.gpr base}, literal := true }
  | coprocessor2 => { flags := {.willCauseException, .endSequence} }
  | multiplyAdd rs rt =>
    { reads := {.gpr rs, .gpr rt, .lo, .hi}, writes := {.lo, .hi}, cycles := multiplyCycles }
  | multiplyTo rd rs rt =>
    { reads := {.gpr rs, .gpr rt}, writes := {.gpr rd}, cycles := multiplyCycles }
  | moveFromSystem rt rd =>
    { writes := {.gpr rt}, flags := {.canCauseException}
      cycles := SystemRegister.readCycles rd }
  | controlFromSystem rt => { writes := {.gpr rt}, flags := {.canCauseException} }
  | moveToSystem rt rd =>
    { reads := {.gpr rt}, flags := {.canCauseException} ∪ SystemRegister.writeFlags rd }
  | system op =>
    { flags := {.canCauseException} ∪ match op with
        | .probe => ∅
        | .writeTlb => {.modifiesTranslation}
        | .returnFromException => {.canChangeModes, .unconditionalBranch, .endSequence} }
  | moveFromFpu rt fs =>
    { reads := {.fpr fs}, writes := {.gpr rt}, flags := {.canCauseException} }
  | controlFromFpu rt => { reads := {.fcc}, writes := {.gpr rt}, flags := {.canCauseException} }
  | moveToFpu rt fs =>
    { reads := {.gpr rt}, writes := {.fpr fs}, flags := {.canCauseException} }
  | controlToFpu rt => { reads := {.gpr rt}, writes := {.fcc}, flags := {.canCauseException} }
  | fpuBinary fd fs ft =>
    { reads := {.fpr fs, .fpr ft}, writes := {.fpr fd}, flags := {.canCauseException} }
  | fpuUnary fd fs => { reads := {.fpr fs}, writes := {.fpr fd}, flags := {.canCauseException} }
  | fpuMoveOnFcc fd fs =>
    { reads := {.fpr fs, .fpr fd, .fcc}, writes := {.fpr fd}, flags := {.canCauseException} }
  | fpuMoveOnGpr fd fs rt =>
    { reads := {.fpr fs, .fpr fd, .gpr rt}, writes := {.fpr fd}, flags := {.canCauseException} }
  | fpuReciprocal fd fs =>
    { reads := {.fpr fs}, writes := {.fpr fd}, flags := {.canCauseException} }
  | fpuCompare fs ft =>
    { reads := {.fpr fs, .fpr ft}, writes := {.fcc}, flags := {.canCauseException} }
  | fpuLoadIndexed fd base index =>
    { reads := {.gpr base, .gpr index}, writes := {.fpr fd}
      flags := {.canCauseException, .readsMemory} }
  | fpuStoreIndexed fs base index =>
    { reads := {.gpr base, .gpr index, .fpr fs}, flags := {.canCauseException, .writesMemory} }
  | prefetchIndexed => { flags := {.canCauseException} }
  | fpuMultiplyAdd fd fr fs ft =>
    { reads := {.fpr fr, .fpr fs, .fpr ft}, writes := {.fpr fd}, flags := {.canCauseException} }

end Insn

end MipsBlocks
