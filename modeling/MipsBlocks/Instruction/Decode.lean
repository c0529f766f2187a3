import MipsBlocks.Instruction.Basic

/-!
# Reading instruction words

`Insn.ofWord?` reads the instruction that a word encodes on a processor that has everything. The
primary opcode selects the instruction or a group, and a group looks at the one narrower field that
its format defines. Whether a model has the instruction is a separate question
(`Insn.requirement`), asked by `Insn.decode?`.
-/

set_option autoImplicit false
set_option relaxedAutoImplicit false

namespace MipsBlocks

namespace Insn

/-- The group of primary opcode 0, told apart by the secondary opcode. -/
def special? (w : Word) : Option Insn :=
  match w.funct.toNat with
  | 0x00 | 0x02 | 0x03 | 0x38 | 0x3a | 0x3b | 0x3c | 0x3e | 0x3f => some (shift w.rd w.rt)
  | 0x01 => some (moveOnFcc w.rd w.rs)
  | 0x04 | 0x06 | 0x07 | 0x14 | 0x16 | 0x17 => some (alu false w.rd w.rs w.rt)
  | 0x08 => some (jumpRegister w.rs)
  | 0x09 => some (jumpLinkRegister w.rd w.rs)
  | 0x0a | 0x0b => some (moveOnGpr w.rd w.rs w.rt)
  | 0x0c | 0x0d => some exception
  | 0x0f => some sync
  | 0x10 => some (moveFromHi w.rd)
  | 0x11 => some (moveToHi w.rs)
  | 0x12 => some (moveFromLo w.rd)
  | 0x13 => some (moveToLo w.rs)
  | 0x18 | 0x19 => some (hiLo .multiply w.rs w.rt)
  | 0x1a | 0x1b => some (hiLo .divide w.rs w.rt)
  | 0x1c | 0x1d => some (hiLo .multiplyDouble w.rs w.rt)
  | 0x1e | 0x1f => some (hiLo .divideDouble w.rs w.rt)
  | 0x20 | 0x22 | 0x2c | 0x2e => some (alu true w.rd w.rs w.rt)
  | 0x21 | 0x23 | 0x24 | 0x25 | 0x26 | 0x27 => some (alu false w.rd w.rs w.rt)
  | 0x2a | 0x2b | 0x2d | 0x2f => some (alu false w.rd w.rs w.rt)
  | 0x30 | 0x31 | 0x32 | 0x33 | 0x34 | 0x36 => some (trap w.rs w.rt)
  | _ => none

/-- The group of primary opcode 1: branches on the sign of a register, and traps. -/
def signGroup? (w : Word) : Option Insn :=
  match w.rt.toNat with
  | 0x00 => some (branch (.ltz w.rs) false false w.imm)
  | 0x01 => some (branch (.gez w.rs) false false w.imm)
  | 0x02 => some (branch (.ltz w.rs) true false w.imm)
  | 0x03 => some (branch (.gez w.rs) true false w.imm)
  | 0x08 | 0x09 | 0x0a | 0x0b | 0x0c | 0x0e => some (trapImmediate w.rs)
  | 0x10 => some (branch (.ltz w.rs) false true w.imm)
  | 0x11 => some (branch (.gez w.rs) false true w.imm)
  | 0x12 => some (branch (.ltz w.rs) true true w.imm)
  | 0x13 => some (branch (.gez w.rs) true true w.imm)
  | _ => none

/-- The operations of the system coprocessor without operands. -/
def systemOp? (w : Word) : Option SystemOp :=
  match w.operation.toNat with
  | 0x01 | 0x08 | 0x20 => some .probe
  | 0x02 | 0x06 => some .writeTlb
  | 0x18 => some .returnFromException
  | _ => none

/-- The system coprocessor, told apart by the field `rs`. -/
def systemGroup? (w : Word) : Option Insn :=
  match w.rs.toNat with
  | 0x00 | 0x01 => some (moveFromSystem w.rt w.rd)
  | 0x02 => some (controlFromSystem w.rt)
  | 0x04 | 0x05 | 0x06 => some (moveToSystem w.rt w.rd)
  | 0x08 =>
    if w.rt.toNat ≤ 3 then
      some (branch (.system (w.rt.getLsbD 0)) (w.rt.getLsbD 1) false w.imm)
    else none
  | s => if 0x10 ≤ s then (systemOp? w).map system else none

/-- Floating-point arithmetic, told apart by the secondary opcode. -/
def fpuArithmetic? (w : Word) : Option Insn :=
  match w.funct.toNat with
  | 0x00 | 0x01 | 0x02 | 0x03 => some (fpuBinary w.fd w.fs w.ft)
  | 0x04 | 0x05 | 0x06 | 0x07 | 0x08 | 0x09 | 0x0a | 0x0b | 0x0c | 0x0d | 0x0e | 0x0f =>
    some (fpuUnary w.fd w.fs)
  | 0x11 => some (fpuMoveOnFcc w.fd w.fs)
  | 0x12 | 0x13 => some (fpuMoveOnGpr w.fd w.fs w.rt)
  | 0x15 | 0x16 => some (fpuReciprocal w.fd w.fs)
  | 0x20 | 0x21 | 0x24 | 0x25 => some (fpuUnary w.fd w.fs)
  | f => if 0x30 ≤ f then some (fpuCompare w.fs w.ft) else none

/-- The floating-point coprocessor, told apart by the field `rs`. -/
def fpuGroup? (w : Word) : Option Insn :=
  match w.rs.toNat with
  | 0x00 | 0x01 => some (moveFromFpu w.rt w.fs)
  | 0x02 => some (controlFromFpu w.rt)
  | 0x04 | 0x05 => some (moveToFpu w.rt w.fs)
  | 0x06 => some (controlToFpu w.rt)
  | 0x08 =>
    if w.rt.toNat ≤ 3 then
      some (branch (.fpu (w.rt.getLsbD 0)) (w.rt.getLsbD 1) false w.imm)
    else none
  | _ => if w.fmt ∈ FpuFormat.all.map FpuFormat.code then fpuArithmetic? w else none

/-- Indexed memory accesses and multiply-and-add of the floating-point coprocessor. -/
def fpuIndexed? (w : Word) : Option Insn :=
  match w.funct.toNat with
  | 0x00 | 0x01 => some (fpuLoadIndexed w.fd w.rs w.rt)
  | 0x08 | 0x09 => some (fpuStoreIndexed w.fs w.rs w.rt)
  | 0x0f => some prefetchIndexed
  | 0x20 | 0x21 | 0x28 | 0x29 | 0x30 | 0x31 | 0x38 | 0x39 =>
    some (fpuMultiplyAdd w.fd w.fr w.fs w.ft)
  | _ => none

/-- The vendor group of multiply instructions. -/
def vendor? (w : Word) : Option Insn :=
  match w.funct.toNat with
  | 0x00 | 0x01 => some (multiplyAdd w.rs w.rt)
  | 0x02 => some (multiplyTo w.rd w.rs w.rt)
  | _ => none

/-- The instruction that a word encodes. -/
def ofWord? (w : Word) : Option Insn :=
  match w.primary.toNat with
  | 0x00 => special? w
  | 0x01 => signGroup? w
  | 0x02 => some (jump false w.index)
  | 0x03 => some (jump true w.index)
  | 0x04 => some (branch (.eq w.rs w.rt) false false w.imm)
  | 0x05 => some (branch (.ne w.rs w.rt) false false w.imm)
  | 0x06 => some (branch (.lez w.rs) false false w.imm)
  | 0x07 => some (branch (.gtz w.rs) false false w.imm)
  | 0x08 | 0x18 => some (aluImmediate true w.rt w.rs)
  | 0x09 | 0x0a | 0x0b | 0x0c | 0x0d | 0x0e | 0x19 => some (aluImmediate false w.rt w.rs)
  | 0x0f => some (loadUpper w.rt)
  | 0x10 => systemGroup? w
  | 0x11 => fpuGroup? w
  | 0x12 => some coprocessor2
  | 0x13 => fpuIndexed? w
  | 0x14 => some (branch (.eq w.rs w.rt) true false w.imm)
  | 0x15 => some (branch (.ne w.rs w.rt) true false w.imm)
  | 0x16 => some (branch (.lez w.rs) true false w.imm)
  | 0x17 => some (branch (.gtz w.rs) true false w.imm)
  | 0x1a | 0x1b | 0x22 | 0x26 => some (load .merging w.rt w.rs)
  | 0x1c => vendor? w
  | 0x20 | 0x21 | 0x23 | 0x24 | 0x25 | 0x27 | 0x30 | 0x34 | 0x37 => some (load .whole w.rt w.rs)
  | 0x28 | 0x29 | 0x2a | 0x2b | 0x2c | 0x2d | 0x2e | 0x3f => some (store .whole w.rt w.rs)
  | 0x2f => some (cache w.rs)
  | 0x31 | 0x35 => some (load .fpu w.ft w.rs)
  | 0x32 | 0x36 => some (load .coprocessor w.rt w.rs)
  | 0x33 => some (prefetch w.rs)
  | 0x38 | 0x3c => some (store .conditional w.rt w.rs)
  | 0x39 | 0x3d => some (store .fpu w.ft w.rs)
  | 0x3a | 0x3e => some (store .coprocessor w.rt w.rs)
  | _ => none

/-- The instruction that a word encodes on a processor model. -/
def decode? (flavor : Flavor) (w : Word) : Option Insn :=
  (ofWord? w).filter fun insn ↦ flavor.provides insn.requirement

theorem decode?_eq_some_iff {flavor : Flavor} {w : Word} {insn : Insn} :
    decode? flavor w = some insn ↔
      ofWord? w = some insn ∧ flavor.provides insn.requirement = true := by
  rw [decode?, Option.filter_eq_some_iff]

end Insn

end MipsBlocks
