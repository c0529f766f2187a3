import MipsBlocks.RegSet

/-!
# Instruction words

An instruction is one 32-bit word. Its fields are read at fixed positions; the integer and the
floating-point names of a field share the position. A word is laid out in one of four formats:
immediate (`iType`), register (`rType`), jump (`jType`) and floating-point (`fType`). The operands
of a format are words of their own, masked to the width of their field (`place`); a field of the
word holds the low bits of its operand.
-/

set_option autoImplicit false
set_option relaxedAutoImplicit false

namespace MipsBlocks

/-- An instruction word. -/
abbrev Word := BitVec 32

/-- The length of an instruction in bytes. -/
def insnWidth : Nat := 4

namespace Word

/-! ### Fields -/

/-- The primary opcode, bits 31 to 26. -/
def primary (w : Word) : BitVec 6 := w.extractLsb' 26 6

def rs (w : Word) : Reg := w.extractLsb' 21 5
def rt (w : Word) : Reg := w.extractLsb' 16 5
def rd (w : Word) : Reg := w.extractLsb' 11 5

/-- The shift amount, bits 10 to 6. -/
def sa (w : Word) : Reg := w.extractLsb' 6 5

/-- The secondary opcode of the register formats, bits 5 to 0. -/
def funct (w : Word) : BitVec 6 := w.extractLsb' 0 6

/-- The immediate operand, bits 15 to 0. -/
def imm (w : Word) : BitVec 16 := w.extractLsb' 0 16

/-- The jump index, bits 25 to 0. -/
def index (w : Word) : BitVec 26 := w.extractLsb' 0 26

/-- The operation of a system instruction, bits 24 to 0. -/
def operation (w : Word) : BitVec 25 := w.extractLsb' 0 25

/-- The format of a floating-point operation. -/
def fmt (w : Word) : Reg := w.rs
def fr (w : Word) : Reg := w.rs
def ft (w : Word) : Reg := w.rt
def fs (w : Word) : Reg := w.rd
def fd (w : Word) : Reg := w.sa

/-! ### Formats -/

/-- The word with an operand in the `width` bits from `first` on. Bits of the operand that the field
has no room for are masked out. -/
def place (first width : Nat) (operand : Word) : Word :=
  (operand &&& BitVec.ofNat 32 ((1 <<< width) - 1)) <<< first

def iType (opcode rs rt : Word) (imm : BitVec 16) : Word :=
  place 26 6 opcode ||| place 21 5 rs ||| place 16 5 rt ||| imm.setWidth 32

/-- The register format. The primary opcode is zero unless `opcode` says otherwise. -/
def rType (rs rt rd sa funct : Word) (opcode : Word := 0#32) : Word :=
  place 26 6 opcode ||| place 21 5 rs ||| place 16 5 rt ||| place 11 5 rd ||| place 6 5 sa |||
    place 0 6 funct

/-- The jump format; of the target only bits 27 to 2 are kept. -/
def jType (opcode : Word) (target : BitVec 64) : Word :=
  place 26 6 opcode ||| place 0 26 ((target >>> 2).setWidth 32)

/-- The format of floating-point arithmetic. -/
def fType (fmt ft fs fd funct : Word) : Word := rType fmt ft fs fd funct 0x11#32

/-! ### Fields of the formats -/

section Place

variable {first width : Nat} {operand : Word}

theorem getLsbD_place (i : Nat) :
    (place first width operand).getLsbD i =
      (decide (i < 32) && decide (first ≤ i) && decide (i - first < width) &&
        operand.getLsbD (i - first)) := by
  have hmask : (BitVec.ofNat 32 ((1 <<< width) - 1)).getLsbD (i - first) =
      (decide (i - first < 32) && decide (i - first < width)) := by
    rw [BitVec.getLsbD_ofNat, Nat.one_shiftLeft, Nat.testBit_two_pow_sub_one]
  rw [place, BitVec.getLsbD_shiftLeft, BitVec.getLsbD_and, hmask, Bool.eq_iff_iff]
  simp only [Bool.and_eq_true, Bool.not_eq_true', decide_eq_true_eq, decide_eq_false_iff_not]
  grind

/-- A field holds the low bits of its operand. -/
theorem extractLsb'_place (h : first + width ≤ 32) :
    (place first width operand).extractLsb' first width = operand.setWidth width := by
  apply BitVec.eq_of_getLsbD_eq
  intro i hi
  have hin : first + i < 32 := by omega
  rw [BitVec.getLsbD_extractLsb', getLsbD_place, BitVec.getLsbD_setWidth, Nat.add_sub_cancel_left]
  simp [hi, hin]

/-- An operand stays out of the fields beside its own. -/
theorem extractLsb'_place_of_disjoint {other size : Nat}
    (h : other + size ≤ first ∨ first + width ≤ other) :
    (place first width operand).extractLsb' other size = BitVec.ofNat size 0 := by
  apply BitVec.eq_of_getLsbD_eq
  intro i hi
  rw [BitVec.getLsbD_extractLsb', getLsbD_place, BitVec.getLsbD_zero, Bool.eq_false_iff]
  simp only [Bool.and_eq_true, decide_eq_true_eq, ne_eq]
  omega

theorem extractLsb'_setWidth_of_le {other size : Nat} {imm : BitVec 16} (h : 16 ≤ other) :
    (imm.setWidth 32).extractLsb' other size = BitVec.ofNat size 0 := by
  apply BitVec.eq_of_getLsbD_eq
  intro i hi
  rw [BitVec.getLsbD_extractLsb', BitVec.getLsbD_setWidth,
    BitVec.getLsbD_of_ge imm (other + i) (by omega), BitVec.getLsbD_zero]
  simp

end Place

section Formats

variable (opcode rs rt rd sa funct : Word) (imm : BitVec 16) (target : BitVec 64)

@[simp] theorem primary_iType : (iType opcode rs rt imm).primary = opcode.setWidth 6 := by
  simp (disch := decide) only [iType, primary, BitVec.extractLsb'_or, extractLsb'_place,
    extractLsb'_place_of_disjoint, extractLsb'_setWidth_of_le, BitVec.or_zero]

@[simp] theorem rs_iType : (iType opcode rs rt imm).rs = Reg.ofWord rs := by
  simp (disch := decide) only [iType, Word.rs, BitVec.extractLsb'_or, extractLsb'_place,
    extractLsb'_place_of_disjoint, extractLsb'_setWidth_of_le, BitVec.zero_or, BitVec.or_zero,
    Reg.ofWord]

@[simp] theorem rt_iType : (iType opcode rs rt imm).rt = Reg.ofWord rt := by
  simp (disch := decide) only [iType, Word.rt, BitVec.extractLsb'_or, extractLsb'_place,
    extractLsb'_place_of_disjoint, extractLsb'_setWidth_of_le, BitVec.zero_or, BitVec.or_zero,
    Reg.ofWord]

@[simp] theorem imm_iType : (iType opcode rs rt imm).imm = imm := by
  have himm : (imm.setWidth 32).extractLsb' 0 16 = imm := by
    rw [← BitVec.setWidth_eq_extractLsb' (by decide),
      BitVec.setWidth_setWidth_of_le imm (by decide), BitVec.setWidth_eq]
  simp (disch := decide) only [iType, Word.imm, BitVec.extractLsb'_or,
    extractLsb'_place_of_disjoint, himm, BitVec.zero_or]

@[simp] theorem primary_rType : (rType rs rt rd sa funct opcode).primary = opcode.setWidth 6 := by
  simp (disch := decide) only [rType, primary, BitVec.extractLsb'_or, extractLsb'_place,
    extractLsb'_place_of_disjoint, BitVec.or_zero]

@[simp] theorem rs_rType : (rType rs rt rd sa funct opcode).rs = Reg.ofWord rs := by
  simp (disch := decide) only [rType, Word.rs, BitVec.extractLsb'_or, extractLsb'_place,
    extractLsb'_place_of_disjoint, BitVec.zero_or, BitVec.or_zero, Reg.ofWord]

@[simp] theorem rt_rType : (rType rs rt rd sa funct opcode).rt = Reg.ofWord rt := by
  simp (disch := decide) only [rType, Word.rt, BitVec.extractLsb'_or, extractLsb'_place,
    extractLsb'_place_of_disjoint, BitVec.zero_or, BitVec.or_zero, Reg.ofWord]

@[simp] theorem rd_rType : (rType rs rt rd sa funct opcode).rd = Reg.ofWord rd := by
  simp (disch := decide) only [rType, Word.rd, BitVec.extractLsb'_or, extractLsb'_place,
    extractLsb'_place_of_disjoint, BitVec.zero_or, BitVec.or_zero, Reg.ofWord]

@[simp] theorem sa_rType : (rType rs rt rd sa funct opcode).sa = Reg.ofWord sa := by
  simp (disch := decide) only [rType, Word.sa, BitVec.extractLsb'_or, extractLsb'_place,
    extractLsb'_place_of_disjoint, BitVec.zero_or, BitVec.or_zero, Reg.ofWord]

@[simp] theorem funct_rType : (rType rs rt rd sa funct opcode).funct = funct.setWidth 6 := by
  simp (disch := decide) only [rType, Word.funct, BitVec.extractLsb'_or, extractLsb'_place,
    extractLsb'_place_of_disjoint, BitVec.zero_or]

@[simp] theorem primary_jType : (jType opcode target).primary = opcode.setWidth 6 := by
  simp (disch := decide) only [jType, primary, BitVec.extractLsb'_or, extractLsb'_place,
    extractLsb'_place_of_disjoint, BitVec.or_zero]

@[simp] theorem index_jType : (jType opcode target).index = target.extractLsb' 2 26 := by
  simp (disch := decide) only [jType, index, BitVec.extractLsb'_or, extractLsb'_place,
    extractLsb'_place_of_disjoint, BitVec.zero_or, BitVec.setWidth_setWidth_of_le]
  rfl

end Formats

end Word

/-- The formats of floating-point arithmetic. -/
inductive FpuFormat where
  | single
  | double
  | word
  | long
  deriving DecidableEq

namespace FpuFormat

def all : List FpuFormat := [single, double, word, long]

/-- The value of the format field. -/
def code : FpuFormat → Reg
  | single => 0x10#5
  | double => 0x11#5
  | word => 0x14#5
  | long => 0x15#5

/-- The operand that gives the format to the assembler. -/
def operand (format : FpuFormat) : Word := format.code.setWidth 32

theorem ofWord_operand (format : FpuFormat) : Reg.ofWord format.operand = format.code :=
  Reg.ofWord_setWidth format.code

end FpuFormat

end MipsBlocks
