import MipsBlocks.Proofs.Levels

/-!
# Assembled words read back

What the assembler writes means to the decoder what its operands say. `Assembler.Branch` and
`Assembler.Line` are statements of the assembler with their operands. A register operand is any word
and names the register with its number modulo 32 (`Reg.ofWord`), since the formats mask it. The
decoder finds the instruction of a statement in its word (`Branch.ofWord?_word`,
`Line.ofWord?_word`).

The main statement is `Assembler.agrees_decoded`. A relative branch goes its offset in instructions
away from its delay slot, and a jump reaches its target exactly if that is a word of the region of
the delay slot. For the other statements, on a model that has the instruction, the registers that
are written and read are the operands that the assembler's syntax says (`Line.results`,
`Line.sources`), but for the integer register that always holds zero. A conditional move reads its
destination as well, which keeps its value when nothing is moved (`movz_reads_destination`).
-/

set_option autoImplicit false
set_option relaxedAutoImplicit false

namespace MipsBlocks

/-! ### Targets -/

/-- A relative branch goes its offset in instructions away from its delay slot. -/
theorem toNat_branchTarget (pc : VirtAddr) (offset : BitVec 16) :
    ((branchTarget pc offset).toNat : Int) =
      (pc.toNat + 4 + 4 * offset.toInt) % 0x10000000000000000 := by
  have hfour : (4#64).toNat = 4 := rfl
  have hextend : ((offset.signExtend 64).toNat : Int) = offset.toInt % 0x10000000000000000 := by
    rw [BitVec.signExtend, BitVec.toNat_ofInt]
    omega
  have hshift : (offset.signExtend 64 <<< 2).toNat =
      (offset.signExtend 64).toNat * 4 % 0x10000000000000000 := by
    rw [BitVec.toNat_shiftLeft, Nat.shiftLeft_eq]
  rw [branchTarget, VirtAddr.toNat_add, VirtAddr.toNat_add, hshift, hfour]
  omega

/-- The index of a jump leads to the words of the region that holds the delay slot. -/
theorem jumpTarget_extractLsb'_eq_iff (pc t : VirtAddr) :
    jumpTarget pc (t.bits.extractLsb' 2 26) = t ↔
      t.IsAligned ∧ t.toNat / 0x10000000 = (pc + 4#64).toNat / 0x10000000 := by
  have hindex : (t.bits.extractLsb' 2 26).toNat = t.toNat / 4 % 0x4000000 := by
    rw [BitVec.extractLsb'_toNat, Nat.shiftRight_eq_div_pow]
    rfl
  rw [VirtAddr.IsAligned]
  constructor
  · intro h
    have htarget := congrArg VirtAddr.toNat h
    rw [toNat_jumpTarget, hindex] at htarget
    omega
  · rintro ⟨haligned, hregion⟩
    refine VirtAddr.eq_of_toNat_eq ?_
    rw [toNat_jumpTarget, hindex]
    omega

/-! ### Groups -/

namespace Insn

section Groups

variable {w : Word}

theorem ofWord?_of_special (h : w.primary = 0x00#6) : ofWord? w = special? w := by
  unfold ofWord?
  rw [h]
  rfl

theorem ofWord?_of_sign (h : w.primary = 0x01#6) : ofWord? w = signGroup? w := by
  unfold ofWord?
  rw [h]
  rfl

theorem ofWord?_of_system (h : w.primary = 0x10#6) : ofWord? w = systemGroup? w := by
  unfold ofWord?
  rw [h]
  rfl

theorem ofWord?_of_fpu (h : w.primary = 0x11#6) : ofWord? w = fpuGroup? w := by
  unfold ofWord?
  rw [h]
  rfl

theorem ofWord?_of_fpuIndexed (h : w.primary = 0x13#6) : ofWord? w = fpuIndexed? w := by
  unfold ofWord?
  rw [h]
  rfl

theorem ofWord?_of_vendor (h : w.primary = 0x1c#6) : ofWord? w = vendor? w := by
  unfold ofWord?
  rw [h]
  rfl

/-- Words with a format of floating-point arithmetic. -/
theorem fpuGroup?_of_format {format : FpuFormat} (h : w.rs = format.code) :
    fpuGroup? w = fpuArithmetic? w := by
  have hmem : w.fmt ∈ FpuFormat.all.map FpuFormat.code := by
    rw [Word.fmt, h]
    cases format <;> decide
  unfold fpuGroup?
  rw [if_pos hmem, h]
  cases format <;> rfl

end Groups

end Insn

namespace Assembler

open Reg (ofWord)

/-- The integer register that an operand names. -/
def gpr (operand : Word) : Register := .gpr (ofWord operand)

/-- The floating-point register that an operand names. -/
def fpr (operand : Word) : Register := .fpr (ofWord operand)

/-! ### Relative branches -/

/-- The relative branches that the assembler writes, with their register operands. -/
inductive Branch where
  | beq (rs rt : Word)
  | bne (rs rt : Word)
  | blez (rs : Word)
  | bgtz (rs : Word)
  | beql (rs rt : Word)
  | bnel (rs rt : Word)
  | bltz (rs : Word)
  | bgez (rs : Word)
  | bgezl (rs : Word)
  | bltzal (rs : Word)
  | bgezal (rs : Word)
  | bc1t
  | bc1tl

namespace Branch

def word (offset : BitVec 16) : Branch → Word
  | beq rs rt => Assembler.beq rs rt offset
  | bne rs rt => Assembler.bne rs rt offset
  | blez rs => Assembler.blez rs offset
  | bgtz rs => Assembler.bgtz rs offset
  | beql rs rt => Assembler.beql rs rt offset
  | bnel rs rt => Assembler.bnel rs rt offset
  | bltz rs => Assembler.bltz rs offset
  | bgez rs => Assembler.bgez rs offset
  | bgezl rs => Assembler.bgezl rs offset
  | bltzal rs => Assembler.bltzal rs offset
  | bgezal rs => Assembler.bgezal rs offset
  | bc1t => Assembler.bc1t offset
  | bc1tl => Assembler.bc1tl offset

/-- The instruction that the mnemonic names. -/
def insn (offset : BitVec 16) : Branch → Insn
  | beq rs rt => .branch (.eq (ofWord rs) (ofWord rt)) false false offset
  | bne rs rt => .branch (.ne (ofWord rs) (ofWord rt)) false false offset
  | blez rs => .branch (.lez (ofWord rs)) false false offset
  | bgtz rs => .branch (.gtz (ofWord rs)) false false offset
  | beql rs rt => .branch (.eq (ofWord rs) (ofWord rt)) true false offset
  | bnel rs rt => .branch (.ne (ofWord rs) (ofWord rt)) true false offset
  | bltz rs => .branch (.ltz (ofWord rs)) false false offset
  | bgez rs => .branch (.gez (ofWord rs)) false false offset
  | bgezl rs => .branch (.gez (ofWord rs)) true false offset
  | bltzal rs => .branch (.ltz (ofWord rs)) false true offset
  | bgezal rs => .branch (.gez (ofWord rs)) false true offset
  | bc1t => .branch (.fpu true) false false offset
  | bc1tl => .branch (.fpu true) true false offset

theorem ofWord?_word (b : Branch) (offset : BitVec 16) :
    Insn.ofWord? (b.word offset) = some (b.insn offset) := by
  cases b with
  | beq | bne | blez | bgtz | beql | bnel =>
    simp only [word, Assembler.beq, Assembler.bne, Assembler.blez, Assembler.bgtz, Assembler.beql,
      Assembler.bnel]
    unfold Insn.ofWord?
    rw [Word.primary_iType]
    refine Eq.trans (b := some _) rfl ?_
    simp only [insn, Word.rs_iType, Word.rt_iType, Word.imm_iType]
  | bltz | bgez | bgezl | bltzal | bgezal =>
    simp only [word, Assembler.bltz, Assembler.bgez, Assembler.bgezl, Assembler.bltzal,
      Assembler.bgezal, signType]
    rw [Insn.ofWord?_of_sign (Word.primary_iType ..), Insn.signGroup?, Word.rt_iType]
    refine Eq.trans (b := some _) rfl ?_
    simp only [insn, Word.rs_iType, Word.imm_iType]
  | bc1t | bc1tl =>
    simp only [word, Assembler.bc1t, Assembler.bc1tl]
    rw [Insn.ofWord?_of_fpu (Word.primary_iType ..), Insn.fpuGroup?, Word.rs_iType, Word.rt_iType]
    refine Eq.trans (b := some _) rfl ?_
    simp only [insn, Word.imm_iType]
    rfl

theorem requirement_insn (b : Branch) (offset : BitVec 16) :
    (b.insn offset).requirement = .base := by cases b <;> rfl

theorem target_effect_insn (b : Branch) (offset : BitVec 16) (pc : VirtAddr) :
    ((b.insn offset).effect pc).target = some (branchTarget pc offset) := by
  cases b <;> exact Effect.target_branch ..

end Branch

/-! ### Jumps -/

theorem ofWord?_j (target : BitVec 64) :
    Insn.ofWord? (j target) = some (.jump false (target.extractLsb' 2 26)) := by
  unfold Insn.ofWord?
  rw [j, Word.primary_jType, Word.index_jType]
  rfl

theorem ofWord?_jal (target : BitVec 64) :
    Insn.ofWord? (jal target) = some (.jump true (target.extractLsb' 2 26)) := by
  unfold Insn.ofWord?
  rw [jal, Word.primary_jType, Word.index_jType]
  rfl

/-! ### Operands -/

/-- Statements whose operands are registers, literals left aside; `format` is the format of
floating-point arithmetic. -/
inductive Line where
  | add (rd rs rt : Word)
  | addu (rd rs rt : Word)
  | or (rd rs rt : Word)
  | movz (rd rs rt : Word)
  | sll (rd rt amount : Word)
  | addi (rt rs : Word) (imm : BitVec 16)
  | addiu (rt rs : Word) (imm : BitVec 16)
  | ori (rt rs : Word) (imm : BitVec 16)
  | lui (rt : Word) (imm : BitVec 16)
  | mflo (rd : Word)
  | mfhi (rd : Word)
  | lw (rt base : Word) (offset : BitVec 16)
  | ld (rt base : Word) (offset : BitVec 16)
  | mfc0 (rt rd : Word)
  | jalr (rd rs : Word)
  | mul (rd rs rt : Word)
  | lwc1 (ft base : Word) (offset : BitVec 16)
  | lwxc1 (fd index base : Word)
  | maddS (fd fr fs ft : Word)
  | addFmt (format : FpuFormat) (fd fs ft : Word)
  | recipFmt (format : FpuFormat) (fd fs : Word)
  | mtc1 (rt fs : Word)
  | sc (rt base : Word) (offset : BitVec 16)
  | mult (rs rt : Word)
  | div (rs rt : Word)
  | dmult (rs rt : Word)
  | ddiv (rs rt : Word)
  | mad (rs rt : Word)
  | sw (rt base : Word) (offset : BitVec 16)
  | cEqFmt (format : FpuFormat) (fs ft : Word)
  | teqi (rs : Word) (imm : BitVec 16)
  | jr (rs : Word)

namespace Line

def word : Line → Word
  | add rd rs rt => Assembler.add rd rs rt
  | addu rd rs rt => Assembler.addu rd rs rt
  | or rd rs rt => Assembler.or rd rs rt
  | movz rd rs rt => Assembler.movz rd rs rt
  | sll rd rt amount => Assembler.sll rd rt amount
  | addi rt rs imm => Assembler.addi rt rs imm
  | addiu rt rs imm => Assembler.addiu rt rs imm
  | ori rt rs imm => Assembler.ori rt rs imm
  | lui rt imm => Assembler.lui rt imm
  | mflo rd => Assembler.mflo rd
  | mfhi rd => Assembler.mfhi rd
  | lw rt base offset => Assembler.lw rt base offset
  | ld rt base offset => Assembler.ld rt base offset
  | mfc0 rt rd => Assembler.mfc0 rt rd
  | jalr rd rs => Assembler.jalr rd rs
  | mul rd rs rt => Assembler.mul rd rs rt
  | lwc1 ft base offset => Assembler.lwc1 ft base offset
  | lwxc1 fd index base => Assembler.lwxc1 fd index base
  | maddS fd fr fs ft => Assembler.maddS fd fr fs ft
  | addFmt format fd fs ft => Assembler.addFmt format.operand fd fs ft
  | recipFmt format fd fs => Assembler.recipFmt format.operand fd fs
  | mtc1 rt fs => Assembler.mtc1 rt fs
  | sc rt base offset => Assembler.sc rt base offset
  | mult rs rt => Assembler.mult rs rt
  | div rs rt => Assembler.div rs rt
  | dmult rs rt => Assembler.dmult rs rt
  | ddiv rs rt => Assembler.ddiv rs rt
  | mad rs rt => Assembler.mad rs rt
  | sw rt base offset => Assembler.sw rt base offset
  | cEqFmt format fs ft => Assembler.cEqFmt format.operand fs ft
  | teqi rs imm => Assembler.teqi rs imm
  | jr rs => Assembler.jr rs

/-- The instruction that the mnemonic names. -/
def insn : Line → Insn
  | add rd rs rt => .alu true (ofWord rd) (ofWord rs) (ofWord rt)
  | addu rd rs rt => .alu false (ofWord rd) (ofWord rs) (ofWord rt)
  | or rd rs rt => .alu false (ofWord rd) (ofWord rs) (ofWord rt)
  | movz rd rs rt => .moveOnGpr (ofWord rd) (ofWord rs) (ofWord rt)
  | sll rd rt _ => .shift (ofWord rd) (ofWord rt)
  | addi rt rs _ => .aluImmediate true (ofWord rt) (ofWord rs)
  | addiu rt rs _ => .aluImmediate false (ofWord rt) (ofWord rs)
  | ori rt rs _ => .aluImmediate false (ofWord rt) (ofWord rs)
  | lui rt _ => .loadUpper (ofWord rt)
  | mflo rd => .moveFromLo (ofWord rd)
  | mfhi rd => .moveFromHi (ofWord rd)
  | lw rt base _ => .load .whole (ofWord rt) (ofWord base)
  | ld rt base _ => .load .whole (ofWord rt) (ofWord base)
  | mfc0 rt rd => .moveFromSystem (ofWord rt) (ofWord rd)
  | jalr rd rs => .jumpLinkRegister (ofWord rd) (ofWord rs)
  | mul rd rs rt => .multiplyTo (ofWord rd) (ofWord rs) (ofWord rt)
  | lwc1 ft base _ => .load .fpu (ofWord ft) (ofWord base)
  | lwxc1 fd index base => .fpuLoadIndexed (ofWord fd) (ofWord base) (ofWord index)
  | maddS fd fr fs ft => .fpuMultiplyAdd (ofWord fd) (ofWord fr) (ofWord fs) (ofWord ft)
  | addFmt _ fd fs ft => .fpuBinary (ofWord fd) (ofWord fs) (ofWord ft)
  | recipFmt _ fd fs => .fpuReciprocal (ofWord fd) (ofWord fs)
  | mtc1 rt fs => .moveToFpu (ofWord rt) (ofWord fs)
  | sc rt base _ => .store .conditional (ofWord rt) (ofWord base)
  | mult rs rt => .hiLo .multiply (ofWord rs) (ofWord rt)
  | div rs rt => .hiLo .divide (ofWord rs) (ofWord rt)
  | dmult rs rt => .hiLo .multiplyDouble (ofWord rs) (ofWord rt)
  | ddiv rs rt => .hiLo .divideDouble (ofWord rs) (ofWord rt)
  | mad rs rt => .multiplyAdd (ofWord rs) (ofWord rt)
  | sw rt base _ => .store .whole (ofWord rt) (ofWord base)
  | cEqFmt _ fs ft => .fpuCompare (ofWord fs) (ofWord ft)
  | teqi rs _ => .trapImmediate (ofWord rs)
  | jr rs => .jumpRegister (ofWord rs)

theorem ofWord?_word (l : Line) : Insn.ofWord? l.word = some l.insn := by
  cases l with
  | add | addu | or | movz | sll | mflo | mfhi | jalr | mult | div | dmult | ddiv | jr =>
    simp only [word, Assembler.add, Assembler.addu, Assembler.or, Assembler.movz, Assembler.sll,
      Assembler.mflo, Assembler.mfhi, Assembler.jalr, Assembler.mult, Assembler.div,
      Assembler.dmult, Assembler.ddiv, Assembler.jr]
    rw [Insn.ofWord?_of_special (Word.primary_rType ..), Insn.special?, Word.funct_rType]
    refine Eq.trans (b := some _) rfl ?_
    simp only [insn, Word.rs_rType, Word.rt_rType, Word.rd_rType]
  | addi | addiu | ori | lui | lw | ld | lwc1 | sc | sw =>
    simp only [word, Assembler.addi, Assembler.addiu, Assembler.ori, Assembler.lui, Assembler.lw,
      Assembler.ld, Assembler.lwc1, Assembler.sc, Assembler.sw]
    unfold Insn.ofWord?
    rw [Word.primary_iType]
    refine Eq.trans (b := some _) rfl ?_
    simp only [insn, Word.ft, Word.rs_iType, Word.rt_iType]
  | teqi =>
    simp only [word, Assembler.teqi, signType]
    rw [Insn.ofWord?_of_sign (Word.primary_iType ..), Insn.signGroup?, Word.rt_iType]
    refine Eq.trans (b := some _) rfl ?_
    simp only [insn, Word.rs_iType]
  | mfc0 =>
    simp only [word, Assembler.mfc0]
    rw [Insn.ofWord?_of_system (Word.primary_rType ..), Insn.systemGroup?, Word.rs_rType]
    refine Eq.trans (b := some _) rfl ?_
    simp only [insn, Word.rt_rType, Word.rd_rType]
  | mtc1 =>
    simp only [word, Assembler.mtc1, Word.fType]
    rw [Insn.ofWord?_of_fpu (Word.primary_rType ..), Insn.fpuGroup?, Word.rs_rType]
    refine Eq.trans (b := some _) rfl ?_
    simp only [insn, Word.fs, Word.rt_rType, Word.rd_rType]
  | addFmt format | recipFmt format | cEqFmt format =>
    simp only [word, Assembler.addFmt, Assembler.recipFmt, Assembler.cEqFmt, Word.fType]
    rw [Insn.ofWord?_of_fpu (Word.primary_rType ..),
      Insn.fpuGroup?_of_format ((Word.rs_rType ..).trans format.ofWord_operand),
      Insn.fpuArithmetic?, Word.funct_rType]
    refine Eq.trans (b := some _) rfl ?_
    simp only [insn, Word.fd, Word.fs, Word.ft, Word.rt_rType, Word.rd_rType, Word.sa_rType]
  | lwxc1 | maddS =>
    simp only [word, Assembler.lwxc1, Assembler.maddS]
    rw [Insn.ofWord?_of_fpuIndexed (Word.primary_rType ..), Insn.fpuIndexed?, Word.funct_rType]
    refine Eq.trans (b := some _) rfl ?_
    simp only [insn, Word.fd, Word.fr, Word.fs, Word.ft, Word.rs_rType, Word.rt_rType,
      Word.rd_rType, Word.sa_rType]
  | mad | mul =>
    simp only [word, Assembler.mad, Assembler.mul]
    rw [Insn.ofWord?_of_vendor (Word.primary_rType ..), Insn.vendor?, Word.funct_rType]
    refine Eq.trans (b := some _) rfl ?_
    simp only [insn, Word.rs_rType, Word.rt_rType, Word.rd_rType]

/-- The register operands in the order in which they are written. Shift amounts and the registers
of the system coprocessor are none. -/
def operands : Line → List Register
  | add rd rs rt | addu rd rs rt | or rd rs rt | movz rd rs rt | mul rd rs rt =>
    [gpr rd, gpr rs, gpr rt]
  | sll rd rt _ => [gpr rd, gpr rt]
  | addi rt rs _ | addiu rt rs _ | ori rt rs _ => [gpr rt, gpr rs]
  | lui rt _ | mfc0 rt _ => [gpr rt]
  | mflo rd | mfhi rd => [gpr rd]
  | lw rt base _ | ld rt base _ | sc rt base _ | sw rt base _ => [gpr rt, gpr base]
  | jalr rd rs => [gpr rd, gpr rs]
  | lwc1 ft base _ => [fpr ft, gpr base]
  | lwxc1 fd index base => [fpr fd, gpr index, gpr base]
  | maddS fd fr fs ft => [fpr fd, fpr fr, fpr fs, fpr ft]
  | addFmt _ fd fs ft => [fpr fd, fpr fs, fpr ft]
  | recipFmt _ fd fs => [fpr fd, fpr fs]
  | mtc1 rt fs => [gpr rt, fpr fs]
  | mult rs rt | div rs rt | dmult rs rt | ddiv rs rt | mad rs rt => [gpr rs, gpr rt]
  | cEqFmt _ fs ft => [fpr fs, fpr ft]
  | teqi rs _ | jr rs => [gpr rs]

/-- The operands that receive a result: the first one, but for the statements that are listed. -/
def results (l : Line) : List Register :=
  match l with
  | mtc1 _ fs => [fpr fs]
  | mult .. | div .. | dmult .. | ddiv .. | mad .. | sw .. | cEqFmt .. | teqi .. | jr .. => []
  | _ => l.operands.take 1

/-- The operands that are read: all but the first one, but for the statements that are listed. -/
def sources (l : Line) : List Register :=
  match l with
  | mtc1 rt _ => [gpr rt]
  | mult .. | div .. | dmult .. | ddiv .. | mad .. | sw .. | cEqFmt .. | teqi .. | jr .. =>
    l.operands
  -- the old value of the destination may stay, or the register is stored as well
  | movz .. | sc .. => l.operands
  | _ => l.operands.tail

section Effect

variable (l : Line) (pc : VirtAddr) {r : Register}

theorem mem_writes_effect_insn_iff (hr : ∀ n, r ≠ .misc n) :
    r ∈ (l.insn.effect pc).writes ↔ r ∈ l.results := by
  unfold Insn.effect
  cases l <;>
    simp [insn, results, operands, gpr, fpr, Register.lo, Register.hi, Register.fcc, Effect.jump,
      hr]

theorem mem_reads_effect_insn_iff (hr : ∀ n, r ≠ .misc n) :
    r ∈ (l.insn.effect pc).reads ↔ r ∈ l.sources := by
  unfold Insn.effect
  cases l
  case movz | lwxc1 | sc | sw =>
    -- the effect lists these operands in another order
    simp only [insn, sources, operands, gpr, fpr, RegSet.mem_insert, RegSet.mem_singleton,
      List.mem_cons, List.tail_cons, List.not_mem_nil]
    tauto
  all_goals simp [insn, sources, operands, gpr, fpr, Register.lo, Register.hi, Effect.jump, hr]

end Effect

/-- The analysis of a statement names the operands that it writes and reads. -/
structure Agrees (l : Line) (a : Analysis) : Prop where
  writes : ∀ r : Register, (∀ n, r ≠ .misc n) →
    (r ∈ a.writes ↔ r ∈ l.results ∧ r ≠ .gpr Reg.zero)
  reads : ∀ r : Register, (∀ n, r ≠ .misc n) →
    (r ∈ a.reads ↔ r ∈ l.sources ∧ r ≠ .gpr Reg.zero)

end Line

/-! ### Analyses -/

section Decoded

variable {flavor : Flavor} {source : Source} {pc : VirtAddr} {phys : PhysAddr}

/-- An instruction that every model has is analysed by its effect. -/
theorem target_decoded_of_base {insn : Insn} (hbase : insn.requirement = .base)
    (h : Insn.ofWord? (source.fetchOpcode phys) = some insn) :
    (Analysis.decoded flavor source pc phys).target = (insn.effect pc).target := by
  have hdecode : Insn.decode? flavor (source.fetchOpcode phys) = some insn :=
    Insn.decode?_eq_some_iff.mpr ⟨h, by rw [hbase]; rfl⟩
  rw [Analysis.decoded_of_decode? hdecode]
  rfl

theorem Line.agrees_of_word {l : Line} (hword : source.fetchOpcode phys = l.word)
    (h : (Analysis.decoded flavor source pc phys).IsInstruction) :
    l.Agrees (.decoded flavor source pc phys) := by
  obtain ⟨insn, hdecode⟩ := Option.isSome_iff_exists.mp (Analysis.isInstruction_decoded_iff.mp h)
  obtain rfl : l.insn = insn := by
    have heq := (Insn.decode?_eq_some_iff.mp hdecode).1
    rw [hword, l.ofWord?_word] at heq
    exact Option.some.inj heq
  rw [Analysis.decoded_of_decode? hdecode]
  exact {
    writes := fun r hr ↦
      RegSet.mem_withoutZero.trans (and_congr_left' (l.mem_writes_effect_insn_iff pc hr))
    reads := fun r hr ↦
      RegSet.mem_withoutZero.trans (and_congr_left' (l.mem_reads_effect_insn_iff pc hr)) }

end Decoded

/-- Decoding a statement's word gives the target and the registers that the operands say. -/
theorem agrees_decoded (flavor : Flavor) (source : Source) (pc : VirtAddr) (phys : PhysAddr) :
    (∀ (b : Branch) (offset : BitVec 16), source.fetchOpcode phys = b.word offset →
      ∃ t, (Analysis.decoded flavor source pc phys).target = some t ∧
        (t.toNat : Int) = (pc.toNat + 4 + 4 * offset.toInt) % 0x10000000000000000) ∧
    (∀ t : VirtAddr,
      source.fetchOpcode phys = j t.bits ∨ source.fetchOpcode phys = jal t.bits →
        ((Analysis.decoded flavor source pc phys).target = some t ↔
          t.toNat % 4 = 0 ∧ t.toNat / 0x10000000 = (pc + 4#64).toNat / 0x10000000)) ∧
    ∀ l : Line, source.fetchOpcode phys = l.word →
      (Analysis.decoded flavor source pc phys).IsInstruction →
        l.Agrees (.decoded flavor source pc phys) := by
  refine ⟨fun b offset hword ↦ ?_, fun t hword ↦ ?_, fun l ↦ Line.agrees_of_word⟩
  · have hinsn := hword ▸ b.ofWord?_word offset
    refine ⟨branchTarget pc offset, ?_, toNat_branchTarget pc offset⟩
    rw [target_decoded_of_base (b.requirement_insn offset) hinsn, b.target_effect_insn]
  · have htarget : (Analysis.decoded flavor source pc phys).target =
        some (jumpTarget pc (t.bits.extractLsb' 2 26)) := by
      rcases hword with hword | hword
      · exact target_decoded_of_base rfl (hword ▸ ofWord?_j t.bits)
      · exact target_decoded_of_base rfl (hword ▸ ofWord?_jal t.bits)
    rw [htarget, Option.some.injEq]
    exact jumpTarget_extractLsb'_eq_iff pc t

/-- A branch backwards over the first address, a jump that leaves its region, and a conditional
move whose first operand is the register 10 modulo 32. -/
theorem agrees_words :
    (∃ t, (Analysis.decoded .r4600 (.uniform (Branch.bc1tl.word (-3#16))) ⟨0#64⟩ ⟨0#64⟩).target =
        some t ∧ (t.toNat : Int) = 0xfffffffffffffff8) ∧
      (Analysis.decoded .r4600 (.uniform (jal 0x20000000#64)) ⟨0#64⟩ ⟨0#64⟩).target ≠
        some ⟨0x20000000#64⟩ ∧
      (Line.movz 42#32 8#32 9#32).Agrees
        (.decoded .r5000 (.uniform (Line.movz 42#32 8#32 9#32).word) ⟨0#64⟩ ⟨0#64⟩) := by
  refine ⟨?_, fun h ↦ ?_, ?_⟩
  · exact (agrees_decoded .r4600 (.uniform (Branch.bc1tl.word (-3#16))) ⟨0#64⟩ ⟨0#64⟩).1 .bc1tl
      (-3#16) rfl
  · have hregion := ((agrees_decoded .r4600 (.uniform (jal 0x20000000#64)) ⟨0#64⟩ ⟨0#64⟩).2.1
      ⟨0x20000000#64⟩ (.inr rfl)).mp h
    exact absurd hregion (by decide)
  · exact (agrees_decoded .r5000 (.uniform (Line.movz 42#32 8#32 9#32).word) ⟨0#64⟩ ⟨0#64⟩).2.2
      _ rfl (by decide)

/-- The registers that are read are not only the operands after the first one, and the one that is
written may be none. -/
theorem movz_reads_destination :
    (Analysis.decoded .r5000 (.uniform (movz 10#32 8#32 9#32)) ⟨0#64⟩ ⟨0#64⟩).IsInstruction ∧
      .gpr 10#5 ∈
        (Analysis.decoded .r5000 (.uniform (movz 10#32 8#32 9#32)) ⟨0#64⟩ ⟨0#64⟩).reads ∧
      (Analysis.decoded .r5000 (.uniform (addu 0#32 8#32 9#32)) ⟨0#64⟩ ⟨0#64⟩).IsInstruction ∧
      .gpr 0#5 ∉
        (Analysis.decoded .r5000 (.uniform (addu 0#32 8#32 9#32)) ⟨0#64⟩ ⟨0#64⟩).writes := by
  decide

end Assembler

end MipsBlocks
