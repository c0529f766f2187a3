import MipsBlocks.Proofs.WellFormed

/-!
# Relative branches on integer registers

A relative branch is unconditional for the analysis exactly if its condition holds whatever the
registers hold (`Cond.isConstant_iff_forall_holds`), and the registers that it reads settle the
condition (`Cond.holds_iff_of_agreeOn`).

`IntegerBranch` is the table of the mnemonics with their encodings and conditions;
`exists_encodes_of_ofWord?` says that no branch on integer registers is missing in it. What the
analysis of such a branch tells about it is `IntegerBranch.Analyzed`, and
`IntegerBranch.analyzed_decoded` is the main statement: it holds for all words of the table, at
every address and on every processor model.
-/

set_option autoImplicit false
set_option relaxedAutoImplicit false

namespace MipsBlocks

/-! ### Operands -/

namespace Operands

/-- Every register holds zero but one, if that one can hold something else. -/
def only (r : Reg) (v : BitVec 64) (line fcc : Bool := false) : Operands where
  gpr q := if q = r ∧ q ≠ Reg.zero then v else 0#64
  line := line
  fcc := fcc
  gpr_zero := if_neg fun h ↦ h.2 rfl

theorem gpr_only_self {r : Reg} (h : r ≠ Reg.zero) (v : BitVec 64) (line fcc : Bool) :
    (only r v line fcc).gpr r = v := if_pos ⟨rfl, h⟩

theorem gpr_only_of_ne {q r : Reg} (h : q ≠ r) (v : BitVec 64) (line fcc : Bool) :
    (only r v line fcc).gpr q = 0#64 := if_neg fun hq ↦ h hq.1

theorem gpr_only_zero (q r : Reg) (line fcc : Bool) : (only r 0#64 line fcc).gpr q = 0#64 :=
  ite_self _

/-- Two register files hold the same in the integer registers of a set. -/
def AgreeOn (s : RegSet) (o p : Operands) : Prop := ∀ r, .gpr r ∈ s → o.gpr r = p.gpr r

theorem AgreeOn.of_withoutZero {s : RegSet} {o p : Operands} (h : AgreeOn s.withoutZero o p) :
    AgreeOn s o p := by
  intro r hr
  by_cases hzero : r = Reg.zero
  · rw [hzero, o.gpr_zero, p.gpr_zero]
  · exact h r (RegSet.mem_withoutZero.mpr ⟨hr, fun heq ↦ hzero (Register.gpr.inj heq)⟩)

end Operands

/-! ### Conditions -/

namespace Cond

/-- The condition of a branch that is always taken holds. -/
theorem holds_of_isConstant {c : Cond} (h : c.isConstant = true) (o : Operands) : c.Holds o := by
  cases c with
  | eq rs rt => exact congrArg o.gpr (of_decide_eq_true h)
  | lez rs =>
    obtain rfl : rs = Reg.zero := of_decide_eq_true h
    simp [Holds, o.gpr_zero]
  | gez rs =>
    obtain rfl : rs = Reg.zero := of_decide_eq_true h
    simp [Holds, o.gpr_zero]
  | _ => cases h

/-- A condition that the operand fields leave open fails for some registers. -/
theorem exists_not_holds {c : Cond} (h : c.isConstant = false) : ∃ o : Operands, ¬ c.Holds o := by
  cases c with
  | eq rs rt =>
    have hne : rs ≠ rt := of_decide_eq_false h
    by_cases hrs : rs = Reg.zero
    · have hrt : rt ≠ Reg.zero := fun hrt ↦ hne (hrs.trans hrt.symm)
      refine ⟨.only rt 1#64, ?_⟩
      rw [Holds, Operands.gpr_only_of_ne hne, Operands.gpr_only_self hrt]
      decide
    · refine ⟨.only rs 1#64, ?_⟩
      rw [Holds, Operands.gpr_only_self hrs, Operands.gpr_only_of_ne hne.symm]
      decide
  | lez rs =>
    refine ⟨.only rs 1#64, ?_⟩
    rw [Holds, Operands.gpr_only_self (of_decide_eq_false h)]
    decide
  | gez rs =>
    refine ⟨.only rs (-1#64), ?_⟩
    rw [Holds, Operands.gpr_only_self (of_decide_eq_false h)]
    decide
  | ne rs rt =>
    refine ⟨.only Reg.zero 0#64, ?_⟩
    rw [Holds, Operands.gpr_only_zero, Operands.gpr_only_zero]
    exact fun hne ↦ hne rfl
  | gtz rs =>
    refine ⟨.only Reg.zero 0#64, ?_⟩
    rw [Holds, Operands.gpr_only_zero]
    decide
  | ltz rs =>
    refine ⟨.only Reg.zero 0#64, ?_⟩
    rw [Holds, Operands.gpr_only_zero]
    decide
  | system value => exact ⟨.only Reg.zero 0#64 (!value), by simp [Holds, Operands.only]⟩
  | fpu value => exact ⟨.only Reg.zero 0#64 false (!value), by simp [Holds, Operands.only]⟩

theorem isConstant_iff_forall_holds {c : Cond} :
    c.isConstant = true ↔ ∀ o : Operands, c.Holds o := by
  refine ⟨holds_of_isConstant, fun h ↦ Bool.of_not_eq_false fun hconst ↦ ?_⟩
  obtain ⟨o, ho⟩ := exists_not_holds hconst
  exact ho (h o)

/-- What a condition on integer registers reads settles it. -/
theorem holds_iff_of_agreeOn {c : Cond} (hinteger : c.needsCoprocessor = false) {o p : Operands}
    (h : Operands.AgreeOn c.reads o p) : c.Holds o ↔ c.Holds p := by
  cases c with
  | eq rs rt | ne rs rt =>
    rw [Holds, Holds, h rs (by simp [reads]), h rt (by simp [reads])]
  | lez rs | gtz rs | ltz rs | gez rs => rw [Holds, Holds, h rs (by simp [reads])]
  | system value => cases hinteger
  | fpu value => cases hinteger

end Cond

/-! ### The table -/

/-- The relative branches on integer registers, by mnemonic: `l` is for likely, `al` for linking. -/
inductive IntegerBranch where
  | beq
  | bne
  | blez
  | bgtz
  | beql
  | bnel
  | blezl
  | bgtzl
  | bltz
  | bgez
  | bltzl
  | bgezl
  | bltzal
  | bgezal
  | bltzall
  | bgezall
  deriving DecidableEq

namespace IntegerBranch

def all : List IntegerBranch :=
  [beq, bne, blez, bgtz, beql, bnel, blezl, bgtzl, bltz, bgez, bltzl, bgezl, bltzal, bgezal,
    bltzall, bgezall]

/-- The primary opcode. The branches on a sign share one and are told apart by `selector?`. -/
def opcode : IntegerBranch → Nat
  | beq => 0x04
  | bne => 0x05
  | blez => 0x06
  | bgtz => 0x07
  | beql => 0x14
  | bnel => 0x15
  | blezl => 0x16
  | bgtzl => 0x17
  | _ => 0x01

/-- The value of the field `rt` where it is no operand. -/
def selector? : IntegerBranch → Option Nat
  | bltz => some 0x00
  | bgez => some 0x01
  | bltzl => some 0x02
  | bgezl => some 0x03
  | bltzal => some 0x10
  | bgezal => some 0x11
  | bltzall => some 0x12
  | bgezall => some 0x13
  | _ => none

/-- The words of a mnemonic. -/
def Encodes (b : IntegerBranch) (w : Word) : Prop :=
  w.primary.toNat = b.opcode ∧ ∀ s ∈ b.selector?, w.rt.toNat = s

instance (b : IntegerBranch) (w : Word) : Decidable (b.Encodes w) :=
  inferInstanceAs (Decidable (_ ∧ _))

/-- When a branch is taken. -/
def cond (b : IntegerBranch) (w : Word) : Cond :=
  match b with
  | beq | beql => .eq w.rs w.rt
  | bne | bnel => .ne w.rs w.rt
  | blez | blezl => .lez w.rs
  | bgtz | bgtzl => .gtz w.rs
  | bltz | bltzl | bltzal | bltzall => .ltz w.rs
  | bgez | bgezl | bgezal | bgezall => .gez w.rs

/-- Whether the delay slot is skipped when the branch is not taken. -/
def isLikely : IntegerBranch → Bool
  | beql | bnel | blezl | bgtzl | bltzl | bgezl | bltzall | bgezall => true
  | _ => false

/-- Whether the return address is kept, taken or not. -/
def links : IntegerBranch → Bool
  | bltzal | bgezal | bltzall | bgezall => true
  | _ => false

theorem needsCoprocessor_cond (b : IntegerBranch) (w : Word) :
    (b.cond w).needsCoprocessor = false := by cases b <;> rfl

/-- The instruction of a word of the table. -/
def insn (b : IntegerBranch) (w : Word) : Insn := .branch (b.cond w) b.isLikely b.links w.imm

theorem ofWord?_of_encodes {b : IntegerBranch} {w : Word} (h : b.Encodes w) :
    Insn.ofWord? w = some (b.insn w) := by
  obtain ⟨hopcode, hselector⟩ := h
  unfold Insn.ofWord?
  cases b with
  | bltz | bgez | bltzl | bgezl | bltzal | bgezal | bltzall | bgezall =>
    rw [hopcode]
    show Insn.signGroup? w = _
    unfold Insn.signGroup?
    rw [hselector _ rfl]
    rfl
  | _ =>
    rw [hopcode]
    rfl

theorem decode?_of_encodes (flavor : Flavor) {b : IntegerBranch} {w : Word} (h : b.Encodes w) :
    Insn.decode? flavor w = some (b.insn w) :=
  Insn.decode?_eq_some_iff.mpr ⟨ofWord?_of_encodes h, rfl⟩

section Complete

variable {w : Word} {cond : Cond} {likely link : Bool} {offset : BitVec 16}

theorem exists_encodes_of_selector {n m : Nat} (hprimary : w.primary.toNat = n)
    (hrt : w.rt.toNat = m) (h : ∃ b ∈ all, b.opcode = n ∧ b.selector? = some m) :
    ∃ b : IntegerBranch, b.Encodes w := by
  obtain ⟨b, -, hopcode, hselector⟩ := h
  refine ⟨b, hprimary.trans hopcode.symm, fun s hs ↦ ?_⟩
  rw [hselector] at hs
  exact hrt.trans (Option.some.inj hs)

theorem exists_encodes_of_opcode {n : Nat} (hprimary : w.primary.toNat = n)
    (h : ∃ b ∈ all, b.opcode = n ∧ b.selector? = none) : ∃ b : IntegerBranch, b.Encodes w := by
  obtain ⟨b, -, hopcode, hselector⟩ := h
  refine ⟨b, hprimary.trans hopcode.symm, fun s hs ↦ ?_⟩
  rw [hselector] at hs
  cases hs

theorem exists_encodes_of_signGroup? (hprimary : w.primary.toNat = 0x01)
    (h : Insn.signGroup? w = some (.branch cond likely link offset)) :
    ∃ b : IntegerBranch, b.Encodes w := by
  unfold Insn.signGroup? at h
  split at h
  all_goals first
    | exact exists_encodes_of_selector hprimary ‹_› (by decide)
    | cases h

theorem needsCoprocessor_of_systemGroup?
    (h : Insn.systemGroup? w = some (.branch cond likely link offset)) :
    cond.needsCoprocessor = true := by
  have hsystem (op? : Option SystemOp) :
      op?.map Insn.system ≠ some (Insn.branch cond likely link offset) := by
    cases op? <;> exact fun h ↦ by cases h
  unfold Insn.systemGroup? at h
  repeat' split at h
  all_goals first
    | exact absurd h (hsystem _)
    | cases h
      try rfl

theorem needsCoprocessor_of_fpuGroup?
    (h : Insn.fpuGroup? w = some (.branch cond likely link offset)) :
    cond.needsCoprocessor = true := by
  unfold Insn.fpuGroup? at h
  repeat' split at h
  all_goals first
    | cases Insn.isBranchOrSystem_of_fpuArithmetic? h
    | cases h
      try rfl

theorem exists_encodes_or_needsCoprocessor
    (h : Insn.ofWord? w = some (.branch cond likely link offset)) :
    (∃ b : IntegerBranch, b.Encodes w) ∨ cond.needsCoprocessor = true := by
  unfold Insn.ofWord? at h
  split at h
  -- the opcode is in the table, or that of no branch, or that of a group
  all_goals first
    | exact .inl (exists_encodes_of_opcode ‹_› (by decide))
    | cases h
    | exact .inl (exists_encodes_of_signGroup? ‹_› h)
    | exact .inr (needsCoprocessor_of_systemGroup? h)
    | exact .inr (needsCoprocessor_of_fpuGroup? h)
    | cases Insn.isBranchOrSystem_of_special? h
    | cases Insn.isBranchOrSystem_of_fpuIndexed? h
    | cases Insn.isBranchOrSystem_of_vendor? h

/-- Every relative branch that asks no coprocessor is in the table. -/
theorem exists_encodes_of_ofWord? (hinteger : cond.needsCoprocessor = false)
    (h : Insn.ofWord? w = some (.branch cond likely link offset)) :
    ∃ b : IntegerBranch, b.Encodes w ∧ Insn.branch cond likely link offset = b.insn w := by
  rcases exists_encodes_or_needsCoprocessor h with ⟨b, hb⟩ | hcoprocessor
  · exact ⟨b, hb, Option.some.inj (h.symm.trans (ofWord?_of_encodes hb))⟩
  · cases hinteger.symm.trans hcoprocessor

end Complete

/-! ### The analysis -/

/-- What the analysis of the branch `b` in the word `w` tells about it. -/
structure Analyzed (b : IntegerBranch) (w : Word) (a : Analysis) : Prop where
  unconditional_iff : .unconditionalBranch ∈ a.flags ↔ ∀ o, (b.cond w).Holds o
  of_unconditional : .unconditionalBranch ∈ a.flags →
    .likelyBranch ∉ a.flags ∧ a.skipSlots = 0 ∧ a.reads = ∅
  conditional_iff : .conditionalBranch ∈ a.flags ↔ .unconditionalBranch ∉ a.flags
  of_conditional : .conditionalBranch ∈ a.flags →
    (.likelyBranch ∈ a.flags ↔ b.isLikely = true) ∧ a.skipSlots = if b.isLikely then 1 else 0
  agree : ∀ o p, Operands.AgreeOn a.reads o p → ((b.cond w).Holds o ↔ (b.cond w).Holds p)
  writes : a.writes = if b.links then {.gpr Reg.ra} else ∅

section Effect

variable (b : IntegerBranch) (w : Word) (pc : VirtAddr)

theorem flags_effect : ((b.insn w).effect pc).flags =
    if (b.cond w).isConstant then {.unconditionalBranch, .endSequence}
    else if b.isLikely then {.conditionalBranch, .likelyBranch} else {.conditionalBranch} := by
  show (Effect.branch (b.cond w) b.isLikely _).flags = _
  rw [Effect.flags_branch, needsCoprocessor_cond, if_neg Bool.false_ne_true]
  split_ifs <;> decide

theorem unconditionalBranch_mem_effect_iff :
    .unconditionalBranch ∈ ((b.insn w).effect pc).flags ↔ (b.cond w).isConstant = true := by
  rw [flags_effect]
  split_ifs with hconst <;> simp [hconst]

theorem conditionalBranch_mem_effect_iff :
    .conditionalBranch ∈ ((b.insn w).effect pc).flags ↔ (b.cond w).isConstant = false := by
  rw [flags_effect]
  split_ifs with hconst <;> simp [hconst]

theorem likelyBranch_mem_effect_iff :
    .likelyBranch ∈ ((b.insn w).effect pc).flags ↔
      (b.cond w).isConstant = false ∧ b.isLikely = true := by
  rw [flags_effect]
  split_ifs <;> simp_all

theorem reads_effect : ((b.insn w).effect pc).reads =
    if (b.cond w).isConstant then ∅ else (b.cond w).reads := Effect.reads_branch ..

theorem withoutZero_writes_effect : ((b.insn w).effect pc).writes.withoutZero =
    if b.links then {.gpr Reg.ra} else ∅ := by
  show (if b.links then {.gpr Reg.ra} else ∅ : RegSet).withoutZero = _
  cases b.links <;> decide

theorem holds_iff_of_agreeOn_effect {o p : Operands}
    (h : Operands.AgreeOn ((b.insn w).effect pc).reads.withoutZero o p) :
    (b.cond w).Holds o ↔ (b.cond w).Holds p := by
  rw [reads_effect] at h
  split at h
  case isTrue hconst =>
    exact iff_of_true (Cond.holds_of_isConstant hconst o) (Cond.holds_of_isConstant hconst p)
  case isFalse => exact Cond.holds_iff_of_agreeOn (b.needsCoprocessor_cond w) h.of_withoutZero

end Effect

section Decoded

variable {b : IntegerBranch} (flavor : Flavor) (source : Source) (pc : VirtAddr) (phys : PhysAddr)

theorem decoded_of_encodes (h : b.Encodes (source.fetchOpcode phys)) :
    Analysis.decoded flavor source pc phys =
      .ofEffect pc phys (source.fetchOpcode phys) (source.fetchArgument phys)
        ((b.insn (source.fetchOpcode phys)).effect pc) := by
  rw [Analysis.decoded, Analysis.effect, decode?_of_encodes flavor h]

/-- The branches of the table are analysed exactly, wherever they stand. -/
theorem analyzed_decoded (h : b.Encodes (source.fetchOpcode phys)) :
    b.Analyzed (source.fetchOpcode phys) (.decoded flavor source pc phys) := by
  rw [decoded_of_encodes flavor source pc phys h]
  generalize source.fetchOpcode phys = w
  have hunconditional := b.unconditionalBranch_mem_effect_iff w pc
  have hconditional := b.conditionalBranch_mem_effect_iff w pc
  have hlikely := b.likelyBranch_mem_effect_iff w pc
  have hskip := (b.insn w).skipSlots_effect pc
  exact {
    unconditional_iff := hunconditional.trans Cond.isConstant_iff_forall_holds
    of_unconditional := fun hmem ↦ by
      have hconst := hunconditional.mp hmem
      have hnot : .likelyBranch ∉ ((b.insn w).effect pc).flags := by simp [hlikely, hconst]
      refine ⟨hnot, hskip.trans (if_neg hnot), ?_⟩
      show ((b.insn w).effect pc).reads.withoutZero = ∅
      rw [reads_effect, if_pos hconst, RegSet.withoutZero_empty]
    conditional_iff := hconditional.trans (Bool.not_eq_true _ ▸ not_congr hunconditional.symm)
    of_conditional := fun hmem ↦ by
      have hiff : .likelyBranch ∈ ((b.insn w).effect pc).flags ↔ b.isLikely = true := by
        simp [hlikely, hconditional.mp hmem]
      refine ⟨hiff, hskip.trans ?_⟩
      simp only [hiff]
    agree := fun o p ↦ b.holds_iff_of_agreeOn_effect w pc
    writes := b.withoutZero_writes_effect w pc }

end Decoded

end IntegerBranch

/-- The same word everywhere. -/
def Source.uniform (w : Word) : Source where
  translate _ pc := some pc.toPhys
  fetchOpcode _ := w

/-- Linking without a condition is written as a branch on the register that holds zero. -/
theorem IntegerBranch.analyzed_decoded_uniform :
    bgezal.Encodes (Assembler.bgezal 0#32 1#16) ∧
      bgezal.Analyzed (Assembler.bgezal 0#32 1#16)
        (.decoded .r4600 (.uniform (Assembler.bgezal 0#32 1#16)) ⟨0#64⟩ ⟨0#64⟩) := by
  have h : bgezal.Encodes (Assembler.bgezal 0#32 1#16) := by decide
  exact ⟨h, analyzed_decoded .r4600 (.uniform (Assembler.bgezal 0#32 1#16)) ⟨0#64⟩ ⟨0#64⟩ h⟩

end MipsBlocks
