import MipsBlocks.Instruction.Assembler
import MipsBlocks.Proofs.Effects

/-!
# What the decoder's analyses have in common

`Analysis.WellFormed` lists what every analysis of a fetched word satisfies, whatever the word, the
processor model, the address and the source: how its flags go together (`Flags.Coherent`), how
many slots it has, where a target may stand, and which registers it may name
(`Register.IsVariable`). `Analysis.wellFormed_decoded` is the main statement.

The flags are settled by the list of the sets that occur. The rest goes by cases on the
instruction; only for the return from an exception the word matters as well: it is the one branch
without a delay slot, and it has one encoding (`Insn.ofWord?_eq_return_iff`).
-/

set_option autoImplicit false
set_option relaxedAutoImplicit false

namespace MipsBlocks

/-! ### Flags -/

namespace Flags

/-- The flags that only the block around an instruction can give. -/
def ofBuilder : Flags :=
  {.inDelaySlot, .branchTarget, .redispatch, .returnToStart, .intrablockBranch, .validateTlb,
    .compilerPageFault, .virtualNoop}

theorem mem_ofBuilder_iff {f : Flag} : f ∈ ofBuilder ↔ f ∉ ofDecoder := by cases f <;> decide

/-- How the flags of a decoded instruction go together. -/
structure Coherent (s : Flags) : Prop where
  not_conditional_and_unconditional : ¬ (.conditionalBranch ∈ s ∧ .unconditionalBranch ∈ s)
  endSequence_iff : .endSequence ∈ s ↔
    .unconditionalBranch ∈ s ∨ .willCauseException ∈ s ∨ .canChangeModes ∈ s
  conditional_of_likely : .likelyBranch ∈ s → .conditionalBranch ∈ s
  not_reads_and_writes : ¬ (.readsMemory ∈ s ∧ .writesMemory ∈ s)
  canCauseException_of_access : .readsMemory ∈ s ∨ .writesMemory ∈ s → .canCauseException ∈ s
  not_ofBuilder : ∀ f ∈ ofBuilder, f ∉ s

theorem coherent_of_mem_flagSets {s : Flags} (h : s ∈ Effect.flagSets) : s.Coherent where
  not_conditional_and_unconditional := by revert s; decide
  endSequence_iff := by revert s; decide
  conditional_of_likely := by revert s; decide
  not_reads_and_writes := by revert s; decide
  canCauseException_of_access := by revert s; decide
  not_ofBuilder f hf hmem := by
    have hsets : ∀ s ∈ Effect.flagSets, s ⊆ ofDecoder := by decide
    exact mem_ofBuilder_iff.mp hf (hsets s h f hmem)

end Flags

/-! ### Registers -/

/-- The registers that code can depend on: the first integer register holds zero whatever is done to
it, and the third class has three registers. -/
def Register.IsVariable : Register → Prop
  | gpr r => r ≠ Reg.zero
  | fpr _ => True
  | misc r => misc r = lo ∨ misc r = hi ∨ misc r = fcc

/-- Without the first integer register, a set is left with what it has of the third class. -/
theorem RegSet.isVariable_of_mem_withoutZero {s : RegSet} {r : Register}
    (hmisc : ∀ n, .misc n ∈ s → (Register.misc n).IsVariable) (h : r ∈ s.withoutZero) :
    r.IsVariable := by
  obtain ⟨hmem, hzero⟩ := mem_withoutZero.mp h
  cases r with
  | gpr n => exact fun hn ↦ hzero (congrArg Register.gpr hn)
  | fpr n => trivial
  | misc n => exact hmisc n hmem

theorem Cond.isVariable_of_mem_reads {cond : Cond} {n : Reg} (h : .misc n ∈ cond.reads) :
    (Register.misc n).IsVariable := by
  cases cond <;> simp_all [reads, Register.IsVariable]

namespace Insn

variable {insn : Insn} {pc : VirtAddr} {n : Reg}

theorem isVariable_of_mem_reads (h : .misc n ∈ (insn.effect pc).reads) :
    (Register.misc n).IsVariable := by
  unfold effect at h
  cases insn with
  | branch cond likely link offset =>
    dsimp only at h
    rw [Effect.reads_branch] at h
    split at h
    · exact absurd h (RegSet.not_mem_empty _)
    · exact Cond.isVariable_of_mem_reads h
  | load kind rt base => cases kind <;> simp at h
  | store kind rt base => cases kind <;> simp at h
  | multiplyAdd rs rt => exact (by simpa using h : _ ∨ _).imp_right .inl
  | _ => simp_all [Effect.jump, Register.IsVariable]

theorem isVariable_of_mem_writes (h : .misc n ∈ (insn.effect pc).writes) :
    (Register.misc n).IsVariable := by
  unfold effect at h
  cases insn with
  | branch cond likely link offset => cases link <;> simp at h
  | jump link index => cases link <;> simp at h
  | load kind rt base => cases kind <;> simp at h
  | store kind rt base => cases kind <;> simp at h
  | hiLo op rs rt => exact (by simpa using h : _ ∨ _).imp_right .inl
  | multiplyAdd rs rt => exact (by simpa using h : _ ∨ _).imp_right .inl
  | _ => simp_all [Effect.jump, Register.IsVariable]

/-! ### Slots -/

/-- The instructions with a delay slot. -/
def hasDelaySlot : Insn → Bool
  | jumpRegister .. | jumpLinkRegister .. | jump .. | branch .. => true
  | _ => false

theorem delaySlots_effect (insn : Insn) (pc : VirtAddr) :
    (insn.effect pc).delaySlots = if insn.hasDelaySlot then 1 else 0 := by
  cases insn with
  | branch cond likely link offset => exact Effect.delaySlots_branch ..
  | _ => rfl

/-- Every branch but the return from an exception has a delay slot. -/
theorem isBranch_effect_iff (insn : Insn) (pc : VirtAddr) :
    (insn.effect pc).flags.isBranch = true ↔
      insn.hasDelaySlot = true ∨ insn = system .returnFromException := by
  unfold effect
  cases insn with
  | branch cond likely link offset => simp [Effect.isBranch_branch, hasDelaySlot]
  | moveToSystem rt rd =>
    dsimp only [SystemRegister.writeFlags]
    split_ifs <;> simp [Flags.isBranch_iff, hasDelaySlot]
  | system op => cases op <;> simp [Flags.isBranch_iff, hasDelaySlot]
  | alu traps _ _ _ => cases traps <;> simp [Flags.isBranch_iff, hasDelaySlot]
  | aluImmediate traps _ _ => cases traps <;> simp [Flags.isBranch_iff, hasDelaySlot]
  | _ => simp [Flags.isBranch_iff, hasDelaySlot, Effect.jump]

/-- Nothing with a delay slot switches modes. -/
theorem canChangeModes_notMem_effect (pc : VirtAddr) (h : insn.hasDelaySlot = true) :
    .canChangeModes ∉ (insn.effect pc).flags := by
  unfold effect
  cases insn with
  | branch cond likely link offset =>
    dsimp only
    rw [Effect.flags_branch]
    split_ifs <;> decide
  | jumpRegister rs => dsimp only [Effect.jump]; decide
  | jumpLinkRegister rd rs => dsimp only [Effect.jump]; decide
  | jump link index => dsimp only [Effect.jump]; decide
  | _ => cases h

/-- The branch that switches modes is the return from an exception. -/
theorem isBranch_and_canChangeModes_iff (insn : Insn) (pc : VirtAddr) :
    (insn.effect pc).flags.isBranch = true ∧ .canChangeModes ∈ (insn.effect pc).flags ↔
      insn = system .returnFromException := by
  rw [isBranch_effect_iff]
  constructor
  · rintro ⟨hslot | rfl, hmodes⟩
    · exact absurd hmodes (canChangeModes_notMem_effect pc hslot)
    · rfl
  · rintro rfl
    exact ⟨.inr rfl, by unfold effect; dsimp only; decide⟩

theorem hasDelaySlot_iff (insn : Insn) (pc : VirtAddr) :
    insn.hasDelaySlot = true ↔
      (insn.effect pc).flags.isBranch = true ∧ .canChangeModes ∉ (insn.effect pc).flags := by
  constructor
  · intro hslot
    exact ⟨(isBranch_effect_iff insn pc).mpr (.inl hslot), canChangeModes_notMem_effect pc hslot⟩
  · rintro ⟨hbranch, hmodes⟩
    refine ((isBranch_effect_iff insn pc).mp hbranch).resolve_right fun hreturn ↦ hmodes ?_
    exact ((isBranch_and_canChangeModes_iff insn pc).mpr hreturn).2

/-! ### Targets -/

theorem isBranch_of_isSome_target (h : (insn.effect pc).target.isSome = true) :
    (insn.effect pc).flags.isBranch = true := by
  refine (isBranch_effect_iff insn pc).mpr (.inl ?_)
  cases insn with
  | branch cond likely link offset => rfl
  | jump link index => rfl
  | _ => cases h

/-- The branches without a target, which jump through a register or return, are unconditional. -/
theorem isSome_target_of_conditionalBranch
    (h : .conditionalBranch ∈ (insn.effect pc).flags) : (insn.effect pc).target.isSome = true := by
  have hslot := (isBranch_effect_iff insn pc).mp (Flags.isBranch_iff.mpr (.inl h))
  unfold effect at h ⊢
  cases insn with
  | branch cond likely link offset =>
    exact Option.isSome_iff_exists.mpr ⟨_, Effect.target_branch ..⟩
  | jump link index => rfl
  | jumpRegister rs => simp [Effect.jump] at h
  | jumpLinkRegister rd rs => simp [Effect.jump] at h
  | system op => cases op <;> simp at h
  | _ => rcases hslot with hslot | hslot <;> cases hslot

theorem toNat_target_mod {t : VirtAddr} (hpc : pc.IsAligned) (h : t ∈ (insn.effect pc).target) :
    t.toNat % 4 = pc.toNat % 4 := by
  cases insn with
  | branch cond likely link offset =>
    obtain rfl := Option.some.inj ((Effect.target_branch ..).symm.trans h)
    exact toNat_branchTarget_mod pc offset
  | jump link index =>
    obtain rfl := Option.some.inj h
    exact (isAligned_jumpTarget pc index).trans hpc.symm
  | _ => cases h

/-! ### Encodings -/

theorem invalidOpcode_notMem_effect (insn : Insn) (pc : VirtAddr) :
    .invalidOpcode ∉ (insn.effect pc).flags := by
  have hsets : ∀ s ∈ Effect.flagSets.erase Effect.invalid.flags, Flag.invalidOpcode ∉ s := by decide
  exact hsets _ (insn.flags_effect_mem_erase pc)

/-- The relative branches, and the operations of the system coprocessor without operands. -/
def isBranchOrSystem : Insn → Bool
  | branch .. | system .. => true
  | _ => false

section OfWord

variable {w : Word} {insn : Insn} {op : SystemOp}

theorem isBranchOrSystem_of_special? (h : special? w = some insn) :
    insn.isBranchOrSystem = false := by
  unfold special? at h
  split at h <;> cases h <;> rfl

theorem isBranchOrSystem_of_fpuArithmetic? (h : fpuArithmetic? w = some insn) :
    insn.isBranchOrSystem = false := by
  unfold fpuArithmetic? at h
  repeat' split at h
  all_goals cases h <;> rfl

theorem isBranchOrSystem_of_fpuIndexed? (h : fpuIndexed? w = some insn) :
    insn.isBranchOrSystem = false := by
  unfold fpuIndexed? at h
  split at h <;> cases h <;> rfl

theorem isBranchOrSystem_of_vendor? (h : vendor? w = some insn) :
    insn.isBranchOrSystem = false := by
  unfold vendor? at h
  split at h <;> cases h <;> rfl

theorem signGroup?_ne_system : signGroup? w ≠ some (system op) := by
  intro h
  unfold signGroup? at h
  split at h <;> cases h

theorem fpuGroup?_ne_system : fpuGroup? w ≠ some (system op) := by
  intro h
  unfold fpuGroup? at h
  repeat' split at h
  all_goals first
    | cases isBranchOrSystem_of_fpuArithmetic? h
    | cases h

/-- The operations without operands are in the group that the primary opcode names. -/
theorem systemGroup?_of_ofWord? (h : ofWord? w = some (system op)) :
    w.primary.toNat = 0x10 ∧ systemGroup? w = some (system op) := by
  unfold ofWord? at h
  split at h
  all_goals first
    | cases h
    | exact absurd h signGroup?_ne_system
    | exact absurd h fpuGroup?_ne_system
    | cases isBranchOrSystem_of_special? h
    | cases isBranchOrSystem_of_fpuIndexed? h
    | cases isBranchOrSystem_of_vendor? h
    | rename_i hprimary
      exact ⟨hprimary, h⟩

theorem systemOp?_of_systemGroup? (h : systemGroup? w = some (system op)) :
    0x10 ≤ w.rs.toNat ∧ systemOp? w = some op := by
  unfold systemGroup? at h
  repeat' split at h
  all_goals first
    | cases h
    | rename_i hrs
      obtain ⟨op', hop, heq⟩ := Option.map_eq_some_iff.mp h
      cases heq
      exact ⟨hrs, hop⟩

theorem operation_of_systemOp? (h : systemOp? w = some .returnFromException) :
    w.operation.toNat = 0x18 := by
  unfold systemOp? at h
  split at h
  all_goals first
    | assumption
    | cases h

/-- The return from an exception has one encoding. -/
theorem ofWord?_eq_return_iff :
    ofWord? w = some (system .returnFromException) ↔ w = Assembler.eret := by
  constructor
  · intro h
    obtain ⟨hprimary, hgroup⟩ := systemGroup?_of_ofWord? h
    obtain ⟨hrs, hop⟩ := systemOp?_of_systemGroup? hgroup
    have hoperation := operation_of_systemOp? hop
    have hword := w.isLt
    simp only [Word.primary, Word.rs, Word.operation, BitVec.extractLsb'_toNat,
      Nat.shiftRight_eq_div_pow] at hprimary hrs hoperation
    -- the three fields overlap and leave no bit open
    refine BitVec.eq_of_toNat_eq ?_
    show w.toNat = 0x42000018
    omega
  · rintro rfl
    rfl

end OfWord

end Insn

/-! ### Analyses -/

namespace Analysis

section Effect

variable (flavor : Flavor) (pc : VirtAddr) (w : Word)

theorem delaySlots_effect : (effect flavor pc w).delaySlots =
    if (effect flavor pc w).flags.isBranch = true ∧ .canChangeModes ∉ (effect flavor pc w).flags
    then 1 else 0 :=
  effect_induction
    (motive := fun e ↦ e.delaySlots =
      if e.flags.isBranch = true ∧ .canChangeModes ∉ e.flags then 1 else 0)
    flavor pc w (by decide) fun i ↦ by
      simp only [i.delaySlots_effect, i.hasDelaySlot_iff pc]

theorem isReturn_effect_iff :
    (effect flavor pc w).flags.isBranch = true ∧ .canChangeModes ∈ (effect flavor pc w).flags ↔
      w = Assembler.eret := by
  rw [← Insn.ofWord?_eq_return_iff]
  unfold effect
  cases hdecode : Insn.decode? flavor w with
  | none =>
    refine iff_of_false (by dsimp only; decide) fun hword ↦ ?_
    rw [Insn.decode?_eq_some_iff.mpr ⟨hword, rfl⟩] at hdecode
    cases hdecode
  | some insn =>
    have hword := (Insn.decode?_eq_some_iff.mp hdecode).1
    rw [hword, Option.some.injEq]
    exact insn.isBranch_and_canChangeModes_iff pc

/-- An encoding that is no instruction has the effect of none. -/
theorem effect_eq_invalid (h : .invalidOpcode ∈ (effect flavor pc w).flags) :
    effect flavor pc w = .invalid := by
  unfold effect at h ⊢
  split at h
  · exact absurd h (Insn.invalidOpcode_notMem_effect _ pc)
  · rfl

end Effect

/-- What every analysis of a fetched word satisfies. -/
structure WellFormed (a : Analysis) : Prop where
  flags : a.flags.Coherent
  skipSlots : a.skipSlots = if .likelyBranch ∈ a.flags then 1 else 0
  delaySlots : a.delaySlots = if a.isBranch = true ∧ .canChangeModes ∉ a.flags then 1 else 0
  isReturn : a.isBranch = true ∧ .canChangeModes ∈ a.flags ↔ a.opcode = Assembler.eret
  isBranch_of_target : a.target.isSome = true → a.isBranch = true
  target_of_conditional : .conditionalBranch ∈ a.flags → a.target.isSome = true
  target_mod : a.pc.IsAligned → ∀ t ∈ a.target, t.toNat % 4 = a.pc.toNat % 4
  reads : ∀ r ∈ a.reads, r.IsVariable
  writes : ∀ r ∈ a.writes, r.IsVariable
  -- what an encoding asks for before it turns out to be none is forgotten
  invalid : .invalidOpcode ∈ a.flags →
    a.flags = {.invalidOpcode, .willCauseException, .endSequence} ∧ a.reads = ∅ ∧ a.writes = ∅ ∧
      a.target = none ∧ a.delaySlots = 0 ∧ a.skipSlots = 0 ∧ a.argument = none

/-- Every word at every address is analysed well on every processor model. -/
theorem wellFormed_decoded (flavor : Flavor) (source : Source) (pc : VirtAddr) (phys : PhysAddr) :
    (decoded flavor source pc phys).WellFormed := by
  let w := source.fetchOpcode phys
  exact {
    flags := Flags.coherent_of_mem_flagSets (flags_effect_mem flavor pc w)
    skipSlots := skipSlots_effect flavor pc w
    delaySlots := delaySlots_effect flavor pc w
    isReturn := isReturn_effect_iff flavor pc w
    isBranch_of_target := effect_induction
      (motive := fun e ↦ e.target.isSome = true → e.flags.isBranch = true)
      flavor pc w (by decide) fun i ↦ i.isBranch_of_isSome_target
    target_of_conditional := effect_induction
      (motive := fun e ↦ .conditionalBranch ∈ e.flags → e.target.isSome = true)
      flavor pc w (by decide) fun i ↦ i.isSome_target_of_conditionalBranch
    target_mod := fun hpc ↦ effect_induction
      (motive := fun e ↦ ∀ t ∈ e.target, t.toNat % 4 = pc.toNat % 4)
      flavor pc w (fun t ht ↦ by cases ht) fun i t ht ↦ i.toNat_target_mod hpc ht
    reads := fun r ↦ RegSet.isVariable_of_mem_withoutZero <| effect_induction
      (motive := fun e ↦ ∀ n, .misc n ∈ e.reads → (Register.misc n).IsVariable)
      flavor pc w (fun n hn ↦ absurd hn (RegSet.not_mem_empty _))
      fun i n hn ↦ i.isVariable_of_mem_reads hn
    writes := fun r ↦ RegSet.isVariable_of_mem_withoutZero <| effect_induction
      (motive := fun e ↦ ∀ n, .misc n ∈ e.writes → (Register.misc n).IsVariable)
      flavor pc w (fun n hn ↦ absurd hn (RegSet.not_mem_empty _))
      fun i n hn ↦ i.isVariable_of_mem_writes hn
    invalid := fun hinvalid ↦ by
      have heffect : effect flavor pc w = .invalid := effect_eq_invalid flavor pc w hinvalid
      have heq : decoded flavor source pc phys =
          ofEffect pc phys w (source.fetchArgument phys) .invalid := by rw [← heffect]; rfl
      rw [heq]
      exact ⟨rfl, RegSet.withoutZero_empty, RegSet.withoutZero_empty, rfl, rfl, rfl, rfl⟩ }

end Analysis

end MipsBlocks
