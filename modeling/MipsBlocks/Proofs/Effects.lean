import MipsBlocks.Block.Site
import Mathlib.Tactic.SplitIfs

/-!
# What one address says by itself

The analysis of an address comes from the decoder or is the stand-in for an address that cannot be
fetched. `Effect.flagSets` lists the sets of flags that an instruction can have,
`Insn.skipSlots_effect` ties the skipped delay slot to the flag of likely branches, and the targets
of branches and jumps are words (`toNat_branchTarget_mod`, `toNat_jumpTarget`). From them come the
facts about `Analysis.describe` that the rest of the theory reads: every analysis is one
instruction long (`length_describe`), it is a stand-in exactly where the translation fails
(`isFault_describe_iff`), and it has none of the flags that only a block can give
(`notMem_flags_describe`).
-/

set_option autoImplicit false
set_option relaxedAutoImplicit false

namespace MipsBlocks

/-! ### Targets -/

/-- A relative branch goes a whole number of words away. -/
theorem toNat_branchTarget_mod (pc : VirtAddr) (offset : BitVec 16) :
    (branchTarget pc offset).toNat % 4 = pc.toNat % 4 := by
  have hwords : (offset.signExtend 64 <<< 2).toNat % 4 = 0 := by
    rw [BitVec.toNat_shiftLeft, Nat.shiftLeft_eq]
    omega
  have hfour : (4#64).toNat = 4 := rfl
  simp only [branchTarget, VirtAddr.toNat_add]
  omega

/-- A jump goes to a word of the region of its delay slot. -/
theorem toNat_jumpTarget (pc : VirtAddr) (index : BitVec 26) :
    (jumpTarget pc index).toNat =
      (pc + 4#64).toNat / 0x10000000 * 0x10000000 + 4 * index.toNat := by
  have hmask : ∀ i : Fin 64, (~~~0x0fffffff#64).getLsbD i = decide (28 ≤ i.val) := by decide
  have hregion : (pc + 4#64).select (~~~0x0fffffff#64) = ((pc + 4#64).bits >>> 28) <<< 28 := by
    refine BitVec.eq_of_getLsbD_eq fun i hi ↦ ?_
    rw [VirtAddr.select, BitVec.getLsbD_and, hmask ⟨i, hi⟩, BitVec.getLsbD_shiftLeft,
      BitVec.getLsbD_ushiftRight]
    by_cases h : 28 ≤ i
    · simp [h, hi, Nat.not_lt_of_le h, Nat.add_sub_cancel' h]
    · simp [h, Nat.lt_of_not_le h]
  have hindex := index.isLt
  have hupper := (pc + 4#64).toNat_lt
  have hbits : (pc + 4#64).bits.toNat = (pc + 4#64).toNat := rfl
  rw [jumpTarget, hregion]
  show (((pc + 4#64).bits >>> 28) <<< 28 ||| index.setWidth 64 <<< 2).toNat = _
  rw [BitVec.toNat_or, BitVec.toNat_shiftLeft, BitVec.toNat_shiftLeft, BitVec.toNat_ushiftRight,
    BitVec.toNat_setWidth, Nat.shiftRight_eq_div_pow, Nat.shiftLeft_eq, Nat.shiftLeft_eq, hbits,
    Nat.mod_eq_of_lt (by omega), Nat.mod_eq_of_lt (by omega), Nat.mod_eq_of_lt (by omega),
    Nat.mul_comm _ (2 ^ 28), ← Nat.two_pow_add_eq_or_of_lt (by omega)]
  omega

theorem isAligned_jumpTarget (pc : VirtAddr) (index : BitVec 26) :
    (jumpTarget pc index).IsAligned := by
  rw [VirtAddr.IsAligned, toNat_jumpTarget]
  omega

/-! ### Effects -/

/-- The flags that decoding an instruction can give. The others depend on the block around it. -/
def Flags.ofDecoder : Flags :=
  {.conditionalBranch, .unconditionalBranch, .likelyBranch, .endSequence, .invalidOpcode,
    .willCauseException, .canCauseException, .readsMemory, .writesMemory, .modifiesTranslation,
    .canChangeModes, .canExposeExternalInterrupt}

/-- The sets of flags that instructions have, and the one of an encoding that is no instruction. -/
def Effect.flagSets : List Flags :=
  [∅, {.canCauseException}, {.canCauseException, .readsMemory}, {.canCauseException, .writesMemory},
    {.canCauseException, .modifiesTranslation}, {.canCauseException, .canExposeExternalInterrupt},
    {.canCauseException, .canExposeExternalInterrupt, .canChangeModes, .endSequence},
    {.canCauseException, .canChangeModes, .unconditionalBranch, .endSequence},
    {.willCauseException, .endSequence}, {.invalidOpcode, .willCauseException, .endSequence},
    {.unconditionalBranch, .endSequence},
    {.canCauseException, .unconditionalBranch, .endSequence}, {.conditionalBranch},
    {.canCauseException, .conditionalBranch}, {.conditionalBranch, .likelyBranch},
    {.canCauseException, .conditionalBranch, .likelyBranch}]

namespace Effect

section Branch

variable (cond : Cond) (likely : Bool) (target : VirtAddr)

theorem flags_branch : (branch cond likely target).flags =
    (if cond.isConstant then {.unconditionalBranch, .endSequence}
      else if likely then {.conditionalBranch, .likelyBranch} else {.conditionalBranch}) ∪
    if cond.needsCoprocessor then {.canCauseException} else ∅ := by
  unfold branch
  dsimp only
  split <;> rfl

theorem reads_branch : (branch cond likely target).reads =
    if cond.isConstant then ∅ else cond.reads := by
  unfold branch
  dsimp only
  split <;> rfl

theorem target_branch : (branch cond likely target).target = some target := by
  unfold branch
  dsimp only
  split <;> rfl

theorem delaySlots_branch : (branch cond likely target).delaySlots = 1 := by
  unfold branch
  dsimp only
  split <;> rfl

theorem skipSlots_branch : (branch cond likely target).skipSlots =
    if .likelyBranch ∈ (branch cond likely target).flags then 1 else 0 := by
  unfold branch
  cases likely <;> by_cases hconst : cond.isConstant = true <;>
    by_cases hcop : cond.needsCoprocessor = true <;> simp [hconst, hcop, jump]

theorem flags_branch_mem : (branch cond likely target).flags ∈ flagSets.erase invalid.flags := by
  rw [flags_branch]
  split_ifs <;> decide

theorem isBranch_branch : (branch cond likely target).flags.isBranch = true := by
  rw [flags_branch]
  split_ifs <;> decide

end Branch

end Effect

namespace Insn

/-- An instruction has none of the flags of an encoding that is no instruction. -/
theorem flags_effect_mem_erase (insn : Insn) (pc : VirtAddr) :
    (insn.effect pc).flags ∈ Effect.flagSets.erase Effect.invalid.flags := by
  unfold effect
  cases insn with
  | moveToSystem rt rd =>
    dsimp only [SystemRegister.writeFlags]
    split_ifs <;> decide
  | branch cond likely link offset => exact Effect.flags_branch_mem cond likely _
  | system op => cases op <;> dsimp only <;> decide
  | alu traps _ _ _ => cases traps <;> dsimp only <;> decide
  | aluImmediate traps _ _ => cases traps <;> dsimp only <;> decide
  | _ =>
    dsimp only [Effect.jump]
    decide

theorem flags_effect_mem (insn : Insn) (pc : VirtAddr) :
    (insn.effect pc).flags ∈ Effect.flagSets :=
  List.mem_of_mem_erase (insn.flags_effect_mem_erase pc)

/-- Exactly the likely branches skip a slot when they are not taken. -/
theorem skipSlots_effect (insn : Insn) (pc : VirtAddr) :
    (insn.effect pc).skipSlots =
      if .likelyBranch ∈ (insn.effect pc).flags then 1 else 0 := by
  unfold effect
  cases insn with
  | moveToSystem rt rd =>
    have hwrite : Flag.likelyBranch ∉ SystemRegister.writeFlags rd := by
      unfold SystemRegister.writeFlags
      split_ifs <;> decide
    simp [hwrite]
  | branch cond likely link offset => exact Effect.skipSlots_branch cond likely _
  | system op => cases op <;> simp
  | alu traps _ _ _ => cases traps <;> simp
  | aluImmediate traps _ _ => cases traps <;> simp
  | _ => simp [Effect.jump]

end Insn

/-! ### Analyses -/

namespace Analysis

/-- The effect of a word has the properties that every effect of an instruction has, if the one of
an encoding that is no instruction has them. -/
theorem effect_induction {motive : Effect → Prop} (flavor : Flavor) (pc : VirtAddr) (w : Word)
    (invalid : motive .invalid) (insn : ∀ i : Insn, motive (i.effect pc)) :
    motive (effect flavor pc w) := by
  unfold effect
  split
  · exact insn _
  · exact invalid

theorem flags_effect_mem (flavor : Flavor) (pc : VirtAddr) (w : Word) :
    (effect flavor pc w).flags ∈ Effect.flagSets :=
  effect_induction (motive := fun e ↦ e.flags ∈ Effect.flagSets) flavor pc w (by decide)
    fun i ↦ i.flags_effect_mem pc

theorem flags_effect_subset (flavor : Flavor) (pc : VirtAddr) (w : Word) :
    (effect flavor pc w).flags ⊆ Flags.ofDecoder := by
  have hsets : ∀ s ∈ Effect.flagSets, s ⊆ Flags.ofDecoder := by decide
  exact hsets _ (flags_effect_mem flavor pc w)

/-- What ends its sequence without being a jump or raising an exception may switch modes. -/
theorem canChangeModes_of_endSequence {flavor : Flavor} {pc : VirtAddr} {w : Word}
    (hends : .endSequence ∈ (effect flavor pc w).flags)
    (hjump : .unconditionalBranch ∉ (effect flavor pc w).flags)
    (hraises : .willCauseException ∉ (effect flavor pc w).flags) :
    .canChangeModes ∈ (effect flavor pc w).flags := by
  have hsets : ∀ s ∈ Effect.flagSets, .endSequence ∈ s → Flag.unconditionalBranch ∉ s →
      Flag.willCauseException ∉ s → Flag.canChangeModes ∈ s := by decide
  exact hsets _ (flags_effect_mem flavor pc w) hends hjump hraises

theorem skipSlots_effect (flavor : Flavor) (pc : VirtAddr) (w : Word) :
    (effect flavor pc w).skipSlots =
      if .likelyBranch ∈ (effect flavor pc w).flags then 1 else 0 :=
  effect_induction (motive := fun e ↦ e.skipSlots = if .likelyBranch ∈ e.flags then 1 else 0)
    flavor pc w (by decide) fun i ↦ i.skipSlots_effect pc

section Describe

variable (flavor : Flavor) (space : AddressSpace) (source : Source) (pc : VirtAddr)

/-- An analysis is the decoder's or the stand-in's. -/
theorem describe_cases :
    (∃ phys, source.translate space pc = some phys ∧
      describe flavor space source pc = decoded flavor source pc phys) ∨
    (source.translate space pc = none ∧ describe flavor space source pc = fault pc) := by
  unfold describe
  cases htranslate : source.translate space pc with
  | some phys => exact Or.inl ⟨phys, rfl, rfl⟩
  | none => exact Or.inr ⟨rfl, rfl⟩

@[simp] theorem pc_describe : (describe flavor space source pc).pc = pc := by
  rcases describe_cases flavor space source pc with ⟨phys, -, h⟩ | ⟨-, h⟩ <;> rw [h] <;> rfl

@[simp] theorem length_describe : (describe flavor space source pc).length = insnWidth := by
  rcases describe_cases flavor space source pc with ⟨phys, -, h⟩ | ⟨-, h⟩ <;> rw [h] <;> rfl

theorem skipSlots_describe : (describe flavor space source pc).skipSlots =
    if .likelyBranch ∈ (describe flavor space source pc).flags then 1 else 0 := by
  rcases describe_cases flavor space source pc with ⟨phys, -, h⟩ | ⟨-, h⟩
  · rw [h]
    exact skipSlots_effect flavor pc (source.fetchOpcode phys)
  · rw [h]
    show 0 = if .likelyBranch ∈ faultFlags then 1 else 0
    decide

theorem skipSlots_describe_le : (describe flavor space source pc).skipSlots ≤ 1 := by
  rw [skipSlots_describe]
  split <;> decide

theorem flags_describe_subset :
    (describe flavor space source pc).flags ⊆ Flags.ofDecoder ∪ faultFlags := by
  intro f hf
  rcases describe_cases flavor space source pc with ⟨phys, -, h⟩ | ⟨-, h⟩
  · rw [h] at hf
    exact Flags.mem_union.2 (.inl (flags_effect_subset flavor pc _ f hf))
  · rw [h] at hf
    exact Flags.mem_union.2 (.inr hf)

theorem isKnown_flags_describe : (describe flavor space source pc).flags.IsKnown := by
  rcases describe_cases flavor space source pc with ⟨phys, -, h⟩ | ⟨-, h⟩
  · have hsets : ∀ s ∈ Effect.flagSets, s.IsKnown := by decide
    rw [h]
    exact hsets _ (flags_effect_mem flavor pc _)
  · rw [h]
    exact (by decide : faultFlags.IsKnown)

/-- Being a branch target, or one of an intrablock branch, is a matter of the block. -/
theorem notMem_flags_describe {f : Flag} (hf : f ∉ Flags.ofDecoder ∪ faultFlags) :
    f ∉ (describe flavor space source pc).flags :=
  fun h ↦ hf (flags_describe_subset flavor space source pc f h)

/-- An analysis is a stand-in exactly where the address cannot be fetched. -/
theorem isFault_describe_iff :
    (describe flavor space source pc).isFault = true ↔ source.translate space pc = none := by
  rcases describe_cases flavor space source pc with ⟨phys, htranslate, h⟩ | ⟨htranslate, h⟩
  · have hnot : Flag.compilerPageFault ∉ (decoded flavor source pc phys).flags := fun hf ↦
      absurd (flags_effect_subset flavor pc _ _ hf) (by decide)
    simpa [h, htranslate, isFault] using hnot
  · simp only [h, htranslate, iff_true]
    show decide (Flag.compilerPageFault ∈ faultFlags) = true
    decide

theorem isBranch_fault : (fault pc).isBranch = false := by
  show faultFlags.isBranch = false
  decide

theorem endsSequence_fault : (fault pc).endsSequence = true := by
  show decide (Flag.endSequence ∈ faultFlags) = true
  decide

end Describe

end Analysis

/-- What is known of an address by itself, without regard to any block. -/
def Config.analyze (config : Config) (source : Source) (pc : VirtAddr) : Analysis :=
  .describe config.flavor config.addressSpace source pc

/-- A flag that no instruction has marks a stand-in. -/
theorem Config.translate_eq_none_of_mem_flags {config : Config} {source : Source} {pc : VirtAddr}
    {f : Flag} (hf : f ∉ Flags.ofDecoder) (h : f ∈ (config.analyze source pc).flags) :
    source.translate config.addressSpace pc = none := by
  rcases Analysis.describe_cases config.flavor config.addressSpace source pc with
    ⟨phys, -, heq⟩ | ⟨hnone, -⟩
  · rw [analyze, heq] at h
    exact absurd (Analysis.flags_effect_subset config.flavor pc _ f h) hf
  · exact hnone

/-- What can be fetched and ends its sequence is a jump, raises an exception or may switch modes. -/
theorem Config.canChangeModes_of_endsSequence {config : Config} {source : Source} {pc : VirtAddr}
    (hfetched : source.translate config.addressSpace pc ≠ none)
    (hends : (config.analyze source pc).endsSequence = true)
    (hjump : .unconditionalBranch ∉ (config.analyze source pc).flags)
    (hraises : .willCauseException ∉ (config.analyze source pc).flags) :
    .canChangeModes ∈ (config.analyze source pc).flags := by
  rcases Analysis.describe_cases config.flavor config.addressSpace source pc with
    ⟨phys, -, heq⟩ | ⟨hnone, -⟩
  · rw [analyze, heq] at hends hjump hraises ⊢
    exact Analysis.canChangeModes_of_endSequence (of_decide_eq_true hends) hjump hraises
  · exact absurd hnone hfetched

/-- A likely branch falls through past its delay slot, everything else to the next word. -/
theorem Config.toNat_fallthrough_analyze (config : Config) (source : Source) (pc : VirtAddr) :
    (config.analyze source pc).fallthrough.toNat =
      (pc.toNat + if .likelyBranch ∈ (config.analyze source pc).flags then 8 else 4) %
        0x10000000000000000 := by
  have hskip : (config.analyze source pc).skipSlots =
      if .likelyBranch ∈ (config.analyze source pc).flags then 1 else 0 :=
    Analysis.skipSlots_describe ..
  have hpc : (config.analyze source pc).pc = pc := Analysis.pc_describe ..
  have hlength : (config.analyze source pc).length = insnWidth := Analysis.length_describe ..
  rw [Analysis.fallthrough, VirtAddr.toNat_add, hpc, hlength, hskip]
  by_cases hlikely : Flag.likelyBranch ∈ (config.analyze source pc).flags
  · rw [if_pos hlikely, if_pos hlikely]
    rfl
  · rw [if_neg hlikely, if_neg hlikely]
    rfl

theorem Site.node_describe (config : Config) (source : Source) (pc : VirtAddr) (order : Nat) :
    (Site.describe config source pc order).node = config.analyze source pc := rfl

theorem Site.pc_describeSlot (config : Config) (source : Source) (pc : VirtAddr) :
    (Site.describeSlot config source pc).pc = pc := Analysis.pc_describe ..

end MipsBlocks
