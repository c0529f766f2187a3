import MipsBlocks.Proofs.Effects

/-!
# Literal operands

`Word.CarriesLiteral` is the table of the words whose format has literal operand data, by primary
opcode. The decoder agrees with it: a word has an argument exactly if it is in the table and an
instruction of the processor model (`Analysis.literal_effect_iff`).
-/

set_option autoImplicit false
set_option relaxedAutoImplicit false

namespace MipsBlocks

/-! ### The table -/

namespace Word

/-- Arithmetic on a register and a literal. -/
def immediateOpcodes : List Nat :=
  [0x08, 0x09, 0x0a, 0x0b, 0x0c, 0x0d, 0x0e, 0x0f, 0x18, 0x19]

def loadOpcodes : List Nat :=
  [0x1a, 0x1b, 0x20, 0x21, 0x22, 0x23, 0x24, 0x25, 0x26, 0x27, 0x30, 0x31, 0x32, 0x34, 0x35, 0x36,
    0x37]

def storeOpcodes : List Nat :=
  [0x28, 0x29, 0x2a, 0x2b, 0x2c, 0x2d, 0x2e, 0x38, 0x39, 0x3a, 0x3c, 0x3d, 0x3e, 0x3f]

/-- Cache operations and prefetches. -/
def cacheOpcodes : List Nat := [0x2f, 0x33]

/-- The primary opcodes whose words carry literal operand data whatever else is in them. -/
def literalOpcodes : List Nat := immediateOpcodes ++ loadOpcodes ++ storeOpcodes ++ cacheOpcodes

/-- The traps on a register and a literal, among the branches on the sign of a register. -/
def trapSelectors : List Nat := [0x08, 0x09, 0x0a, 0x0b, 0x0c, 0x0e]

/-- Whether the format of a word has literal operand data. -/
def CarriesLiteral (w : Word) : Prop :=
  w.primary.toNat ∈ literalOpcodes ∨ (w.primary.toNat = 0x01 ∧ w.rt.toNat ∈ trapSelectors)

instance (w : Word) : Decidable w.CarriesLiteral := inferInstanceAs (Decidable (_ ∨ _))

end Word

/-! ### The decoder -/

theorem Effect.literal_branch (cond : Cond) (likely : Bool) (target : VirtAddr) :
    (branch cond likely target).literal = false := by
  unfold branch
  dsimp only
  split <;> rfl

namespace Insn

/-- The instructions with literal operand data. -/
def hasLiteral : Insn → Bool
  | trapImmediate .. | aluImmediate .. | loadUpper .. | load .. | store .. => true
  | cache .. | prefetch .. => true
  | _ => false

theorem literal_effect (insn : Insn) (pc : VirtAddr) :
    (insn.effect pc).literal = insn.hasLiteral := by
  cases insn with
  | branch cond likely link offset => exact Effect.literal_branch ..
  | _ => rfl

section OfWord

variable {w : Word} {insn : Insn}

theorem hasLiteral_of_special? (h : special? w = some insn) : insn.hasLiteral = false := by
  unfold special? at h
  split at h <;> cases h <;> rfl

theorem hasLiteral_iff_of_signGroup? (h : signGroup? w = some insn) :
    insn.hasLiteral = true ↔ w.rt.toNat ∈ Word.trapSelectors := by
  unfold signGroup? at h
  split at h <;> cases h <;> simp_all [hasLiteral, Word.trapSelectors]

theorem hasLiteral_of_systemGroup? (h : systemGroup? w = some insn) :
    insn.hasLiteral = false := by
  have hsystem : ∀ op?, Option.map system op? = some insn → insn.hasLiteral = false := by
    intro op? hop
    obtain ⟨op, -, rfl⟩ := Option.map_eq_some_iff.mp hop
    rfl
  unfold systemGroup? at h
  repeat' split at h
  all_goals first
    | exact hsystem _ h
    | cases h <;> rfl

theorem hasLiteral_of_fpuArithmetic? (h : fpuArithmetic? w = some insn) :
    insn.hasLiteral = false := by
  unfold fpuArithmetic? at h
  repeat' split at h
  all_goals cases h <;> rfl

theorem hasLiteral_of_fpuGroup? (h : fpuGroup? w = some insn) : insn.hasLiteral = false := by
  unfold fpuGroup? at h
  repeat' split at h
  all_goals first
    | exact hasLiteral_of_fpuArithmetic? h
    | cases h <;> rfl

theorem hasLiteral_of_fpuIndexed? (h : fpuIndexed? w = some insn) : insn.hasLiteral = false := by
  unfold fpuIndexed? at h
  split at h <;> cases h <;> rfl

theorem hasLiteral_of_vendor? (h : vendor? w = some insn) : insn.hasLiteral = false := by
  unfold vendor? at h
  split at h <;> cases h <;> rfl

/-- The instruction of a word has a literal exactly if the word is in the table. -/
theorem hasLiteral_iff_of_ofWord? (h : ofWord? w = some insn) :
    insn.hasLiteral = true ↔ w.CarriesLiteral := by
  -- but for the group of the traps, the primary opcode decides
  have hopcode : ∀ n, w.primary.toNat = n → n ≠ 0x01 →
      insn.hasLiteral = decide (n ∈ Word.literalOpcodes) →
      (insn.hasLiteral = true ↔ w.CarriesLiteral) := by
    rintro n rfl hne heq
    rw [heq, decide_eq_true_iff]
    exact (or_iff_left fun htrap ↦ hne htrap.1).symm
  have htrap : w.primary.toNat = 0x01 → signGroup? w = some insn →
      (insn.hasLiteral = true ↔ w.CarriesLiteral) := by
    intro hprimary hgroup
    have hnot : w.primary.toNat ∉ Word.literalOpcodes := by
      rw [hprimary]
      decide
    rw [hasLiteral_iff_of_signGroup? hgroup]
    exact ((or_iff_right hnot).trans (and_iff_right hprimary)).symm
  unfold ofWord? at h
  split at h
  -- the opcode is none of an instruction, or that of one instruction, or that of a group
  all_goals first
    | cases h
      done
    | rename_i hprimary
      first
      | exact hopcode _ hprimary (by decide) (Option.some.inj h ▸ rfl)
      | exact hopcode _ hprimary (by decide) (hasLiteral_of_special? h)
      | exact hopcode _ hprimary (by decide) (hasLiteral_of_systemGroup? h)
      | exact hopcode _ hprimary (by decide) (hasLiteral_of_fpuGroup? h)
      | exact hopcode _ hprimary (by decide) (hasLiteral_of_fpuIndexed? h)
      | exact hopcode _ hprimary (by decide) (hasLiteral_of_vendor? h)
      | exact htrap hprimary h

end OfWord

end Insn

namespace Analysis

/-- A word has an argument exactly if it is an instruction of the model and its format has literal
operand data. -/
theorem literal_effect_iff (flavor : Flavor) (pc : VirtAddr) (w : Word) :
    (effect flavor pc w).literal = true ↔
      (Insn.decode? flavor w).isSome = true ∧ w.CarriesLiteral := by
  unfold effect
  cases hdecode : Insn.decode? flavor w with
  | none => simp [Effect.invalid]
  | some insn =>
    have hword := (Insn.decode?_eq_some_iff.mp hdecode).1
    simpa [Insn.literal_effect] using Insn.hasLiteral_iff_of_ofWord? hword

end Analysis

end MipsBlocks
