import MipsBlocks.Proofs.Branches
import Mathlib.Tactic.FinCases

/-!
# Instruction-set levels

A processor model of a higher instruction-set level has every instruction of a lower one, with the
same effect, but for the vendor group, which only one model has. `Addition` is the table of the
encodings that the level MIPS IV adds. An instruction asks of the processor what its word does
(`Insn.requirement_of_ofWord?`), which is that level exactly if the word is in the table
(`Word.requirement_eq_mips4_iff`). The main statement is `Analysis.levelled_decoded`: it compares
the analyses of one word on any two models.
-/

set_option autoImplicit false
set_option relaxedAutoImplicit false

namespace MipsBlocks

/-! ### Models -/

theorem IsaLevel.le_trans {a b c : IsaLevel} (hab : a ≤ b) (hbc : b ≤ c) : a ≤ c :=
  Nat.le_trans (m := b.rank) hab hbc

/-- What a model provides, a model of a higher level provides as well, the vendor group apart. -/
theorem Flavor.provides_of_le {f g : Flavor} {r : Requirement} (hle : f.isaLevel ≤ g.isaLevel)
    (hr : r ≠ .idt) (h : f.provides r = true) : g.provides r = true := by
  cases r with
  | base => rfl
  | mips4 => exact decide_eq_true (IsaLevel.le_trans (of_decide_eq_true h) hle)
  | idt => exact absurd rfl hr

/-- What tells the models of the two levels apart is the higher level itself: the model with the
vendor group is of the lower one. -/
theorem Flavor.provides_and_not_provides_iff {f g : Flavor} {r : Requirement}
    (hf : f.isaLevel = .mips3) (hg : g.isaLevel = .mips4) :
    g.provides r = true ∧ ¬ f.provides r = true ↔ r = .mips4 := by
  cases r with
  | base => simp [provides]
  | mips4 =>
    simp only [provides, hf, hg]
    decide
  | idt =>
    have hvendor : ¬ g.hasIdtExtensions = true := fun h ↦ by
      obtain rfl : g = r4650 := of_decide_eq_true h
      cases hg
    simp [provides, hvendor]

/-! ### The table -/

/-- The groups of encodings that the level MIPS IV adds. -/
inductive Addition where
  /-- Conditional moves between integer registers. -/
  | conditionalMove
  | prefetch
  /-- Indexed memory accesses and multiply-and-add of the floating-point coprocessor. -/
  | fpuIndexed
  /-- Conditional moves and reciprocals of the floating-point coprocessor. -/
  | fpuArithmetic
  deriving DecidableEq

namespace Addition

def all : List Addition := [conditionalMove, prefetch, fpuIndexed, fpuArithmetic]

theorem mem_all (a : Addition) : a ∈ all := by cases a <;> decide

/-- The primary opcode of a group, which other encodings may share. -/
def opcode : Addition → Nat
  | conditionalMove => 0x00
  | prefetch => 0x33
  | fpuIndexed => 0x13
  | fpuArithmetic => 0x11

/-- The secondary opcodes of the conditional moves between integer registers. -/
def moveFuncts : List Nat := [0x01, 0x0a, 0x0b]

/-- The secondary opcodes of the indexed memory accesses and multiply-and-add. -/
def indexedFuncts : List Nat :=
  [0x00, 0x01, 0x08, 0x09, 0x0f, 0x20, 0x21, 0x28, 0x29, 0x30, 0x31, 0x38, 0x39]

/-- The values of the format field of floating-point arithmetic. -/
def formats : List Nat := [0x10, 0x11, 0x14, 0x15]

/-- The secondary opcodes of the conditional moves and reciprocals in floating-point arithmetic. -/
def arithmeticFuncts : List Nat := [0x11, 0x12, 0x13, 0x15, 0x16]

/-- What the other fields of a word of the group hold. -/
def Selects (w : Word) : Addition → Prop
  | conditionalMove => w.funct.toNat ∈ moveFuncts
  | prefetch => True
  | fpuIndexed => w.funct.toNat ∈ indexedFuncts
  | fpuArithmetic => w.fmt.toNat ∈ formats ∧ w.funct.toNat ∈ arithmeticFuncts

instance (w : Word) : (a : Addition) → Decidable (a.Selects w)
  | conditionalMove => inferInstanceAs (Decidable (_ ∈ _))
  | prefetch => .isTrue trivial
  | fpuIndexed => inferInstanceAs (Decidable (_ ∈ _))
  | fpuArithmetic => inferInstanceAs (Decidable (_ ∧ _))

/-- The words of a group. -/
def Encodes (a : Addition) (w : Word) : Prop := w.primary.toNat = a.opcode ∧ a.Selects w

theorem eq_of_opcode_eq {a b : Addition} (h : a.opcode = b.opcode) : a = b := by
  cases a <;> cases b <;> first | rfl | cases h

/-- A word is in one group at most. -/
theorem Encodes.unique {a b : Addition} {w : Word} (ha : a.Encodes w) (hb : b.Encodes w) :
    a = b :=
  eq_of_opcode_eq (ha.1.symm.trans hb.1)

instance (a : Addition) (w : Word) : Decidable (a.Encodes w) :=
  inferInstanceAs (Decidable (_ ∧ _))

instance (w : Word) : Decidable (∃ a : Addition, a.Encodes w) :=
  decidable_of_iff (∃ a ∈ all, a.Encodes w) (exists_congr fun a ↦ and_iff_right (mem_all a))

end Addition

namespace Word

/-- The primary opcode of the vendor group. -/
def vendorOpcode : Nat := 0x1c

/-- What a word asks of the processor if it is an instruction. -/
def requirement (w : Word) : Requirement :=
  if w.primary.toNat = vendorOpcode then .idt
  else if ∃ a : Addition, a.Encodes w then .mips4
  else .base

variable {w : Word}

theorem requirement_of_vendor (h : w.primary.toNat = vendorOpcode) : w.requirement = .idt :=
  if_pos h

theorem requirement_of_opcode {a : Addition} (h : w.primary.toNat = a.opcode) :
    w.requirement = if a.Selects w then .mips4 else .base := by
  have hvendor : w.primary.toNat ≠ vendorOpcode := by
    rw [h]
    cases a <;> decide
  have hexists : (∃ b : Addition, b.Encodes w) ↔ a.Selects w := by
    refine ⟨?_, fun hselects ↦ ⟨a, h, hselects⟩⟩
    rintro ⟨b, hprimary, hselects⟩
    rwa [Addition.eq_of_opcode_eq (h.symm.trans hprimary)]
  simp only [requirement, if_neg hvendor, hexists]

theorem requirement_of_ne (hvendor : w.primary.toNat ≠ vendorOpcode)
    (hne : ∀ a ∈ Addition.all, w.primary.toNat ≠ a.opcode) : w.requirement = .base := by
  rw [requirement, if_neg hvendor, if_neg]
  rintro ⟨a, hprimary, -⟩
  exact hne a (Addition.mem_all a) hprimary

theorem requirement_eq_mips4_iff : w.requirement = .mips4 ↔ ∃ a : Addition, a.Encodes w := by
  constructor
  · intro h
    unfold requirement at h
    split_ifs at h
    assumption
  · rintro ⟨a, hprimary, hselects⟩
    rw [requirement_of_opcode hprimary, if_pos hselects]

end Word

/-! ### Instructions -/

namespace Insn

section OfWord

open Addition

variable {w : Word} {insn : Insn}

theorem requirement_of_special? (h : special? w = some insn) :
    insn.requirement = if w.funct.toNat ∈ moveFuncts then .mips4 else .base := by
  unfold special? at h
  split at h
  all_goals first
    | cases h
      done
    | rename_i hfunct
      rw [hfunct]
      cases h
      rfl

theorem requirement_of_signGroup? (h : signGroup? w = some insn) : insn.requirement = .base := by
  unfold signGroup? at h
  split at h <;> cases h <;> rfl

theorem requirement_of_systemGroup? (h : systemGroup? w = some insn) :
    insn.requirement = .base := by
  have hsystem (op? : Option SystemOp) (hop : op?.map system = some insn) :
      insn.requirement = .base := by
    obtain ⟨op, -, rfl⟩ := Option.map_eq_some_iff.mp hop
    rfl
  unfold systemGroup? at h
  repeat' split at h
  all_goals first
    | exact hsystem _ h
    | cases h <;> rfl

theorem requirement_of_fpuArithmetic? (h : fpuArithmetic? w = some insn) :
    insn.requirement = if w.funct.toNat ∈ arithmeticFuncts then .mips4 else .base := by
  unfold fpuArithmetic? at h
  split at h
  case h_26 =>
    -- the comparisons are above all secondary opcodes of the level
    split at h
    case isTrue hcompare =>
      cases h
      refine (if_neg fun hmem ↦ ?_).symm
      have hall : ∀ n ∈ arithmeticFuncts, n < 0x30 := by decide
      exact absurd (hall _ hmem) (Nat.not_lt.mpr hcompare)
    case isFalse => cases h
  all_goals
    rename_i hfunct
    rw [hfunct]
    cases h
    rfl

theorem mem_formats_iff (fmt : Reg) :
    fmt.toNat ∈ formats ↔ fmt ∈ FpuFormat.all.map FpuFormat.code := by
  revert fmt
  decide

theorem requirement_of_fpuGroup? (h : fpuGroup? w = some insn) :
    insn.requirement = if fpuArithmetic.Selects w then .mips4 else .base := by
  have hmove (hfmt : w.fmt.toNat ∉ formats) (hbase : insn.requirement = .base) :
      insn.requirement = if fpuArithmetic.Selects w then .mips4 else .base :=
    hbase.trans (if_neg fun hselects ↦ hfmt hselects.1).symm
  have hfmt : w.fmt = w.rs := rfl
  unfold fpuGroup? at h
  split at h
  case h_8 =>
    split at h
    case isTrue harithmetic =>
      rw [requirement_of_fpuArithmetic? h]
      simp only [Selects, mem_formats_iff, harithmetic, true_and]
    case isFalse => cases h
  all_goals
    rename_i hrs
    refine hmove (by rw [hfmt, hrs]; decide) ?_
    repeat' split at h
    all_goals cases h <;> rfl

theorem requirement_of_fpuIndexed? (h : fpuIndexed? w = some insn) :
    insn.requirement = if w.funct.toNat ∈ indexedFuncts then .mips4 else .base := by
  unfold fpuIndexed? at h
  split at h
  all_goals first
    | cases h
      done
    | rename_i hfunct
      rw [hfunct]
      cases h
      rfl

theorem requirement_of_vendor? (h : vendor? w = some insn) : insn.requirement = .idt := by
  unfold vendor? at h
  split at h <;> cases h <;> rfl

/-- An instruction asks of the processor what its word does. -/
theorem requirement_of_ofWord? (h : ofWord? w = some insn) :
    insn.requirement = w.requirement := by
  have hbase : ∀ n, w.primary.toNat = n → n ≠ Word.vendorOpcode → (∀ a ∈ all, n ≠ a.opcode) →
      insn.requirement = .base → insn.requirement = w.requirement := by
    rintro n rfl hvendor hne hbase
    rw [hbase, Word.requirement_of_ne hvendor hne]
  have haddition : ∀ a : Addition, w.primary.toNat = a.opcode →
      insn.requirement = (if a.Selects w then .mips4 else .base) →
      insn.requirement = w.requirement := by
    intro a hprimary hif
    rw [hif, Word.requirement_of_opcode hprimary]
  unfold ofWord? at h
  split at h
  -- the opcode is none of an instruction, or that of one instruction, or that of a group
  all_goals first
    | cases h
      done
    | rename_i hprimary
      first
      | exact haddition .prefetch hprimary (by cases h; rfl)
      | exact hbase _ hprimary (by decide) (by decide) (Option.some.inj h ▸ rfl)
      | exact haddition conditionalMove hprimary (requirement_of_special? h)
      | exact hbase _ hprimary (by decide) (by decide) (requirement_of_signGroup? h)
      | exact hbase _ hprimary (by decide) (by decide) (requirement_of_systemGroup? h)
      | exact haddition fpuArithmetic hprimary (requirement_of_fpuGroup? h)
      | exact haddition fpuIndexed hprimary (requirement_of_fpuIndexed? h)
      | rw [requirement_of_vendor? h, Word.requirement_of_vendor hprimary]

theorem isSome_special? (h : w.funct.toNat ∈ moveFuncts) : (special? w).isSome = true := by
  unfold special?
  generalize w.funct.toNat = n at h
  fin_cases h <;> rfl

theorem isSome_fpuIndexed? (h : w.funct.toNat ∈ indexedFuncts) :
    (fpuIndexed? w).isSome = true := by
  unfold fpuIndexed?
  generalize w.funct.toNat = n at h
  fin_cases h <;> rfl

theorem isSome_fpuArithmetic? (h : w.funct.toNat ∈ arithmeticFuncts) :
    (fpuArithmetic? w).isSome = true := by
  unfold fpuArithmetic?
  generalize w.funct.toNat = n at h
  fin_cases h <;> rfl

theorem isSome_fpuGroup? (hfmt : w.fmt.toNat ∈ formats) (h : w.funct.toNat ∈ arithmeticFuncts) :
    (fpuGroup? w).isSome = true := by
  unfold fpuGroup?
  rw [if_pos ((mem_formats_iff _).mp hfmt)]
  have hrs : w.rs.toNat ∈ formats := hfmt
  generalize w.rs.toNat = n at hrs
  fin_cases hrs <;> exact isSome_fpuArithmetic? h

/-- The words of the table are instructions. -/
theorem isSome_ofWord?_of_encodes {a : Addition} (h : a.Encodes w) :
    (ofWord? w).isSome = true := by
  obtain ⟨hprimary, hselects⟩ := h
  unfold ofWord?
  rw [hprimary]
  cases a with
  | conditionalMove => exact isSome_special? hselects
  | prefetch => rfl
  | fpuIndexed => exact isSome_fpuIndexed? hselects
  | fpuArithmetic => exact isSome_fpuGroup? hselects.1 hselects.2

end OfWord

theorem decode?_eq_filter (flavor : Flavor) (w : Word) :
    decode? flavor w = (ofWord? w).filter fun _ ↦ flavor.provides w.requirement := by
  unfold decode?
  cases hword : ofWord? w with
  | none => rfl
  | some insn =>
    rw [← requirement_of_ofWord? hword]
    rfl

theorem isSome_decode?_iff {flavor : Flavor} {w : Word} :
    (decode? flavor w).isSome = true ↔
      (ofWord? w).isSome = true ∧ flavor.provides w.requirement = true := by
  rw [decode?_eq_filter]
  cases ofWord? w <;> cases flavor.provides w.requirement <;> simp

/-- A model of a level at least as high decodes the word to the same instruction. -/
theorem decode?_eq_of_le {f g : Flavor} {w : Word} (hle : f.isaLevel ≤ g.isaLevel)
    (hvendor : w.primary.toNat ≠ Word.vendorOpcode) (h : (decode? f w).isSome = true) :
    decode? g w = decode? f w := by
  have hprovides := (isSome_decode?_iff.mp h).2
  have hidt : w.requirement ≠ .idt := by
    rw [Word.requirement, if_neg hvendor]
    split_ifs <;> decide
  rw [decode?_eq_filter, decode?_eq_filter, hprovides, Flavor.provides_of_le hle hidt hprovides]

end Insn

/-! ### Analyses -/

namespace Analysis

/-- Whether the word is an instruction of the processor model. -/
def IsInstruction (a : Analysis) : Prop := .invalidOpcode ∉ a.flags

instance (a : Analysis) : Decidable a.IsInstruction := inferInstanceAs (Decidable (¬ _))

section Decoded

variable {f g : Flavor} {source : Source} {pc : VirtAddr} {phys : PhysAddr}

theorem isInstruction_decoded_iff :
    (decoded f source pc phys).IsInstruction ↔
      (Insn.decode? f (source.fetchOpcode phys)).isSome = true := by
  show Flag.invalidOpcode ∉ (effect f pc (source.fetchOpcode phys)).flags ↔ _
  unfold effect
  cases Insn.decode? f (source.fetchOpcode phys) with
  | none => simp [Effect.invalid]
  | some insn => simpa using insn.invalidOpcode_notMem_effect pc

theorem decoded_of_decode? {insn : Insn}
    (h : Insn.decode? f (source.fetchOpcode phys) = some insn) :
    decoded f source pc phys =
      .ofEffect pc phys (source.fetchOpcode phys) (source.fetchArgument phys) (insn.effect pc) := by
  rw [decoded, effect, h]

theorem decoded_congr
    (h : Insn.decode? g (source.fetchOpcode phys) = Insn.decode? f (source.fetchOpcode phys)) :
    decoded g source pc phys = decoded f source pc phys := by
  rw [decoded, decoded, effect, effect, h]

end Decoded

/-- How the analyses of the word at one address compare between processor models. -/
structure Levelled (source : Source) (pc : VirtAddr) (phys : PhysAddr) : Prop where
  eq_of_le : ∀ f g : Flavor, (source.fetchOpcode phys).primary.toNat ≠ Word.vendorOpcode →
    (decoded f source pc phys).IsInstruction → f.isaLevel ≤ g.isaLevel →
      decoded g source pc phys = decoded f source pc phys
  eq_of_vendor : ∀ f : Flavor, (source.fetchOpcode phys).primary.toNat = Word.vendorOpcode →
    (decoded f source pc phys).IsInstruction → f = .r4650
  added_iff : ∀ f g : Flavor, f.isaLevel = .mips3 → g.isaLevel = .mips4 →
    ((decoded g source pc phys).IsInstruction ∧ ¬ (decoded f source pc phys).IsInstruction ↔
      ∃! a : Addition, a.Encodes (source.fetchOpcode phys))

/-- Higher levels only add encodings, which are those of the table, and the vendor group has its
opcode for itself. -/
theorem levelled_decoded (source : Source) (pc : VirtAddr) (phys : PhysAddr) :
    Levelled source pc phys where
  eq_of_le f g hvendor hf hle :=
    decoded_congr (Insn.decode?_eq_of_le hle hvendor (isInstruction_decoded_iff.mp hf))
  eq_of_vendor f hvendor hf := by
    have hprovides := (Insn.isSome_decode?_iff.mp (isInstruction_decoded_iff.mp hf)).2
    rw [Word.requirement_of_vendor hvendor] at hprovides
    exact of_decide_eq_true hprovides
  added_iff f g hf hg := by
    have hprovides := Flavor.provides_and_not_provides_iff
      (r := (source.fetchOpcode phys).requirement) hf hg
    rw [Word.requirement_eq_mips4_iff] at hprovides
    rw [isInstruction_decoded_iff, isInstruction_decoded_iff, Insn.isSome_decode?_iff,
      Insn.isSome_decode?_iff]
    constructor
    · rintro ⟨⟨hsome, hmodel⟩, hnot⟩
      obtain ⟨a, ha⟩ := hprovides.mp ⟨hmodel, fun h ↦ hnot ⟨hsome, h⟩⟩
      exact ⟨a, ha, fun b hb ↦ hb.unique ha⟩
    · rintro ⟨a, ha, -⟩
      obtain ⟨hmodel, hnot⟩ := hprovides.mpr ⟨a, ha⟩
      exact ⟨⟨Insn.isSome_ofWord?_of_encodes ha, hmodel⟩, fun h ↦ hnot h.2⟩

/-- A conditional move is read alike by all models of the higher level and refused by the others. -/
theorem levelled_movz :
    decoded .rm7000 (.uniform (Assembler.movz 10#32 8#32 9#32)) ⟨0#64⟩ ⟨0#64⟩ =
        decoded .r5000 (.uniform (Assembler.movz 10#32 8#32 9#32)) ⟨0#64⟩ ⟨0#64⟩ ∧
      ∃! a : Addition, a.Encodes (Assembler.movz 10#32 8#32 9#32) := by
  have h := levelled_decoded (.uniform (Assembler.movz 10#32 8#32 9#32)) ⟨0#64⟩ ⟨0#64⟩
  exact ⟨h.eq_of_le .r5000 .rm7000 (by decide) (by decide) (by decide),
    (h.added_iff .r4600 .r5000 rfl rfl).mp ⟨by decide, by decide⟩⟩

end Analysis

end MipsBlocks
