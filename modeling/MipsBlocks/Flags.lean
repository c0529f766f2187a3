/-!
# Analysis flags

`Flag` names the twenty facts that the analysis records about an instruction and `Flags` is a set
of them, kept as a 32-bit word so that a set can be stored and compared as one word. Membership is
the view: `mem_union`, `mem_insert`, `mem_singleton` and `not_mem_empty` say what each operation
does to it, `⊆` compares two sets by it, and `bit_injective` says that no two flags share a bit.
Bits above the twentieth carry no flag; `truncated` drops them and `IsKnown` says that there are
none. Then the flags say all (`eq_of_isKnown`).
-/

set_option autoImplicit false
set_option relaxedAutoImplicit false

namespace MipsBlocks

inductive Flag where
  /-- A branch that may or may not be taken. -/
  | conditionalBranch
  /-- A branch that is always taken. -/
  | unconditionalBranch
  /-- The delay slot is skipped when the branch is not taken. -/
  | likelyBranch
  /-- Described as the delay slot of another descriptor. -/
  | inDelaySlot
  /-- Control can arrive here other than by falling through. -/
  | branchTarget
  /-- The last instruction of a native code sequence. -/
  | endSequence
  /-- Falling off the end requires a fresh block lookup. -/
  | redispatch
  /-- Falling off the end wraps back to the block's start. -/
  | returnToStart
  /-- The branch target lies inside the described window. -/
  | intrablockBranch
  /-- An encoding that is unknown, or disabled on this processor. -/
  | invalidOpcode
  /-- Always raises an exception. -/
  | willCauseException
  /-- Raises an exception for some operand values. -/
  | canCauseException
  | readsMemory
  | writesMemory
  /-- A cached translation must be checked again before entering here. -/
  | validateTlb
  /-- Rewrites the address translation. -/
  | modifiesTranslation
  /-- May switch privilege or mode. -/
  | canChangeModes
  /-- May unmask a pending external interrupt. -/
  | canExposeExternalInterrupt
  /-- Stands in for an instruction that cannot be fetched. -/
  | compilerPageFault
  /-- Occupies an address but generates no code. -/
  | virtualNoop
  deriving DecidableEq

namespace Flag

/-- All flags in the order of their bits. -/
def all : List Flag :=
  [conditionalBranch, unconditionalBranch, likelyBranch, inDelaySlot, branchTarget, endSequence,
    redispatch, returnToStart, intrablockBranch, invalidOpcode, willCauseException,
    canCauseException, readsMemory, writesMemory, validateTlb, modifiesTranslation, canChangeModes,
    canExposeExternalInterrupt, compilerPageFault, virtualNoop]

/-- The position of a flag in the word of a set. -/
def bit : Flag → Nat
  | conditionalBranch => 0
  | unconditionalBranch => 1
  | likelyBranch => 2
  | inDelaySlot => 3
  | branchTarget => 4
  | endSequence => 5
  | redispatch => 6
  | returnToStart => 7
  | intrablockBranch => 8
  | invalidOpcode => 9
  | willCauseException => 10
  | canCauseException => 11
  | readsMemory => 12
  | writesMemory => 13
  | validateTlb => 14
  | modifiesTranslation => 15
  | canChangeModes => 16
  | canExposeExternalInterrupt => 17
  | compilerPageFault => 18
  | virtualNoop => 19

def name : Flag → String
  | conditionalBranch => "IS_CONDITIONAL_BRANCH"
  | unconditionalBranch => "IS_UNCONDITIONAL_BRANCH"
  | likelyBranch => "IS_LIKELY_BRANCH"
  | inDelaySlot => "IN_DELAY_SLOT"
  | branchTarget => "IS_BRANCH_TARGET"
  | endSequence => "END_SEQUENCE"
  | redispatch => "REDISPATCH"
  | returnToStart => "RETURN_TO_START"
  | intrablockBranch => "INTRABLOCK_BRANCH"
  | invalidOpcode => "INVALID_OPCODE"
  | willCauseException => "WILL_CAUSE_EXCEPTION"
  | canCauseException => "CAN_CAUSE_EXCEPTION"
  | readsMemory => "READS_MEMORY"
  | writesMemory => "WRITES_MEMORY"
  | validateTlb => "VALIDATE_TLB"
  | modifiesTranslation => "MODIFIES_TRANSLATION"
  | canChangeModes => "CAN_CHANGE_MODES"
  | canExposeExternalInterrupt => "CAN_EXPOSE_EXTERNAL_INTERRUPT"
  | compilerPageFault => "COMPILER_PAGE_FAULT"
  | virtualNoop => "VIRTUAL_NOOP"

theorem bit_lt (f : Flag) : f.bit < 20 := by cases f <;> decide

theorem mem_all (f : Flag) : f ∈ all := by cases f <;> decide

/-- The flag at a position. -/
theorem getElem?_all_bit (f : Flag) : all[f.bit]? = some f := by cases f <;> rfl

theorem bit_injective {f g : Flag} (h : f.bit = g.bit) : f = g := by
  have hf := getElem?_all_bit f
  rw [h, getElem?_all_bit g] at hf
  exact (Option.some.inj hf).symm

/-- Every position below the twentieth is that of a flag. -/
theorem exists_bit_eq {i : Nat} (hi : i < 20) : ∃ f : Flag, f.bit = i := by
  have hall : ∀ i : Fin 20, ∃ f ∈ all, f.bit = i := by decide
  obtain ⟨f, -, hf⟩ := hall ⟨i, hi⟩
  exact ⟨f, hf⟩

end Flag

/-- A set of flags. -/
structure Flags where
  bits : BitVec 32
  deriving DecidableEq

namespace Flags

instance : Membership Flag Flags := ⟨fun s f ↦ s.bits.getLsbD f.bit = true⟩
instance (f : Flag) (s : Flags) : Decidable (f ∈ s) :=
  inferInstanceAs (Decidable (s.bits.getLsbD f.bit = true))
instance : EmptyCollection Flags := ⟨⟨0#32⟩⟩
instance : Singleton Flag Flags := ⟨fun f ↦ ⟨1#32 <<< f.bit⟩⟩
instance : Union Flags := ⟨fun s t ↦ ⟨s.bits ||| t.bits⟩⟩
instance : Insert Flag Flags := ⟨fun f s ↦ {f} ∪ s⟩

theorem mem_def {f : Flag} {s : Flags} : f ∈ s ↔ s.bits.getLsbD f.bit = true := Iff.rfl

@[simp] theorem not_mem_empty (f : Flag) : f ∉ (∅ : Flags) := by
  rw [mem_def]
  change ¬ (0#32).getLsbD f.bit = true
  simp

@[simp] theorem mem_union {f : Flag} {s t : Flags} : f ∈ s ∪ t ↔ f ∈ s ∨ f ∈ t := by
  rw [mem_def, mem_def, mem_def]
  change (s.bits ||| t.bits).getLsbD f.bit = true ↔ _
  simp

@[simp] theorem mem_singleton {f g : Flag} : f ∈ ({g} : Flags) ↔ f = g := by
  rw [mem_def]
  change (1#32 <<< g.bit).getLsbD f.bit = true ↔ _
  have hf := f.bit_lt
  simp only [BitVec.getLsbD_shiftLeft, BitVec.getLsbD_one, Bool.and_eq_true, Bool.not_eq_true',
    decide_eq_true_eq, decide_eq_false_iff_not]
  constructor
  · rintro ⟨⟨_, h₁⟩, _, h₂⟩
    exact Flag.bit_injective (by omega)
  · rintro rfl
    omega

@[simp] theorem mem_insert {f g : Flag} {s : Flags} : f ∈ insert g s ↔ f = g ∨ f ∈ s := by
  change f ∈ ({g} ∪ s : Flags) ↔ _
  simp

instance : HasSubset Flags := ⟨fun s t ↦ ∀ f : Flag, f ∈ s → f ∈ t⟩
instance (s t : Flags) : Decidable (s ⊆ t) :=
  decidable_of_iff (∀ f ∈ Flag.all, f ∈ s → f ∈ t)
    ⟨fun h f ↦ h f (Flag.mem_all f), fun h f _ ↦ h f⟩

theorem subset_def {s t : Flags} : s ⊆ t ↔ ∀ f : Flag, f ∈ s → f ∈ t := Iff.rfl

theorem empty_subset (s : Flags) : ∅ ⊆ s := fun f hf ↦ absurd hf (not_mem_empty f)

theorem union_subset {s t u : Flags} (hs : s ⊆ u) (ht : t ⊆ u) : s ∪ t ⊆ u :=
  fun f hf ↦ (mem_union.1 hf).elim (hs f) (ht f)

/-- The flags of a set in the order of their bits. -/
def toList (s : Flags) : List Flag := Flag.all.filter (· ∈ s)

@[simp] theorem mem_toList {f : Flag} {s : Flags} : f ∈ s.toList ↔ f ∈ s := by
  simp [toList, Flag.mem_all]

/-- The word with a one for every flag. -/
def mask : BitVec 32 := 0xfffff#32

/-- The set without the bits that carry no flag. -/
def truncated (s : Flags) : Flags := ⟨s.bits &&& mask⟩

/-- No bit is set that carries no flag. -/
def IsKnown (s : Flags) : Prop := s.truncated = s

instance (s : Flags) : Decidable s.IsKnown := inferInstanceAs (Decidable (_ = _))

theorem isKnown_iff {s : Flags} : s.IsKnown ↔ ∀ i, s.bits.getLsbD i = true → i < 20 := by
  have hmask (i : Nat) : mask.getLsbD i = decide (i < 20) := by
    by_cases hi : i < 32
    · have hall : ∀ i : Fin 32, mask.getLsbD i = decide (i.val < 20) := by decide
      exact hall ⟨i, hi⟩
    · rw [BitVec.getLsbD_of_ge _ _ (by omega), eq_comm, decide_eq_false_iff_not]
      omega
  constructor
  · intro hs i hi
    have hbit := congrArg (fun t ↦ t.bits.getLsbD i) hs
    simpa [truncated, hi, hmask] using hbit
  · intro hs
    refine congrArg Flags.mk (BitVec.eq_of_getLsbD_eq fun i _ ↦ ?_)
    rw [BitVec.getLsbD_and, hmask]
    simpa using hs i

theorem isKnown_union {s t : Flags} (hs : s.IsKnown) (ht : t.IsKnown) : (s ∪ t).IsKnown := by
  rw [isKnown_iff] at hs ht ⊢
  intro i hi
  change (s.bits ||| t.bits).getLsbD i = true at hi
  rw [BitVec.getLsbD_or, Bool.or_eq_true] at hi
  exact hi.elim (hs i) (ht i)

/-- Sets with the same flags are equal where no other bit is set. -/
theorem eq_of_isKnown {s t : Flags} (hs : s.IsKnown) (ht : t.IsKnown)
    (h : ∀ f : Flag, f ∈ s ↔ f ∈ t) : s = t := by
  rw [isKnown_iff] at hs ht
  refine congrArg Flags.mk (BitVec.eq_of_getLsbD_eq fun i _ ↦ ?_)
  rw [Bool.eq_iff_iff]
  constructor
  · intro hi
    obtain ⟨f, rfl⟩ := Flag.exists_bit_eq (hs i hi)
    exact (h f).mp hi
  · intro hi
    obtain ⟨f, rfl⟩ := Flag.exists_bit_eq (ht i hi)
    exact (h f).mpr hi

/-- Whether one of the two branch flags is there. -/
def isBranch (s : Flags) : Bool := .conditionalBranch ∈ s || .unconditionalBranch ∈ s

theorem isBranch_iff {s : Flags} :
    s.isBranch = true ↔ Flag.conditionalBranch ∈ s ∨ Flag.unconditionalBranch ∈ s := by
  simp [isBranch]

end Flags

end MipsBlocks
