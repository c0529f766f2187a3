import MipsBlocks.Overflow

/-!
# Register sets

A `RegSet` holds one bit for every integer register, every floating-point register and every
register of a third class, of which `lo`, `hi` and `fcc` (the floating-point condition) exist.
Membership of a `Register` is the view: `mem_union`, `mem_inter`, `mem_sdiff` and `mem_insert` say
what each operation does to it, and `ext` says that two sets with the same members are equal.

`replace clear set` is how liveness moves backwards over an instruction (`mem_replace`): what it
writes is no longer wanted, what it reads is.
-/

set_option autoImplicit false
set_option relaxedAutoImplicit false

namespace MipsBlocks

/-- The number of a register in its class. -/
abbrev Reg := BitVec 5

namespace Reg

/-- The register that a word names: its number modulo 32. -/
def ofWord (n : BitVec 32) : Reg := n.setWidth 5

theorem toNat_ofWord (n : BitVec 32) : (ofWord n).toNat = n.toNat % 32 := BitVec.toNat_setWidth 5 n

theorem ofWord_setWidth (r : Reg) : ofWord (r.setWidth 32) = r := by
  apply BitVec.eq_of_toNat_eq
  rw [toNat_ofWord, BitVec.toNat_setWidth]
  omega

/-- The integer register that always holds zero. -/
def zero : Reg := 0#5

/-- The integer register that linking branches write. -/
def ra : Reg := 31#5

end Reg

/-- A register of one of the three classes. -/
inductive Register where
  | gpr (r : Reg)
  | fpr (r : Reg)
  | misc (r : Reg)
  deriving DecidableEq

namespace Register

def lo : Register := misc 0#5
def hi : Register := misc 1#5
def fcc : Register := misc 2#5

end Register

/-- A set of registers, one mask for each class. -/
structure RegSet where
  gpr : BitVec 32
  fpr : BitVec 32
  misc : BitVec 32
  deriving DecidableEq

namespace RegSet

def all : RegSet := ⟨BitVec.allOnes 32, BitVec.allOnes 32, BitVec.allOnes 32⟩

/-- The mask with the bit of one register. -/
def bit (r : Reg) : BitVec 32 := 1#32 <<< r.toNat

instance : EmptyCollection RegSet := ⟨⟨0#32, 0#32, 0#32⟩⟩
instance : Union RegSet := ⟨fun s t ↦ ⟨s.gpr ||| t.gpr, s.fpr ||| t.fpr, s.misc ||| t.misc⟩⟩
instance : Inter RegSet := ⟨fun s t ↦ ⟨s.gpr &&& t.gpr, s.fpr &&& t.fpr, s.misc &&& t.misc⟩⟩
instance : SDiff RegSet :=
  ⟨fun s t ↦ ⟨s.gpr &&& ~~~t.gpr, s.fpr &&& ~~~t.fpr, s.misc &&& ~~~t.misc⟩⟩

instance : Singleton Register RegSet where
  singleton
    | .gpr r => ⟨bit r, 0#32, 0#32⟩
    | .fpr r => ⟨0#32, bit r, 0#32⟩
    | .misc r => ⟨0#32, 0#32, bit r⟩

instance : Insert Register RegSet := ⟨fun r s ↦ {r} ∪ s⟩

/-- Whether the bit of a register is set. -/
def contains (s : RegSet) : Register → Bool
  | .gpr r => s.gpr.getLsbD r.toNat
  | .fpr r => s.fpr.getLsbD r.toNat
  | .misc r => s.misc.getLsbD r.toNat

instance : Membership Register RegSet := ⟨fun s r ↦ s.contains r = true⟩
instance (r : Register) (s : RegSet) : Decidable (r ∈ s) :=
  inferInstanceAs (Decidable (s.contains r = true))

theorem mem_def {r : Register} {s : RegSet} : r ∈ s ↔ s.contains r = true := Iff.rfl

/-- Liveness backwards over an instruction that writes `clear` and reads `set`. -/
def replace (s clear set : RegSet) : RegSet := (s \ clear) ∪ set

/-- Whether a number below 32 names an integer register of the set. -/
def hasGpr? (s : RegSet) (n : Nat) : Except Overflow Bool :=
  if n < 32 then .ok (s.gpr.getLsbD n) else .error .shiftLeft

/-- Whether a number below 32 names a floating-point register of the set. -/
def hasFpr? (s : RegSet) (n : Nat) : Except Overflow Bool :=
  if n < 32 then .ok (s.fpr.getLsbD n) else .error .shiftLeft

/-- The set without the integer register that always holds zero: reading it reads nothing and
writing it writes nothing. -/
def withoutZero (s : RegSet) : RegSet := s \ {.gpr Reg.zero}

/-! ### Membership -/

theorem getLsbD_bit (r s : Reg) : (bit r).getLsbD s.toNat = decide (s = r) := by
  have hs := s.isLt
  have hr := r.isLt
  rw [bit, BitVec.getLsbD_shiftLeft, BitVec.getLsbD_one, Bool.eq_iff_iff]
  simp only [Bool.and_eq_true, Bool.not_eq_true', decide_eq_true_eq, decide_eq_false_iff_not,
    ← BitVec.toNat_inj]
  omega

@[simp] theorem not_mem_empty (r : Register) : r ∉ (∅ : RegSet) := by
  rw [mem_def]
  cases r <;> exact Bool.false_ne_true ∘ (BitVec.getLsbD_zero ▸ ·)

@[simp] theorem mem_all (r : Register) : r ∈ all := by
  have full (r : Reg) : (BitVec.allOnes 32).getLsbD r.toNat = true := by
    rw [BitVec.getLsbD_allOnes]
    exact decide_eq_true r.isLt
  cases r <;> exact full _

@[simp] theorem mem_singleton {r q : Register} : r ∈ ({q} : RegSet) ↔ r = q := by
  cases q <;> cases r <;> simp [mem_def, contains, Singleton.singleton, getLsbD_bit]

@[simp] theorem mem_union {r : Register} {s t : RegSet} : r ∈ s ∪ t ↔ r ∈ s ∨ r ∈ t := by
  rw [mem_def, mem_def, mem_def, ← Bool.or_eq_true]
  cases r <;> rename_i r
  · exact iff_of_eq (congrArg (· = true) (BitVec.getLsbD_or (x := s.gpr) (y := t.gpr)))
  · exact iff_of_eq (congrArg (· = true) (BitVec.getLsbD_or (x := s.fpr) (y := t.fpr)))
  · exact iff_of_eq (congrArg (· = true) (BitVec.getLsbD_or (x := s.misc) (y := t.misc)))

@[simp] theorem mem_inter {r : Register} {s t : RegSet} : r ∈ s ∩ t ↔ r ∈ s ∧ r ∈ t := by
  rw [mem_def, mem_def, mem_def, ← Bool.and_eq_true]
  cases r <;> rename_i r
  · exact iff_of_eq (congrArg (· = true) (BitVec.getLsbD_and (x := s.gpr) (y := t.gpr)))
  · exact iff_of_eq (congrArg (· = true) (BitVec.getLsbD_and (x := s.fpr) (y := t.fpr)))
  · exact iff_of_eq (congrArg (· = true) (BitVec.getLsbD_and (x := s.misc) (y := t.misc)))

@[simp] theorem mem_sdiff {r : Register} {s t : RegSet} : r ∈ s \ t ↔ r ∈ s ∧ r ∉ t := by
  rw [mem_def, mem_def, mem_def]
  cases r <;> rename_i r
  · change (s.gpr &&& ~~~t.gpr).getLsbD r.toNat = true ↔ _
    simpa [contains] using fun _ _ ↦ r.isLt
  · change (s.fpr &&& ~~~t.fpr).getLsbD r.toNat = true ↔ _
    simpa [contains] using fun _ _ ↦ r.isLt
  · change (s.misc &&& ~~~t.misc).getLsbD r.toNat = true ↔ _
    simpa [contains] using fun _ _ ↦ r.isLt

@[simp] theorem mem_insert {r q : Register} {s : RegSet} : r ∈ insert q s ↔ r = q ∨ r ∈ s := by
  change r ∈ ({q} ∪ s : RegSet) ↔ _
  simp

@[simp] theorem mem_replace {r : Register} {s clear set : RegSet} :
    r ∈ s.replace clear set ↔ (r ∈ s ∧ r ∉ clear) ∨ r ∈ set := by
  simp [replace]

@[simp] theorem mem_withoutZero {r : Register} {s : RegSet} :
    r ∈ s.withoutZero ↔ r ∈ s ∧ r ≠ .gpr Reg.zero := by
  simp [withoutZero]

@[simp] theorem withoutZero_empty : withoutZero ∅ = ∅ := by decide

private theorem mask_ext {x y : BitVec 32}
    (h : ∀ r : Reg, x.getLsbD r.toNat = y.getLsbD r.toNat) : x = y := by
  apply BitVec.eq_of_getLsbD_eq
  intro i hi
  have := h (BitVec.ofNat 5 i)
  rwa [BitVec.toNat_ofNat, Nat.mod_eq_of_lt (by omega)] at this

@[ext] theorem ext {s t : RegSet} (h : ∀ r : Register, r ∈ s ↔ r ∈ t) : s = t := by
  have key : ∀ r : Register, s.contains r = t.contains r := fun r ↦ Bool.eq_iff_iff.2 (h r)
  obtain ⟨sg, sf, sm⟩ := s
  obtain ⟨tg, tf, tm⟩ := t
  congr
  · exact mask_ext fun r ↦ key (.gpr r)
  · exact mask_ext fun r ↦ key (.fpr r)
  · exact mask_ext fun r ↦ key (.misc r)

end RegSet

end MipsBlocks
