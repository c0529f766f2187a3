import MipsBlocks.Proofs.Builder.Basic
import MipsBlocks.Proofs.Survey.Order
import MipsBlocks.Proofs.WellFormed

/-!
# The words of the builder

Asked for a window, the builder computes with words what the window says of its addresses: whether
an instruction can be at one (`contains_eq`), where in the table it is (`index_eq`) and how many
there are (`words_eq`). The differences are there because they are only taken of addresses in order.
A page size of at most `2 ^ 32` bytes keeps the shifts inside the word (`pageMask_eq`,
`crossesPage_eq`), and an instruction is one word long and skips at most one
(`fallthrough_eq`). The builder adds what it finds to a descriptor; in one of which nothing is known
yet that is what is known of the address (`analyze_eq`). Three addresses make a window exactly if
the builder finds no defect (`defect?_eq`).
-/

set_option autoImplicit false
set_option relaxedAutoImplicit false

namespace MipsBlocks

theorem VirtAddr.not_le {a b : VirtAddr} : ¬ a ≤ b ↔ b < a := Nat.not_le

theorem VirtAddr.not_lt {a b : VirtAddr} : ¬ a < b ↔ b ≤ a := Nat.not_lt

theorem Flags.empty_union (s : Flags) : ∅ ∪ s = s := congrArg Flags.mk BitVec.zero_or

theorem RegSet.empty_union (s : RegSet) : ∅ ∪ s = s := by
  ext r
  simp

/-! ### Costs -/

theorem HiLoOp.cycles_le (op : HiLoOp) : op.cycles ≤ 67 := by cases op <;> decide

theorem SystemRegister.readCycles_le (rd : Reg) : readCycles rd ≤ 251 := by
  unfold readCycles
  split <;> decide

theorem Effect.cycles_branch (cond : Cond) (likely : Bool) (target : VirtAddr) :
    (branch cond likely target).cycles = 1 := by
  unfold branch
  dsimp only
  split <;> rfl

/-- Nothing costs more than reading a register that depends on the timer. -/
theorem Insn.cycles_effect_le (pc : VirtAddr) (insn : Insn) : (insn.effect pc).cycles ≤ 251 := by
  cases insn with
  | hiLo op => exact op.cycles_le.trans (by decide)
  | moveFromSystem _ rd => exact SystemRegister.readCycles_le rd
  | branch cond likely link offset =>
    exact (Effect.cycles_branch cond likely _).le.trans (by decide)
  | _ => exact of_decide_eq_true rfl

namespace Builder

/-- The description of a window is asked for. -/
def Request.ofWindow (config : Config) (source : Source) (w : Window) : Request :=
  ⟨config, source, w.start, w.min, w.max⟩

theorem ofWord_sub? {a b : VirtAddr} (h : b ≤ a) :
    Checked.ofWord (a.sub? b) = .ok (a.toNat - b.toNat) := by
  rw [VirtAddr.sub?, if_pos h, Checked.ofWord_ok]

section Window

variable {config : Config} {source : Source} {w : Window}

theorem contains_eq (pc : VirtAddr) :
    contains (.ofWindow config source w) pc = .ok (decide (w.Contains pc)) := by
  rw [contains]
  change (if w.min ≤ pc ∧ pc < w.max then _ else _) = _
  split
  · rename_i h
    change (Checked.ofWord (pc.sub? w.min) >>= _) = _
    rw [ofWord_sub? h.1, Checked.ok_bind, Checked.pure_eq]
    exact congrArg Except.ok (decide_eq_decide.mpr ⟨fun h' ↦ ⟨h.1, h.2, h'⟩, fun h' ↦ h'.2.2⟩)
  · rename_i h
    rw [decide_eq_false fun h' ↦ h ⟨h'.1, h'.2.1⟩, Checked.pure_eq]

theorem index_eq (spot : w.Spot) :
    index (.ofWindow config source w) spot.pc = .ok spot.index := by
  rw [index]
  change (Checked.ofWord (spot.pc.sub? w.min) >>= _) = _
  rw [ofWord_sub? spot.inside.1, Checked.ok_bind]
  rfl

/-- No place of the table is that of an address below the lower bound. -/
example : index ⟨config, source, ⟨8⟩, ⟨8⟩, ⟨16⟩⟩ ⟨4⟩ = .error (.overflow .subtract) := rfl

theorem words_eq : words (.ofWindow config source w) = .ok w.words := by
  have hle : w.min ≤ w.max := Nat.le_trans w.min_le_start (Nat.le_of_lt w.start_lt_max)
  rw [words]
  change (Checked.ofWord (w.max.sub? w.min) >>= _) = _
  rw [ofWord_sub? hle, Checked.ok_bind]
  rfl

end Window

/-! ### Pages -/

section Pages

variable {config : Config}

theorem toNat_one_shiftLeft {n : Nat} (hn : n < 64) : (1#64 <<< n).toNat = 1 <<< n := by
  rw [BitVec.toNat_shiftLeft, BitVec.toNat_one (by decide), Nat.one_shiftLeft]
  exact Nat.mod_eq_of_lt (Nat.pow_lt_pow_right (by decide) hn)

theorem pageMask_eq (valid : config.Valid) :
    pageMask config = .ok ((1#64 <<< config.pageShift) - 1#64) := by
  have hshift : config.pageShift < 64 := Nat.lt_of_le_of_lt valid.pageShift_le (by decide)
  rw [pageMask, if_pos hshift, if_pos]
  rw [toNat_one_shiftLeft hshift, Nat.one_shiftLeft]
  exact Nat.one_le_two_pow

/-- The mask of a page selects nothing exactly of its first address. -/
theorem select_pageMask_iff (valid : config.Valid) (pc : VirtAddr) :
    pc.select ((1#64 <<< config.pageShift) - 1#64) = 0#64 ↔ config.startsPage pc = true := by
  have hshift : config.pageShift < 64 := Nat.lt_of_le_of_lt valid.pageShift_le (by decide)
  have hmask : ((1#64 <<< config.pageShift) - 1#64).toNat = 2 ^ config.pageShift - 1 := by
    rw [BitVec.toNat_sub_of_le, toNat_one_shiftLeft hshift, Nat.one_shiftLeft]
    · rfl
    · rw [BitVec.le_def, toNat_one_shiftLeft hshift, Nat.one_shiftLeft]
      exact Nat.one_le_two_pow
  rw [BitVec.toNat_eq, VirtAddr.select, BitVec.toNat_and, hmask, Nat.and_two_pow_sub_one_eq_mod,
    Config.startsPage, decide_eq_true_eq, Nat.one_shiftLeft]
  rfl

theorem crossesPage_eq (valid : config.Valid) (source : Option VirtAddr) (target : VirtAddr) :
    crossesPage config source target = .ok (config.checksPages &&
      source.any fun pc ↦ config.page pc != config.page target) := by
  have hshift : config.pageShift < 64 := Nat.lt_of_le_of_lt valid.pageShift_le (by decide)
  cases source with
  | none => rw [crossesPage, Option.any_none, Bool.and_false]
  | some pc =>
    rw [crossesPage, if_pos hshift, Option.any_some]
    cases config.checksPages with
    | false => rfl
    | true =>
      rw [if_pos rfl, Bool.true_and, Except.ok.injEq, Bool.eq_iff_iff, bne_iff_ne, bne_iff_ne,
        Ne, Ne, not_iff_not, BitVec.ushiftRight_xor_distrib, BitVec.xor_eq_zero_iff,
        BitVec.toNat_eq, BitVec.toNat_ushiftRight, BitVec.toNat_ushiftRight]
      rfl

end Pages

theorem fallthrough_eq {a : Analysis} (hlength : a.length = insnWidth) (hskip : a.skipSlots ≤ 1) :
    fallthrough a = .ok a.fallthrough := by
  rw [fallthrough, if_pos]
  rw [hlength, insnWidth]
  omega

/-! ### Analyses -/

/-- The effect of an instruction in a descriptor of which nothing is known yet. -/
theorem putEffect_fresh (pc : VirtAddr) (phys : PhysAddr) (opcode argument : Word) (insn : Insn) :
    dropZero (putEffect argument (insn.effect pc)
      { pc, phys, opcode, length := insnWidth, cycles := 1 }) =
        Analysis.ofEffect pc phys opcode argument (insn.effect pc) := by
  have hslots : (if (insn.effect pc).flags.isBranch then (insn.effect pc).delaySlots else 0) =
      (insn.effect pc).delaySlots := by
    cases hbranch : (insn.effect pc).flags.isBranch with
    | true => rfl
    | false =>
      have hslot : insn.hasDelaySlot = false := by
        rw [← Bool.not_eq_true, Insn.hasDelaySlot_iff insn pc, hbranch]
        exact fun h ↦ Bool.false_ne_true h.1
      rw [Insn.delaySlots_effect, hslot]
      rfl
  have htarget : (if (insn.effect pc).flags.isBranch then (insn.effect pc).target else none) =
      (insn.effect pc).target := by
    cases hbranch : (insn.effect pc).flags.isBranch with
    | true => rfl
    | false =>
      have hnone : ¬ (insn.effect pc).target.isSome = true := fun h ↦
        Bool.false_ne_true (hbranch.symm.trans (Insn.isBranch_of_isSome_target h))
      rw [Option.not_isSome_iff_eq_none.mp hnone]
      rfl
  have hskip : (if 0 < (insn.effect pc).skipSlots then (insn.effect pc).skipSlots else 0) =
      (insn.effect pc).skipSlots := by
    split
    · rfl
    · omega
  simp only [dropZero, putEffect, Analysis.ofEffect, hslots, htarget, hskip,
    Flags.empty_union, RegSet.empty_union]

/-- What is added to a descriptor of which nothing is known yet is what is known of its address. -/
theorem analyze_eq (r : Request) (pc : VirtAddr) :
    analyze r pc (.fresh pc) = .ok (r.config.analyze r.source pc) := by
  rw [analyze, Config.analyze, Analysis.describe]
  cases r.source.translate r.config.addressSpace pc with
  | none => rfl
  | some phys =>
    dsimp only
    rw [Analysis.decoded, Analysis.effect]
    cases hdecode : Insn.decode? r.config.flavor (r.source.fetchOpcode phys) with
    | none =>
      simp only [decode, hdecode]
      rfl
    | some insn =>
      have hcycles : (insn.effect pc).cycles < 0x100000000 :=
        Nat.lt_of_le_of_lt (Insn.cycles_effect_le pc insn) (by decide)
      simp only [decode, hdecode]
      exact (if_pos hcycles).trans (congrArg Except.ok (putEffect_fresh pc phys _ _ insn))

/-! ### Defects -/

theorem defect?_eq (start min max : VirtAddr) :
    defect? start min max = .ok (match Window.check start min max with
      | .ok _ => none
      | .error defect => some defect) := by
  rw [defect?, Window.check]
  by_cases hempty : min < max
  · rw [if_neg (VirtAddr.not_le.mpr hempty), if_pos hempty]
    by_cases hinside : min ≤ start ∧ start < max
    · have hnot : ¬ (start < min ∨ max ≤ start) :=
        not_or.mpr ⟨VirtAddr.not_lt.mpr hinside.1, VirtAddr.not_le.mpr hinside.2⟩
      rw [if_neg hnot, dif_pos hinside]
      by_cases hstart : start.IsAligned
      · rw [if_neg (not_not.mpr hstart), dif_pos hstart]
        by_cases hmin : min.IsAligned
        · rw [if_neg (not_not.mpr hmin), dif_pos hmin]
          by_cases hmax : max.IsAligned
          · rw [if_neg (not_not.mpr hmax), dif_pos hmax, ofWord_sub? (Nat.le_of_lt hempty),
              Checked.ok_bind, Checked.pure_eq]
            by_cases hsize : max.toNat - min.toNat ≤ maxWindowBytes
            · rw [if_neg (Nat.not_lt.mpr hsize), dif_pos hsize]
            · rw [if_pos (Nat.lt_of_not_le hsize), dif_neg hsize]
          · rw [if_pos hmax, dif_neg hmax, Checked.pure_eq]
        · rw [if_pos hmin, dif_neg hmin, Checked.pure_eq]
      · rw [if_pos hstart, dif_neg hstart, Checked.pure_eq]
    · have houtside : start < min ∨ max ≤ start :=
        (not_and_or.mp hinside).imp VirtAddr.not_le.mp VirtAddr.not_lt.mp
      rw [if_pos houtside, dif_neg hinside, Checked.pure_eq]
  · rw [if_pos (VirtAddr.not_lt.mp hempty), if_neg hempty, Checked.pure_eq]

end Builder

end MipsBlocks
