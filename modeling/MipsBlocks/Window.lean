import MipsBlocks.Error
import MipsBlocks.Instruction.Word

/-!
# Windows

A window is a range of addresses `[min, max)` with a start address inside it, all aligned to the
instruction width and at most `maxWindowBytes` long. `Window.check` builds one from three addresses
or names the first defect, in the order of `WindowDefect`; `check_isOk_iff` says exactly when there
is none.

The instruction addresses of a window are its spots. Each has an index below `Window.words`, so a
table with one entry for a word of the window can be read and written at every spot.
-/

set_option autoImplicit false
set_option relaxedAutoImplicit false

namespace MipsBlocks

/-- The largest size of a window in bytes. -/
def maxWindowBytes : Nat := 0x100000

structure Window where
  start : VirtAddr
  min : VirtAddr
  max : VirtAddr
  min_le_start : min ≤ start
  start_lt_max : start < max
  start_aligned : start.IsAligned
  min_aligned : min.IsAligned
  max_aligned : max.IsAligned
  size_le : max.toNat - min.toNat ≤ maxWindowBytes

/-- Why three addresses are no window; the first defect counts. -/
inductive WindowDefect where
  | empty
  | startOutside
  | startUnaligned
  | minUnaligned
  | maxUnaligned
  | tooLarge
  deriving DecidableEq

/-- The error that reports a defect of the window from `min` to `max` around `start`. -/
def WindowDefect.toError (start min max : VirtAddr) : WindowDefect → Error
  | empty => .invalidAddressParameter "max" max "window is empty"
  | startOutside => .invalidAddressParameter "start" start "outside the [min, max) window"
  | startUnaligned => .invalidAddressParameter "start" start "not 4-byte aligned"
  | minUnaligned => .invalidAddressParameter "min" min "not 4-byte aligned"
  | maxUnaligned => .invalidAddressParameter "max" max "not 4-byte aligned"
  | tooLarge => .invalidAddressParameter "max" max
      ("window exceeds " ++ toString maxWindowBytes ++ " bytes")

namespace Window

/-- The window from `min` to `max` around `start`. -/
def check (start min max : VirtAddr) : Except WindowDefect Window :=
  if min < max then
    if inside : min ≤ start ∧ start < max then
      if start_aligned : start.IsAligned then
        if min_aligned : min.IsAligned then
          if max_aligned : max.IsAligned then
            if size_le : max.toNat - min.toNat ≤ maxWindowBytes then
              .ok ⟨start, min, max, inside.1, inside.2, start_aligned, min_aligned, max_aligned,
                size_le⟩
            else .error .tooLarge
          else .error .maxUnaligned
        else .error .minUnaligned
      else .error .startUnaligned
    else .error .startOutside
  else .error .empty

theorem check_isOk_iff {start min max : VirtAddr} :
    (check start min max).isOk = true ↔
      min < max ∧ (min ≤ start ∧ start < max) ∧ start.IsAligned ∧ min.IsAligned ∧ max.IsAligned ∧
        max.toNat - min.toNat ≤ maxWindowBytes := by
  unfold check
  repeat' split
  all_goals simp_all [Except.isOk, Except.toBool]

theorem check_eq_ok {w : Window} {start min max : VirtAddr} (h : check start min max = .ok w) :
    w.start = start ∧ w.min = min ∧ w.max = max := by
  unfold check at h
  repeat' split at h
  all_goals simp_all
  all_goals subst h; simp

/-! ### Spots -/

/-- The number of instruction words. -/
def words (w : Window) : Nat := (w.max.toNat - w.min.toNat) / insnWidth

/-- Whether an instruction of the window can be at `pc`. -/
def Contains (w : Window) (pc : VirtAddr) : Prop :=
  w.min ≤ pc ∧ pc < w.max ∧ (pc.toNat - w.min.toNat) % insnWidth = 0

instance (w : Window) (pc : VirtAddr) : Decidable (w.Contains pc) :=
  inferInstanceAs (Decidable (_ ∧ _))

/-- An instruction address of a window. -/
structure Spot (w : Window) where
  pc : VirtAddr
  inside : w.Contains pc

/-- The spot at an address. -/
def spot? (w : Window) (pc : VirtAddr) : Option w.Spot :=
  if inside : w.Contains pc then some ⟨pc, inside⟩ else none

theorem index_lt {w : Window} {pc : VirtAddr} (h : w.Contains pc) :
    (pc.toNat - w.min.toNat) / insnWidth < w.words := by
  have ⟨hmin, hmax, hpc⟩ := h
  have hm : w.max.toNat % 4 = 0 := w.max_aligned
  have hn : w.min.toNat % 4 = 0 := w.min_aligned
  rw [VirtAddr.le_iff] at hmin
  rw [VirtAddr.lt_iff] at hmax
  simp only [words, insnWidth] at *
  omega

/-- The number of words before a spot. -/
def Spot.index {w : Window} (s : w.Spot) : Fin w.words :=
  ⟨(s.pc.toNat - w.min.toNat) / insnWidth, index_lt s.inside⟩

theorem Spot.eq_of_pc_eq {w : Window} {s t : w.Spot} (h : s.pc = t.pc) : s = t := by
  obtain ⟨pc, _⟩ := s
  obtain ⟨qc, _⟩ := t
  subst h
  rfl

theorem Spot.eq_of_index_eq {w : Window} {s t : w.Spot} (h : s.index = t.index) : s = t := by
  apply eq_of_pc_eq
  have ⟨hs, _, hsm⟩ := s.inside
  have ⟨ht, _, htm⟩ := t.inside
  rw [VirtAddr.le_iff] at hs ht
  simp only [index, insnWidth, Fin.mk.injEq] at h hsm htm
  exact VirtAddr.eq_of_toNat_eq (by omega)

theorem spot?_eq_some_iff {w : Window} {pc : VirtAddr} {s : w.Spot} :
    w.spot? pc = some s ↔ s.pc = pc := by
  unfold spot?
  split
  · constructor
    · intro h
      rw [← Option.some.inj h]
    · rintro rfl
      rfl
  · rename_i h
    simp only [reduceCtorEq, false_iff]
    rintro rfl
    exact h s.inside

/-- The spot at the start address. -/
def startSpot (w : Window) : w.Spot where
  pc := w.start
  inside := by
    have hs : w.start.toNat % 4 = 0 := w.start_aligned
    have hn : w.min.toNat % 4 = 0 := w.min_aligned
    refine ⟨w.min_le_start, w.start_lt_max, ?_⟩
    simp only [insnWidth]
    omega

end Window

end MipsBlocks
