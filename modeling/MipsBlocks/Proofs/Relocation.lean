import MipsBlocks.Proofs.Block.Recast
import Mathlib.Data.Nat.ModEq

/-!
# Code at another place

What happens when code is moved by a distance `d`, modulo the size of the address space. Relative
branches move along whatever the distance is (`branchTarget_add`); jumps do if the distance is a
multiple of their region (`jumpTarget_add`), and pages if it is a multiple of the largest page
(`Config.startsPage_add`, `Config.page_add_eq_iff`). So by a multiple of 4 GiB the code of one
window is placed in another one (`Placement.shift`), and a source that shows the same words `d`
further (`Source.Relocates`) has the recast outline (`Outline.sites_describe_shift`).

Scope. The last word of the address space is left out of the windows: a fall-through past the last
address wraps around and is no longer above the end of its window.
-/

set_option autoImplicit false
set_option relaxedAutoImplicit false

namespace MipsBlocks

/-! ### Targets -/

theorem branchTarget_add (pc : VirtAddr) (offset : BitVec 16) (d : BitVec 64) :
    branchTarget (pc + d) offset = branchTarget pc offset + d := by
  apply VirtAddr.eq_of_toNat_eq
  simp only [branchTarget, VirtAddr.toNat_add]
  omega

/-- Assumes: the distance is a multiple of the region of a jump. -/
theorem jumpTarget_add (pc : VirtAddr) (index : BitVec 26) {d : BitVec 64}
    (hd : 0x10000000 ∣ d.toNat) : jumpTarget (pc + d) index = jumpTarget pc index + d := by
  apply VirtAddr.eq_of_toNat_eq
  rw [VirtAddr.toNat_add, toNat_jumpTarget, toNat_jumpTarget]
  simp only [VirtAddr.toNat_add]
  have hindex := index.isLt
  have hpc := pc.toNat_lt
  have hlt := d.isLt
  have hfour : (4#64).toNat = 4 := rfl
  obtain ⟨k, hk⟩ := hd
  rw [hk] at hlt ⊢
  rw [hfour]
  omega

/-! ### Effects -/

/-- The effect with its target moved. -/
def Effect.shift (d : BitVec 64) (e : Effect) : Effect := { e with target := e.target.map (· + d) }

theorem Effect.branch_add (cond : Cond) (likely : Bool) (target : VirtAddr) (d : BitVec 64) :
    branch cond likely (target + d) = (branch cond likely target).shift d := by
  unfold branch
  dsimp only
  split <;> rfl

/-- An instruction does the same elsewhere, but for its target. -/
theorem Insn.effect_add (insn : Insn) (pc : VirtAddr) {d : BitVec 64}
    (hd : 0x10000000 ∣ d.toNat) : insn.effect (pc + d) = (insn.effect pc).shift d := by
  cases insn with
  | jump link index =>
    show ({ Effect.jump (some (jumpTarget (pc + d) index)) with
      writes := if link then {.gpr Reg.ra} else ∅ } : Effect) = _
    rw [jumpTarget_add pc index hd]
    rfl
  | branch cond likely link offset =>
    show ({ Effect.branch cond likely (branchTarget (pc + d) offset) with
      writes := if link then {.gpr Reg.ra} else ∅ } : Effect) = _
    rw [branchTarget_add, Effect.branch_add]
    rfl
  | _ => rfl

theorem Analysis.effect_add (flavor : Flavor) (pc : VirtAddr) (w : Word) {d : BitVec 64}
    (hd : 0x10000000 ∣ d.toNat) : effect flavor (pc + d) w = (effect flavor pc w).shift d := by
  unfold effect
  split
  · exact Insn.effect_add _ pc hd
  · rfl

/-! ### Pages -/

namespace Config

variable {config : Config} {d : BitVec 64}

theorem dvd_of_pageShift_le (h : config.pageShift ≤ 32) (hd : 0x100000000 ∣ d.toNat) :
    2 ^ config.pageShift ∣ d.toNat :=
  Nat.dvd_trans (Nat.pow_dvd_pow 2 h) hd

theorem startsPage_add (h : config.pageShift ≤ 32) (hd : 0x100000000 ∣ d.toNat) (pc : VirtAddr) :
    config.startsPage (pc + d) = config.startsPage pc := by
  have hspace : 2 ^ config.pageShift ∣ 0x10000000000000000 :=
    Nat.pow_dvd_pow 2 (Nat.le_trans h (by decide) : config.pageShift ≤ 64)
  obtain ⟨k, hk⟩ := dvd_of_pageShift_le h hd
  rw [startsPage, startsPage, VirtAddr.toNat_add, Nat.one_shiftLeft, Nat.mod_mod_of_dvd _ hspace,
    hk, Nat.add_mul_mod_self_left]

/-- The pages of two addresses are told apart wherever the two are moved together. -/
theorem page_add_eq_iff (h : config.pageShift ≤ 32) (hd : 0x100000000 ∣ d.toNat)
    (a b : VirtAddr) :
    config.page (a + d) = config.page (b + d) ↔ config.page a = config.page b := by
  obtain ⟨k, hk⟩ := dvd_of_pageShift_le h hd
  obtain ⟨n, hn⟩ : 2 ^ config.pageShift ∣ 0x10000000000000000 :=
    Nat.pow_dvd_pow 2 (Nat.le_trans h (by decide) : config.pageShift ≤ 64)
  have hpage (c : VirtAddr) : config.page (c + d) = (config.page c + k) % n := by
    rw [page, page, Nat.shiftRight_eq_div_pow, Nat.shiftRight_eq_div_pow, VirtAddr.toNat_add, hk,
      hn, Nat.mod_mul_right_div_self, Nat.add_mul_div_left _ _ (Nat.two_pow_pos _)]
  have hlt (c : VirtAddr) : config.page c < n := by
    rw [page, Nat.shiftRight_eq_div_pow, Nat.div_lt_iff_lt_mul (Nat.two_pow_pos _), Nat.mul_comm,
      ← hn]
    exact c.toNat_lt
  rw [hpage, hpage]
  refine ⟨fun heq ↦ ?_, fun heq ↦ by rw [heq]⟩
  have hmod : config.page a ≡ config.page b [MOD n] := Nat.ModEq.add_right_cancel' k heq
  rwa [Nat.ModEq, Nat.mod_eq_of_lt (hlt a), Nat.mod_eq_of_lt (hlt b)] at hmod

end Config

/-! ### Windows -/

namespace Window

/-- The second window is the first one moved. -/
structure Shifts (d : BitVec 64) (w w' : Window) : Prop where
  start : w'.start = w.start + d
  min : w'.min = w.min + d
  max : w'.max = w.max + d

namespace Shifts

variable {d : BitVec 64} {w w' : Window}

/-- Neither window wraps around, so both have the same size. -/
theorem size_eq (h : Shifts d w w') :
    w'.max.toNat - w'.min.toNat = w.max.toNat - w.min.toNat := by
  have hlt := Nat.lt_of_le_of_lt w.min_le_start w.start_lt_max
  have hlt' := Nat.lt_of_le_of_lt w'.min_le_start w'.start_lt_max
  have hmax := w.max.toNat_lt
  rw [h.min, h.max] at hlt' ⊢
  simp only [VirtAddr.toNat_add] at hlt' ⊢
  omega

theorem toNat_sub (h : Shifts d w w') {pc : VirtAddr} (hpc : w.min ≤ pc ∧ pc < w.max) :
    (pc + d).toNat - w'.min.toNat = pc.toNat - w.min.toNat ∧ w'.min ≤ pc + d := by
  have hlt' := Nat.lt_of_le_of_lt w'.min_le_start w'.start_lt_max
  have hmax := w.max.toNat_lt
  obtain ⟨hge, hlt⟩ := hpc
  rw [VirtAddr.le_iff] at hge
  rw [VirtAddr.lt_iff] at hlt
  rw [VirtAddr.le_iff]
  rw [h.min, h.max] at hlt'
  rw [h.min]
  simp only [VirtAddr.toNat_add] at hlt' ⊢
  omega

theorem inside_iff (h : Shifts d w w') (pc : VirtAddr) :
    (w'.min ≤ pc + d ∧ pc + d < w'.max) ↔ (w.min ≤ pc ∧ pc < w.max) := by
  have hlt := Nat.lt_of_le_of_lt w.min_le_start w.start_lt_max
  have hlt' := Nat.lt_of_le_of_lt w'.min_le_start w'.start_lt_max
  have hmax := w.max.toNat_lt
  have hpc := pc.toNat_lt
  rw [h.min, h.max] at hlt' ⊢
  simp only [VirtAddr.le_iff, VirtAddr.lt_iff, VirtAddr.toNat_add] at hlt' ⊢
  omega

theorem contains_iff (h : Shifts d w w') (pc : VirtAddr) :
    w'.Contains (pc + d) ↔ w.Contains pc := by
  have hinside := h.inside_iff pc
  rw [Contains, Contains, ← and_assoc, ← and_assoc, hinside]
  exact and_congr_right fun hpc ↦ by rw [(h.toNat_sub hpc).1]

end Shifts

end Window

section Shift

variable {config : Config} {d : BitVec 64} {w w' : Window} {source source' : Source}

/-- Moved by a multiple of the largest page, a window is in the place of the first one. -/
def Placement.shift (hpage : config.pageShift ≤ 32) (hd : 0x100000000 ∣ d.toNat)
    (h : w.Shifts d w') : Placement config w w' where
  move := (· + d)
  move_add := fun pc e ↦ VirtAddr.eq_of_toNat_eq (by
    simp only [VirtAddr.toNat_add]
    omega)
  injective := fun a b hab ↦ VirtAddr.eq_of_toNat_eq (by
    have ha := a.toNat_lt
    have hb := b.toNat_lt
    have hsame := congrArg VirtAddr.toNat hab
    simp only [VirtAddr.toNat_add] at hsame
    omega)
  start := h.start.symm
  words := by rw [Window.words, Window.words, h.size_eq]
  contains_iff := h.contains_iff
  offset := fun _ hpc ↦ (h.toNat_sub ⟨hpc.1, hpc.2.1⟩).1
  startsPage := config.startsPage_add hpage hd
  page_eq_iff := config.page_add_eq_iff hpage hd

/-- The second source translates an address moved by `d` exactly if the first one translates the
address, and then both fetch the same words there. -/
structure Source.Relocates (space : AddressSpace) (d : BitVec 64) (source source' : Source) :
    Prop where
  translate_iff : ∀ pc,
    (source'.translate space (pc + d)).isSome = (source.translate space pc).isSome
  opcode : ∀ pc, ∀ phys ∈ source.translate space pc, ∀ phys' ∈ source'.translate space (pc + d),
    source'.fetchOpcode phys' = source.fetchOpcode phys
  argument : ∀ pc, ∀ phys ∈ source.translate space pc, ∀ phys' ∈ source'.translate space (pc + d),
    source'.fetchArgument phys' = source.fetchArgument phys

/-- The analysis at another place, with the physical address that the source has there. -/
def Analysis.relocate (space : AddressSpace) (source' : Source) (d : BitVec 64) (a : Analysis) :
    Analysis :=
  { a with
    pc := a.pc + d
    phys := (source'.translate space (a.pc + d)).getD (a.pc + d).toPhys
    target := a.target.map (· + d) }

/-- The code of a window at the place of another one. -/
def Recast.shift (hpage : config.pageShift ≤ 32) (hd : 0x100000000 ∣ d.toNat) (h : w.Shifts d w')
    (source' : Source) : Recast config w w' where
  toPlacement := .shift hpage hd h
  phys := fun pc _ ↦ (source'.translate config.addressSpace (pc + d)).getD (pc + d).toPhys

variable (hpage : config.pageShift ≤ 32) (hd : 0x100000000 ∣ d.toNat) (h : w.Shifts d w')
  (hsource : source.Relocates config.addressSpace d source')

theorem Recast.analysis_shift : (Recast.shift hpage hd h source').analysis =
    Analysis.relocate config.addressSpace source' d := rfl

include hsource

/-- Relocated code shows the relocated analysis everywhere. -/
theorem Recast.agrees_shift (pc : VirtAddr) :
    (Recast.shift hpage hd h source').Agrees source source' pc := by
  have hregion : 0x10000000 ∣ d.toNat := Nat.dvd_trans (by decide) hd
  have hmoved := hsource.translate_iff pc
  rw [Agrees, analysis_shift]
  show config.analyze source' (pc + d) = _
  cases hphys : source.translate config.addressSpace pc with
  | none =>
    rw [hphys, Option.isSome_none, Option.isSome_eq_false_iff, Option.isNone_iff_eq_none] at hmoved
    rw [Config.analyze_of_translate_eq_none hphys, Config.analyze_of_translate_eq_none hmoved]
    simp only [Analysis.relocate, Analysis.fault, Analysis.fresh, hmoved, Option.getD_none,
      Option.map_none]
  | some phys =>
    rw [hphys, Option.isSome_some, Option.isSome_iff_exists] at hmoved
    obtain ⟨phys', hphys'⟩ := hmoved
    have hopcode := hsource.opcode pc phys hphys phys' hphys'
    have hargument := hsource.argument pc phys hphys phys' hphys'
    rw [Config.analyze_of_translate_eq_some hphys, Config.analyze_of_translate_eq_some hphys',
      Analysis.decoded, Analysis.decoded, hopcode, hargument, Analysis.effect_add _ _ _ hregion]
    simp only [Analysis.relocate, Analysis.ofEffect, Effect.shift, hphys', Option.getD_some]
    rfl

omit hsource

/-! ### Outlines -/

variable (hmax : w.max.toNat ≤ 0xfffffffffffffff8) (hmax' : w'.max.toNat ≤ 0xfffffffffffffff8)

include hmax hmax'

/-- Moved with its window, the front range has the same exit. -/
theorem Outline.frontExit_shift {spot : w.Spot} {found : Site}
    (hlookup : (Survey.run config source w).lookup spot = some found) :
    frontExit w' ((Recast.shift hpage hd h source').analysis found.node) =
      frontExit w found.node := by
  have hdescribes := Survey.describes_of_lookup_run hlookup
  have hfall := config.toNat_fallthrough_analyze source spot.pc
  have hlt := w.max.toNat_lt
  obtain ⟨hmin, hpc, -⟩ := spot.inside
  have hinside := (h.inside_iff spot.pc).mpr ⟨hmin, hpc⟩
  have hstart : w'.start = w'.min ↔ w.start = w.min := by
    rw [h.start, h.min]
    exact (Placement.shift hpage hd h).injective.eq_iff
  have hreach : w'.max ≤ found.node.fallthrough + d ↔ w.max ≤ found.node.fallthrough := by
    rw [hdescribes.fallthrough_node]
    rw [h.max] at hmax' hinside ⊢
    simp only [VirtAddr.le_iff, VirtAddr.lt_iff, VirtAddr.toNat_add] at *
    split at hfall <;> omega
  have hmoved : ((Recast.shift hpage hd h source').analysis found.node).fallthrough =
      found.node.fallthrough + d := Recast.fallthrough_analysis _ _
  rw [frontExit, frontExit, hmoved]
  simp only [hstart, hreach]

include hsource

/-- The outline of relocated code holds the relocated sites. -/
theorem Outline.sites_describe_shift : (describe config source' w').sites =
    (describe config source w).sites.map (Recast.shift hpage hd h source').site := by
  refine sites_describe_recast _ (fun _ _ _ pc _ ↦ Recast.agrees_shift hpage hd h hsource pc)
    fun last hlast ↦ ?_
  obtain ⟨spot, hlookup, -⟩ := Survey.mem_front_iff.mp (List.mem_of_getLast? hlast)
  exact frontExit_shift hpage hd h hmax hmax' hlookup

end Shift

end MipsBlocks
