import MipsBlocks.Proofs.Frontend.Mirror
import MipsBlocks.Proofs.Relocation

/-!
# Relocated blocks

Code that is moved by a multiple of 4 GiB, modulo the size of the address space, is described as
before from the same pool: by the same handles, with the same flags, cuts and registers. Only its
addresses are moved along, and its physical addresses are those of the other source
(`relocates_of_describeBlock`).

Scope. The windows do not hold the last word of the address space, see `Outline.frontExit_shift`.
-/

set_option autoImplicit false
set_option relaxedAutoImplicit false

namespace MipsBlocks

/-- A listing that is moved shows the same words further on. Assumes: neither listing goes past the
end of the address space. -/
theorem Source.relocates_listing (space : AddressSpace) {base : VirtAddr} {d : BitVec 64}
    {words : List Word} (h : base.toNat + 4 * words.length ≤ 0x10000000000000000)
    (h' : (base + d).toNat + 4 * words.length ≤ 0x10000000000000000) :
    (listing base words).Relocates space d (listing (base + d) words) := by
  have hinside (pc : VirtAddr) :
      (base + d ≤ pc + d ∧ (pc + d).toNat < (base + d).toNat + 4 * words.length) ↔
        base ≤ pc ∧ pc.toNat < base.toNat + 4 * words.length := by
    have hpc := pc.toNat_lt
    simp only [VirtAddr.le_iff, VirtAddr.toNat_add] at h' ⊢
    omega
  have hplace (pc : VirtAddr) (hpc : base ≤ pc ∧ pc.toNat < base.toNat + 4 * words.length) :
      (pc + d).toNat - (base + d).toNat = pc.toNat - base.toNat := by
    have hlt := pc.toNat_lt
    simp only [VirtAddr.le_iff, VirtAddr.toNat_add] at h' hpc ⊢
    omega
  have hfetch (pc : VirtAddr) (phys : PhysAddr)
      (hphys : phys ∈ (listing base words).translate space pc)
      (phys' : PhysAddr) (hphys' : phys' ∈ (listing (base + d) words).translate space (pc + d)) :
      (listing (base + d) words).fetchOpcode phys' = (listing base words).fetchOpcode phys := by
    obtain ⟨hpc, heq⟩ := Option.ite_none_right_eq_some.mp hphys
    obtain ⟨-, heq'⟩ := Option.ite_none_right_eq_some.mp hphys'
    obtain rfl := Option.some.inj heq
    obtain rfl := Option.some.inj heq'
    show words.getD (((pc + d).toNat - (base + d).toNat) / 4) _ = words.getD _ _
    rw [hplace pc hpc]
    rfl
  refine ⟨fun pc ↦ ?_, hfetch, hfetch⟩
  show (if _ then _ else _ : Option PhysAddr).isSome = (if _ then _ else _ : Option PhysAddr).isSome
  simp only [hinside pc]
  split <;> rfl

namespace Frontend

/-- From pools with the same slots and the same free ones, relocated code is described by the same
handles. -/
theorem mirrors_shift {f g : Frontend} {used used' : List Handle} {source source' : Source}
    {w w' : Window} {d : BitVec 64} (hp : f.pool.Accounts used) (hp' : g.pool.Accounts used')
    (hconfig : g.config = f.config) (hfree : g.pool.free = f.pool.free)
    (hsize : g.pool.slots.size = f.pool.slots.size) (hpage : f.config.pageShift ≤ 32)
    (hd : 0x100000000 ∣ d.toNat) (h : w.Shifts d w')
    (hsource : source.Relocates f.config.addressSpace d source')
    (hmax : w.max.toNat ≤ 0xfffffffffffffff8) (hmax' : w'.max.toNat ≤ 0xfffffffffffffff8) :
    (g.describeWindow source' w').1 = (f.describeWindow source w).1 ∧
      Mirrors id (.relocate f.config.addressSpace source' d) (f.describeWindow source w).2
        (f.describeWindow source w).1 (g.describeWindow source' w').2
          (g.describeWindow source' w').1 := by
  have htrace := Outline.trace_describe_recast (.shift hpage hd h source')
    fun _ _ _ pc _ ↦ Recast.agrees_shift hpage hd h hsource pc
  have hhandles : (g.pool.acquireAll (Outline.describe g.config source' w').trace).1 =
      (f.pool.acquireAll (Outline.describe f.config source w).trace).1 :=
    (Pool.acquireAll_congr hfree hsize (by rw [hconfig, htrace, Array.size_map])).1
  constructor
  · have hhead := head_install g (Outline.describe g.config source' w')
    rw [hhandles, head_install f (Outline.describe f.config source w)] at hhead
    exact congrArg Block.mk (Option.some.inj hhead).symm
  · refine mirrors_describeWindow hp hp' ?_ ?_
    · rw [hconfig]
      exact Outline.sites_describe_shift hpage hd h hsource hmax hmax'
    · rw [hhandles, List.map_id]

/-- Code that is moved by a multiple of 4 GiB is described by the same handles, and its descriptors
are the old ones with their addresses moved along. Assumes: the two pools have as many slots and the
same free ones, and neither window holds the last word of the address space. -/
theorem relocates_of_describeBlock {config : Config} {valid : config.Valid}
    {ops ops' : List Session.Op} {source source' : Source} {start min max : VirtAddr}
    {d : BitVec 64} {b b' : Block} {f f' : Frontend} (hd : 0x100000000 ∣ d.toNat)
    (hmax : max.toNat ≤ 0xfffffffffffffff8) (hmax' : (max + d).toNat ≤ 0xfffffffffffffff8)
    (hsource : source.Relocates config.addressSpace d source')
    (hfree : (Session.run config valid ops').frontend.pool.free =
      (Session.run config valid ops).frontend.pool.free)
    (hsize : (Session.run config valid ops').frontend.pool.slots.size =
      (Session.run config valid ops).frontend.pool.slots.size)
    (h : (Session.run config valid ops).frontend.describeBlock source start min max = .ok (b, f))
    (h' : (Session.run config valid ops').frontend.describeBlock source' (start + d) (min + d)
      (max + d) = .ok (b', f')) :
    b' = b ∧ Mirrors id (.relocate config.addressSpace source' d) f b f' b' := by
  obtain ⟨w, hcheck, hw⟩ := Session.describeBlock_eq_ok_iff.mp h
  obtain ⟨w', hcheck', hw'⟩ := Session.describeBlock_eq_ok_iff.mp h'
  obtain ⟨hstart, hmin, rfl⟩ := Window.check_eq_ok hcheck
  obtain ⟨hstart', hmin', hmaxEq⟩ := Window.check_eq_ok hcheck'
  have hshifts : w.Shifts d w' := ⟨by rw [hstart', hstart], by rw [hmin', hmin], hmaxEq⟩
  have hconfig := Session.config_run config valid ops
  have hmirrors := mirrors_shift (Session.sound_run config valid ops).accounts
    (Session.sound_run config valid ops').accounts
    (by rw [hconfig, Session.config_run]) hfree hsize (by rw [hconfig]; exact valid.pageShift_le)
    hd hshifts (by rw [hconfig]; exact hsource) hmax (by rw [hmaxEq]; exact hmax')
  rw [hw, hw', hconfig] at hmirrors
  exact hmirrors

open Assembler in
/-- A short loop, and the same loop 4 GiB further on. -/
theorem relocates_loop : ∃ b f f',
    (Session.run {} Config.valid_default []).frontend.describeBlock
      (.listing ⟨0x1000⟩ [addu 8 8 9, bne 8 9 0xfffe, nop]) ⟨0x1000⟩ ⟨0x1000⟩ ⟨0x100c⟩ =
        .ok (b, f) ∧
    (Session.run {} Config.valid_default []).frontend.describeBlock
      (.listing ⟨0x100001000⟩ [addu 8 8 9, bne 8 9 0xfffe, nop]) ⟨0x100001000⟩ ⟨0x100001000⟩
        ⟨0x10000100c⟩ = .ok (b, f') ∧
    (f'.analyses b).map (fun a ↦ (a.pc, a.target)) =
      [(⟨0x100001000⟩, none), (⟨0x100001004⟩, some ⟨0x100001000⟩), (⟨0x100001008⟩, none)] ∧
    Mirrors id (.relocate .program (.listing ⟨0x100001000⟩ [addu 8 8 9, bne 8 9 0xfffe, nop])
      0x100000000#64) f b f' b := by
  obtain ⟨b, f, b', f', h, h', hpcs⟩ : ∃ b f b' f',
      (Session.run {} Config.valid_default []).frontend.describeBlock
        (.listing ⟨0x1000⟩ [addu 8 8 9, bne 8 9 0xfffe, nop]) ⟨0x1000⟩ ⟨0x1000⟩ ⟨0x100c⟩ =
          .ok (b, f) ∧
      (Session.run {} Config.valid_default []).frontend.describeBlock
        (.listing ⟨0x100001000⟩ [addu 8 8 9, bne 8 9 0xfffe, nop]) ⟨0x100001000⟩ ⟨0x100001000⟩
          ⟨0x10000100c⟩ = .ok (b', f') ∧
      (f'.analyses b').map (fun a ↦ (a.pc, a.target)) =
        [(⟨0x100001000⟩, none), (⟨0x100001004⟩, some ⟨0x100001000⟩), (⟨0x100001008⟩, none)] :=
    ⟨_, _, _, _, rfl, rfl, by decide +kernel⟩
  have hstart : (⟨0x1000⟩ : VirtAddr) + 0x100000000#64 = ⟨0x100001000⟩ := by decide
  have hmax : (⟨0x100c⟩ : VirtAddr) + 0x100000000#64 = ⟨0x10000100c⟩ := by decide
  have hsource : (Source.listing ⟨0x1000⟩ [addu 8 8 9, bne 8 9 0xfffe, nop]).Relocates .program
      0x100000000#64 (.listing ⟨0x100001000⟩ [addu 8 8 9, bne 8 9 0xfffe, nop]) := by
    rw [← hstart]
    exact Source.relocates_listing .program (by decide) (by decide)
  obtain ⟨rfl, hmirrors⟩ := relocates_of_describeBlock (by decide) (by decide)
    (by rw [hmax]; decide) hsource rfl rfl h (by rw [hstart, hmax]; exact h')
  exact ⟨_, _, _, h, h', hpcs, hmirrors⟩

end Frontend

end MipsBlocks
