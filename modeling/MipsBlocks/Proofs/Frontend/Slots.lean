import MipsBlocks.Proofs.Frontend.Fidelity
import MipsBlocks.Proofs.WellFormed

/-!
# Delay slots of a block

In a described block exactly the branches other than the return from an exception have a delay
slot. It is a descriptor apart: it knows its branch, has no links of its own, and is on no chain,
whatever its word is and wherever else its address is described (`Frontend.Slotted`). The main
statement is `slotted_of_describeBlock`.

The two kinds of handles of a block, `slotHandles` and `chainHandles`, are what it owns, each once
(`perm_handles_owned`).
-/

set_option autoImplicit false
set_option relaxedAutoImplicit false

namespace MipsBlocks

/-! ### Which addresses have a slot -/

/-- Every branch but the return from an exception has a delay slot. -/
theorem Config.hasSlot_analyze_iff (config : Config) (source : Source) (pc : VirtAddr) :
    (config.analyze source pc).isBranch = true ∧ 0 < (config.analyze source pc).delaySlots ↔
      (config.analyze source pc).isBranch = true ∧
        (config.analyze source pc).opcode ≠ Assembler.eret := by
  refine and_congr_right fun hbranch ↦ ?_
  rcases Analysis.describe_cases config.flavor config.addressSpace source pc with
    ⟨phys, -, h⟩ | ⟨-, h⟩
  · rw [analyze, h] at hbranch ⊢
    have hwell := Analysis.wellFormed_decoded config.flavor source pc phys
    rw [hwell.delaySlots, Ne, ← hwell.isReturn]
    simp only [hbranch, true_and]
    split
    · exact iff_of_true Nat.one_pos ‹_›
    · exact iff_of_false (Nat.lt_irrefl 0) ‹_›
  · rw [analyze, h, Analysis.isBranch_fault] at hbranch
    cases hbranch

namespace Site

theorem isSome_slot_describe_iff (config : Config) (source : Source) (pc : VirtAddr)
    (order : Nat) : (describe config source pc order).slot.isSome = true ↔
      (config.analyze source pc).isBranch = true ∧
        (config.analyze source pc).opcode ≠ Assembler.eret := by
  rw [← config.hasSlot_analyze_iff]
  show (if (config.analyze source pc).isBranch && 0 < (config.analyze source pc).delaySlots then
    some _ else none).isSome = true ↔ _
  split <;> simp_all

theorem Describes.isSome_slot_iff {config : Config} {source : Source} {pc : VirtAddr} {site : Site}
    (h : Describes config source pc site) : site.slot.isSome = true ↔
      site.node.isBranch = true ∧ site.node.opcode ≠ Assembler.eret := by
  rw [h.isBranch_node, h.map_node (g := Analysis.opcode) fun _ _ ↦ rfl]
  obtain ⟨flags, -, heq⟩ := h
  rw [heq]
  exact isSome_slot_describe_iff config source pc site.order

theorem Gains.isSome_slot {allowed : Flags} {a b : Site} (h : Gains allowed a b) :
    b.slot.isSome = a.slot.isSome := by
  obtain ⟨requireSlot, hslot⟩ := h.slot
  rw [hslot, Option.isSome_map]

theorem Gains.opcode {allowed : Flags} {a b : Site} (h : Gains allowed a b) :
    b.node.opcode = a.node.opcode := h.map_node fun _ _ _ ↦ rfl

end Site

namespace Frontend

/-! ### Handles -/

/-- The handles of the delay slots of a block, in the order of the chain. -/
def slotHandles (f : Frontend) (b : Block) : List Handle :=
  (f.chain b).filterMap fun e ↦ e.2.delaySlot

/-- The handles of the chain of a block. -/
def chainHandles (f : Frontend) (b : Block) : List Handle := (f.chain b).map Prod.fst

theorem perm_handles_owned (f : Frontend) (b : Block) :
    (f.slotHandles b ++ f.chainHandles b).Perm (f.owned b) := by
  have hperm := List.flatMap_append_perm (f.chain b) (fun e ↦ e.2.delaySlot.toList) fun e ↦ [e.1]
  rw [slotHandles, chainHandles, List.filterMap_eq_flatMap_toList, List.map_eq_flatMap]
  exact hperm

/-! ### Slots -/

/-- What the delay slots of a block are. -/
structure Slotted (f : Frontend) (b : Block) (max : VirtAddr) : Prop where
  present_iff : ∀ e ∈ f.chain b, e.2.delaySlot.isSome = true ↔
    e.2.isBranch = true ∧ e.2.opcode ≠ Assembler.eret
  -- the slot of the last word of the window is at its end
  slot : ∀ e ∈ f.chain b, ∀ k ∈ e.2.delaySlot, ∃ s, f.descriptor? k = some s ∧
    s.pc.toNat = e.2.pc.toNat + 4 ∧ s.pc ≤ max ∧ .inDelaySlot ∈ s.flags ∧ s.owner = some e.1 ∧
      s.next = none ∧ s.delaySlot = none
  nodup : (f.slotHandles b).Nodup
  apart : (f.slotHandles b).Disjoint (f.chainHandles b)
  chain : ∀ e ∈ f.chain b, .inDelaySlot ∉ e.2.flags ∧ e.2.owner = none

section Added

variable {config : Config} {source : Source} {w : Window} {before f : Frontend} {b : Block}
  {used : List Handle}

theorem isSome_delaySlot_of_installed {p : Pool} {handles : Array Handle}
    {e : Handle × Descriptor} {site : Site} (h : p.Installed handles e site) :
    e.2.delaySlot.isSome = site.slot.isSome := by
  rw [h.delaySlot]
  cases hslot : site.slot with
  | none => rfl
  | some slot =>
    obtain ⟨k, hk, -⟩ := h.slot slot hslot
    rw [Option.bind_some, hk]
    rfl

theorem isSome_delaySlot_iff (h : before.Adds f b used (Outline.describe config source w).sites)
    {e : Handle × Descriptor} (he : e ∈ f.chain b) : e.2.delaySlot.isSome = true ↔
      e.2.isBranch = true ∧ e.2.opcode ≠ Assembler.eret := by
  obtain ⟨handles, site, hsite, hinstalled⟩ := exists_site_of_mem h he
  obtain ⟨spot, found, hlookup, hgains⟩ := Outline.exists_lookup_of_mem hsite
  rw [isSome_delaySlot_of_installed hinstalled, hinstalled.toAnalysis, hgains.isSome_slot,
    hgains.isBranch, hgains.opcode]
  exact (Survey.describes_of_lookup_run hlookup).isSome_slot_iff

theorem exists_slot_descriptor (h : before.Adds f b used (Outline.describe config source w).sites)
    {e : Handle × Descriptor} (he : e ∈ f.chain b) {k : Handle} (hk : k ∈ e.2.delaySlot) :
    ∃ s, f.descriptor? k = some s ∧ s.pc.toNat = e.2.pc.toNat + 4 ∧ s.pc ≤ w.max ∧
      .inDelaySlot ∈ s.flags ∧ s.owner = some e.1 ∧ s.next = none ∧ s.delaySlot = none := by
  obtain ⟨site, -, -, slot, -, hget⟩ := exists_slot_of_mem h he hk
  obtain ⟨d, hd, hpc, -, required, heq⟩ := exists_slot_eq h he hk
  obtain rfl : { slot with owner := some e.1 } = d := Option.some.inj (hget.symm.trans hd)
  let spot : w.Spot := ⟨e.2.pc, contains_pc h (List.mem_map_of_mem he)⟩
  have hflags : slot.flags = _ := congrArg Analysis.flags heq
  refine ⟨_, hget, ?_, ?_, ?_, rfl, rfl, rfl⟩
  · rw [hpc]
    exact spot.toNat_add
  · rw [hpc, VirtAddr.le_iff, spot.toNat_add]
    exact spot.add_le_max
  · show .inDelaySlot ∈ slot.flags
    rw [hflags]
    exact Flags.mem_union.mpr (.inr (Flags.mem_singleton.mpr rfl))

theorem slotted_of_adds (h : before.Adds f b used (Outline.describe config source w).sites) :
    f.Slotted b w.max := by
  have hnodup : (f.slotHandles b ++ f.chainHandles b).Nodup :=
    (perm_handles_owned f b).nodup_iff.mpr h.accounts.nodup.of_append_left.of_append_left
  obtain ⟨hslots, -, hapart⟩ := List.nodup_append'.mp hnodup
  refine ⟨fun e he ↦ isSome_delaySlot_iff h he, fun e he k hk ↦ exists_slot_descriptor h he hk,
    hslots, hapart, fun e he ↦ ⟨?_, ?_⟩⟩
  · rw [mem_flags_iff h (List.mem_map_of_mem he) (by decide)]
    exact Analysis.notMem_flags_describe _ _ _ _ (by decide)
  · obtain ⟨handles, site, -, hinstalled⟩ := exists_site_of_mem h he
    exact hinstalled.owner

end Added

/-- The delay slots of a block that a session describes. -/
theorem slotted_of_describeBlock {config : Config} {valid : config.Valid} {ops : List Session.Op}
    {source : Source} {start min max : VirtAddr} {b : Block} {f : Frontend}
    (h : (Session.run config valid ops).frontend.describeBlock source start min max = .ok (b, f)) :
    f.Slotted b max := by
  obtain ⟨w, -, -, rfl, hadds⟩ := Session.exists_window_of_describeBlock h
  exact slotted_of_adds hadds

/-- The window ends with the branch, so its slot is at the end. -/
theorem slotted_loop : ∃ b f,
    (Session.run {} Config.valid_default []).frontend.describeBlock .loop ⟨0x1008⟩ ⟨0x1000⟩
      ⟨0x1010⟩ = .ok (b, f) ∧
    (∃ e ∈ f.chain b, ∃ k ∈ e.2.delaySlot, ∃ s ∈ f.descriptor? k, s.pc = ⟨0x1010⟩) ∧
    f.Slotted b ⟨0x1010⟩ := by
  have h : (Session.run {} Config.valid_default []).frontend.describeBlock .loop ⟨0x1008⟩ ⟨0x1000⟩
      ⟨0x1010⟩ = .ok (_, _) := rfl
  exact ⟨_, _, h, by decide +kernel, slotted_of_describeBlock h⟩

end Frontend

end MipsBlocks
