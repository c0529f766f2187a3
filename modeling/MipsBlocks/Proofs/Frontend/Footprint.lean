import MipsBlocks.Proofs.Block.Recast
import MipsBlocks.Proofs.Frontend.Session

/-!
# The footprint of a block

The footprint of a block is the list of the addresses of its descriptors, on its chain and in its
delay slots. Nothing else was looked at: a source that shows the same at these addresses gives the
same block (`footprint_of_describeBlock`), whatever it has elsewhere or behind an address that
cannot be fetched. So a block is to be described again only when something changes there.
-/

set_option autoImplicit false
set_option relaxedAutoImplicit false

namespace MipsBlocks

/-- The second source shows at an address what the first one shows there: the same physical address
and the same words behind it, or none. -/
def Source.AgreesAt (source source' : Source) (space : AddressSpace) (pc : VirtAddr) : Prop :=
  source'.translate space pc = source.translate space pc ∧
    ∀ phys ∈ source.translate space pc, source'.fetchOpcode phys = source.fetchOpcode phys ∧
      source'.fetchArgument phys = source.fetchArgument phys

instance (source source' : Source) (space : AddressSpace) (pc : VirtAddr) :
    Decidable (source.AgreesAt source' space pc) :=
  inferInstanceAs (Decidable (_ ∧ _))

/-- An analysis looks at nothing but its own address. -/
theorem Config.analyze_congr {config : Config} {source source' : Source} {pc : VirtAddr}
    (h : source.AgreesAt source' config.addressSpace pc) :
    config.analyze source' pc = config.analyze source pc := by
  obtain ⟨htranslate, hwords⟩ := h
  cases hphys : source.translate config.addressSpace pc with
  | none =>
    rw [hphys] at htranslate
    rw [analyze_of_translate_eq_none hphys, analyze_of_translate_eq_none htranslate]
  | some phys =>
    obtain ⟨hopcode, hargument⟩ := hwords phys hphys
    rw [hphys] at htranslate
    rw [analyze_of_translate_eq_some hphys, analyze_of_translate_eq_some htranslate,
      Analysis.decoded, Analysis.decoded, hopcode, hargument]

/-- A site lies in its window, and its delay slot not past the end of it. -/
theorem Survey.le_max_of_mem_pcs {config : Config} {source : Source} {w : Window} {spot : w.Spot}
    {found : Site} (hlookup : (Survey.run config source w).lookup spot = some found) {pc : VirtAddr}
    (hpc : pc ∈ found.pcs) : w.min ≤ pc ∧ pc ≤ w.max := by
  obtain ⟨hmin, hmax, -⟩ := spot.inside
  have hdescribes := describes_of_lookup_run hlookup
  rcases List.mem_cons.mp hpc with rfl | hpc
  · rw [hdescribes.pc_node]
    exact ⟨hmin, Nat.le_of_lt hmax⟩
  · obtain ⟨slot, hslot, rfl⟩ := List.mem_map.mp hpc
    rw [hdescribes.slot_eq (Option.mem_toList.mp hslot), Site.pc_describeSlot, VirtAddr.le_iff,
      VirtAddr.le_iff, spot.toNat_add]
    exact ⟨Nat.le_add_right_of_le hmin, spot.add_le_max⟩

namespace Frontend

/-- The addresses of the descriptors of a block. -/
def footprint (f : Frontend) (b : Block) : List VirtAddr := (f.descriptors b).map (·.pc)

/-- The footprint of a block has the addresses of the sites that the survey found, and no other. -/
theorem mem_footprint_iff {config : Config} {source : Source} {w : Window} {before f : Frontend}
    {b : Block} {used : List Handle}
    (h : before.Adds f b used (Outline.describe config source w).sites) {pc : VirtAddr} :
    pc ∈ f.footprint b ↔
      ∃ spot found, (Survey.run config source w).lookup spot = some found ∧ pc ∈ found.pcs := by
  have hpcs : f.footprint b =
      (Outline.describe config source w).sites.flatMap fun s ↦ s.analyses.map Analysis.pc := by
    rw [← List.map_flatMap, ← h.descriptors_eq, List.map_map]
    rfl
  simp only [hpcs, List.mem_flatMap, (Site.perm_pcs _).mem_iff]
  constructor
  · rintro ⟨site, hsite, hpc⟩
    obtain ⟨spot, found, hlookup, hgains⟩ := Outline.exists_lookup_of_mem hsite
    exact ⟨spot, found, hlookup, hgains.pcs ▸ hpc⟩
  · rintro ⟨spot, found, hlookup, hpc⟩
    obtain ⟨site, hsite, hgains⟩ := Outline.exists_mem_of_lookup hlookup
    exact ⟨site, hsite, hgains.pcs ▸ hpc⟩

/-- A description that succeeds in a session depends on its footprint only, which does not leave the
window but for the delay slot at its end. -/
theorem footprint_of_describeBlock {config : Config} {valid : config.Valid}
    {ops : List Session.Op} {source : Source} {start min max : VirtAddr} {b : Block} {f : Frontend}
    (h : (Session.run config valid ops).frontend.describeBlock source start min max = .ok (b, f)) :
    (∀ pc ∈ f.footprint b, min ≤ pc ∧ pc ≤ max) ∧
    ∀ source' : Source, (∀ pc ∈ f.footprint b, source.AgreesAt source' config.addressSpace pc) →
      (Session.run config valid ops).frontend.describeBlock source' start min max =
        .ok (b, f) := by
  obtain ⟨w, hcheck, hw⟩ := Session.describeBlock_eq_ok_iff.mp h
  have hadds := adds_describeWindow (Session.sound_run config valid ops).accounts source w
  rw [hw, Session.config_run] at hadds
  obtain ⟨rfl, rfl, rfl⟩ := Window.check_eq_ok hcheck
  constructor
  · intro pc hpc
    obtain ⟨spot, found, hlookup, hmem⟩ := (mem_footprint_iff hadds).mp hpc
    exact Survey.le_max_of_mem_pcs hlookup hmem
  · intro source' hagrees
    have houtline : Outline.describe config source' w = Outline.describe config source w := by
      refine Outline.describe_congr fun spot found hlookup pc hpc ↦ ?_
      exact Config.analyze_congr (hagrees pc ((mem_footprint_iff hadds).mpr
        ⟨spot, found, hlookup, hpc⟩))
    refine Session.describeBlock_eq_ok_iff.mpr ⟨w, hcheck, ?_⟩
    rw [← hw, describeWindow, describeWindow, Session.config_run, houtline]

end Frontend

/-- The loop with other words from the address after it on, and with a mapping beyond that. -/
def Source.loopExtended : Source where
  translate := fun space pc ↦
    if pc ≤ ⟨0x1018⟩ then loop.translate space pc else some ⟨pc.bits⟩
  fetchOpcode := fun a ↦
    if a.bits.toNat < 0x1018 then loop.fetchOpcode a else Assembler.breakpoint

/-- The loop runs into the address after it, which cannot be fetched. Which words are behind it, and
what there is beyond, does not matter. -/
theorem Frontend.footprint_loop : ∃ b f,
    (Session.run {} Config.valid_default []).frontend.describeBlock .loop ⟨0x1008⟩ ⟨0x1000⟩
      ⟨0x101c⟩ = .ok (b, f) ∧
    f.footprint b = [⟨0x1008⟩, ⟨0x1010⟩, ⟨0x100c⟩, ⟨0x1010⟩, ⟨0x1014⟩, ⟨0x1018⟩, ⟨0x1000⟩,
      ⟨0x1008⟩, ⟨0x1004⟩] ∧
    (∀ pc ∈ f.footprint b, (⟨0x1000⟩ : VirtAddr) ≤ pc ∧ pc ≤ (⟨0x101c⟩ : VirtAddr)) ∧
    (Session.run {} Config.valid_default []).frontend.describeBlock .loopExtended ⟨0x1008⟩
      ⟨0x1000⟩ ⟨0x101c⟩ = .ok (b, f) := by
  have h : (Session.run {} Config.valid_default []).frontend.describeBlock .loop ⟨0x1008⟩ ⟨0x1000⟩
      ⟨0x101c⟩ = .ok (_, _) := rfl
  obtain ⟨hinside, hdepends⟩ := footprint_of_describeBlock h
  exact ⟨_, _, h, by decide +kernel, hinside, hdepends .loopExtended (by decide +kernel)⟩

end MipsBlocks
