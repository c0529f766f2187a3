import MipsBlocks.Proofs.Block.Exits
import MipsBlocks.Proofs.Frontend.Order

/-!
# The ranges of a block

The chain of a block goes through two ranges: the descriptors from the start on (`Frontend.front`)
and those before it (`Frontend.back`). `ranges_eq` says so, and `front_eq` and `back_eq` that each
of them is the range of the outline.

`Frontend.RangeExits` says which descriptors leave a range and how. The last one before the start is
said to come back to the start. The last one from the start on is too if the window begins at the
start and the descriptor falls through past its end; otherwise it asks for a fresh lookup. A
stand-in asks for one wherever it is. The main statement is `rangeExits_of_describeBlock`.

Falling through past the end of the window is meant modulo the size of the address space: a likely
branch two words before its end falls through to address zero, which is below every end, and so is
not said to come back (`return_wrapped`).
-/

set_option autoImplicit false
set_option relaxedAutoImplicit false

namespace MipsBlocks

/-- The number of the address after an analysis and the slots it skips. It may be past the last
address. -/
def Analysis.reach (a : Analysis) : Nat := a.pc.toNat + a.length * (1 + a.skipSlots)

/-- Falling through comes to the reach, unless that is past the last address. -/
theorem Analysis.toNat_fallthrough {a : Analysis} (h : a.length * (1 + a.skipSlots) ≤ 8) :
    a.fallthrough.toNat = a.reach % 0x10000000000000000 := by
  have hsmall : (BitVec.ofNat 64 (a.length * (1 + a.skipSlots))).toNat =
      a.length * (1 + a.skipSlots) := by
    rw [BitVec.toNat_ofNat, Nat.mod_eq_of_lt (by omega)]
  rw [fallthrough, VirtAddr.toNat_add, hsmall, reach]

/-- What is above an analysis is past its fall-through only if the address space is not. -/
theorem Analysis.le_fallthrough_iff {a : Analysis} (h : a.length * (1 + a.skipSlots) ≤ 8)
    {max : VirtAddr} (hmax : a.pc < max) (haligned : max.IsAligned) (hpc : a.pc.IsAligned) :
    max ≤ a.fallthrough ↔ max.toNat ≤ a.reach ∧ a.reach < 0x10000000000000000 := by
  have hlt := a.pc.toNat_lt
  have hbound := max.toNat_lt
  rw [VirtAddr.lt_iff] at hmax
  rw [VirtAddr.IsAligned] at haligned hpc
  rw [VirtAddr.le_iff, toNat_fallthrough h]
  unfold reach
  omega

namespace Frontend

/-! ### The two ranges -/

/-- The descriptors of the chain from the start on. -/
def front (f : Frontend) (b : Block) (start : VirtAddr) : List Analysis :=
  (f.analyses b).filter fun a ↦ start ≤ a.pc

/-- The descriptors of the chain before the start. -/
def back (f : Frontend) (b : Block) (start : VirtAddr) : List Analysis :=
  (f.analyses b).filter fun a ↦ a.pc < start

section Added

variable {config : Config} {source : Source} {w : Window} {before f : Frontend} {b : Block}
  {used : List Handle}

/-- The analyses of a range of the outline. -/
def rangeAnalyses (limit : Nat) (exit : Analysis → RangeExit) (sites : List Site) :
    List Analysis :=
  ((Outline.range limit exit sites).map (List.map Site.node)).flatten

theorem rangeAnalyses_eq (limit : Nat) (exit : Analysis → RangeExit) (sites : List Site) :
    rangeAnalyses limit exit sites = (Outline.range limit exit sites).flatten.map Site.node :=
  List.map_flatten.symm

theorem pcs_rangeAnalyses (limit : Nat) (exit : Analysis → RangeExit) (sites : List Site) :
    (rangeAnalyses limit exit sites).map Analysis.pc = sites.map (·.node.pc) := by
  rw [rangeAnalyses_eq, List.map_map]
  exact (map_eq_of_forall₂ (Outline.gains_range limit exit sites) fun _ _ hab ↦ hab.pc.symm).symm

theorem analyses_eq_append (h : before.Adds f b used (Outline.describe config source w).sites) :
    f.analyses b =
      rangeAnalyses config.maxSequence (Outline.frontExit w) (Survey.run config source w).front ++
        rangeAnalyses config.maxSequence (fun _ ↦ .returnToStart)
          (Survey.run config source w).back := by
  rw [h.analyses_eq, rangeAnalyses_eq, rangeAnalyses_eq, ← List.map_append,
    ← List.flatten_append]
  rfl

/-- The analyses of a range of the outline have the addresses of the range. -/
theorem exists_mem_of_mem_rangeAnalyses {limit : Nat} {exit : Analysis → RangeExit}
    {sites : List Site} {a : Analysis} (ha : a ∈ rangeAnalyses limit exit sites) :
    ∃ site ∈ sites, site.node.pc = a.pc := by
  have hpc : a.pc ∈ (rangeAnalyses limit exit sites).map Analysis.pc :=
    List.mem_map.mpr ⟨a, ha, rfl⟩
  rw [pcs_rangeAnalyses] at hpc
  exact List.mem_map.mp hpc

theorem le_pc_of_mem_rangeAnalyses {limit : Nat} {exit : Analysis → RangeExit} {a : Analysis}
    (ha : a ∈ rangeAnalyses limit exit (Survey.run config source w).front) : w.start ≤ a.pc := by
  obtain ⟨site, hsite, hpc⟩ := exists_mem_of_mem_rangeAnalyses ha
  obtain ⟨spot, hlookup, hle⟩ := Survey.mem_front_iff.mp hsite
  rwa [← hpc, Survey.pc_of_lookup_run hlookup]

theorem pc_lt_of_mem_rangeAnalyses {limit : Nat} {exit : Analysis → RangeExit} {a : Analysis}
    (ha : a ∈ rangeAnalyses limit exit (Survey.run config source w).back) : a.pc < w.start := by
  obtain ⟨site, hsite, hpc⟩ := exists_mem_of_mem_rangeAnalyses ha
  obtain ⟨spot, hlookup, hlt⟩ := Survey.mem_back_iff.mp hsite
  rwa [← hpc, Survey.pc_of_lookup_run hlookup]

theorem front_eq (h : before.Adds f b used (Outline.describe config source w).sites) :
    f.front b w.start = rangeAnalyses config.maxSequence (Outline.frontExit w)
      (Survey.run config source w).front := by
  rw [front, analyses_eq_append h, List.filter_append, List.filter_eq_self.mpr fun a ha ↦ ?_,
    List.filter_eq_nil_iff.mpr fun a ha ↦ ?_, List.append_nil]
  · rw [decide_eq_true_eq]
    exact Nat.not_le_of_lt (pc_lt_of_mem_rangeAnalyses ha)
  · exact decide_eq_true (le_pc_of_mem_rangeAnalyses ha)

theorem back_eq (h : before.Adds f b used (Outline.describe config source w).sites) :
    f.back b w.start = rangeAnalyses config.maxSequence (fun _ ↦ .returnToStart)
      (Survey.run config source w).back := by
  rw [back, analyses_eq_append h, List.filter_append, List.filter_eq_nil_iff.mpr fun a ha ↦ ?_,
    List.filter_eq_self.mpr fun a ha ↦ ?_, List.nil_append]
  · exact decide_eq_true (pc_lt_of_mem_rangeAnalyses ha)
  · rw [decide_eq_true_eq]
    exact Nat.not_lt_of_le (le_pc_of_mem_rangeAnalyses ha)

/-- A chain is its range from the start on and then its range before the start. -/
theorem ranges_eq (h : before.Adds f b used (Outline.describe config source w).sites) :
    f.analyses b = f.front b w.start ++ f.back b w.start := by
  rw [front_eq h, back_eq h, analyses_eq_append h]

/-! ### The last descriptor of a range -/

/-- The last descriptor of a range has the address of the last site of the range. -/
theorem mem_getLast?_rangeAnalyses_iff
    (h : before.Adds f b used (Outline.describe config source w).sites) {limit : Nat}
    {exit : Analysis → RangeExit} {sites : List Site} {spot : w.Spot} {found : Site} {a : Analysis}
    (hsub : ∀ c ∈ rangeAnalyses limit exit sites, c ∈ f.analyses b)
    (hmem : ∀ site ∈ sites, ∃ spot, (Survey.run config source w).lookup spot = some site)
    (hlookup : (Survey.run config source w).lookup spot = some found)
    (ha : a ∈ f.analyses b) (hpc : a.pc = spot.pc) :
    found ∈ sites.getLast? ↔ a ∈ (rangeAnalyses limit exit sites).getLast? := by
  have hpcs := congrArg List.getLast? (pcs_rangeAnalyses limit exit sites)
  rw [List.getLast?_map, List.getLast?_map] at hpcs
  constructor
  · intro hlast
    rw [Option.mem_def.mp hlast, Option.map_some] at hpcs
    obtain ⟨c, hc, hcpc⟩ := Option.map_eq_some_iff.mp hpcs
    rw [Survey.pc_of_lookup_run hlookup, ← hpc] at hcpc
    have hsame := List.inj_on_of_nodup_map (ordered_of_adds h).nodup
      (hsub c (List.mem_of_getLast? hc)) ha hcpc
    rwa [hsame] at hc
  · intro hlast
    rw [Option.mem_def.mp hlast, Option.map_some] at hpcs
    obtain ⟨site, hsite, hsitepc⟩ := Option.map_eq_some_iff.mp hpcs.symm
    obtain ⟨spot', hlookup'⟩ := hmem site (List.mem_of_getLast? hsite)
    rw [Survey.pc_of_lookup_run hlookup', hpc] at hsitepc
    rw [Window.Spot.eq_of_pc_eq hsitepc, hlookup] at hlookup'
    rwa [Option.some.inj hlookup']

/-- What a descriptor leaves its range by. -/
theorem exists_exit (h : before.Adds f b used (Outline.describe config source w).sites)
    {a : Analysis} (ha : a ∈ f.analyses b) (e : RangeExit) :
    e.flag ∈ a.flags ↔ (e = .redispatch ∧ a.isFault = true) ∨
      (a ∈ (f.front b w.start).getLast? ∧ a.isFault = false ∧ Outline.frontExit w a = e) ∨
        (a ∈ (f.back b w.start).getLast? ∧ a.isFault = false ∧ .returnToStart = e) := by
  have hmem := ha
  rw [h.analyses_eq] at hmem
  obtain ⟨site, hsite, hnode⟩ := List.mem_map.mp hmem
  obtain ⟨spot, found, hlookup, hgains, hexit⟩ := Outline.exists_exit_of_mem hsite
  rw [hnode] at hexit
  have hdescribes := Survey.describes_of_lookup_run hlookup
  have hpc : a.pc = spot.pc := by rw [← hnode, hgains.pc, hdescribes.pc_node]
  have hfault : .redispatch ∈ found.node.flags ↔ a.isFault = true := by
    rw [hdescribes.mem_flags_iff (by decide), isFault_iff h ha, hpc]
    constructor
    · exact Config.translate_eq_none_of_mem_flags (by decide)
    · intro hnone
      rw [Config.analyze_of_translate_eq_none hnone]
      exact (by decide : Flag.redispatch ∈ Analysis.faultFlags)
  have hreturn : .returnToStart ∉ found.node.flags := by
    rw [hdescribes.mem_flags_iff (by decide)]
    exact Analysis.notMem_flags_describe _ _ _ _ (by decide)
  have hfound : e.flag ∈ found.node.flags ↔ e = .redispatch ∧ a.isFault = true := by
    cases e
    · exact hfault.trans (by simp)
    · exact iff_of_false hreturn (by simp)
  have hfront : found ∈ (Survey.run config source w).front.getLast? ↔
      a ∈ (f.front b w.start).getLast? := by
    rw [front_eq h]
    refine mem_getLast?_rangeAnalyses_iff h (fun c hc ↦ ?_) (fun site hsite ↦ ?_) hlookup ha hpc
    · rw [analyses_eq_append h]
      exact List.mem_append.mpr (.inl hc)
    · obtain ⟨spot, hspot, -⟩ := Survey.mem_front_iff.mp hsite
      exact ⟨spot, hspot⟩
  have hback : found ∈ (Survey.run config source w).back.getLast? ↔
      a ∈ (f.back b w.start).getLast? := by
    rw [back_eq h]
    refine mem_getLast?_rangeAnalyses_iff h (fun c hc ↦ ?_) (fun site hsite ↦ ?_) hlookup ha hpc
    · rw [analyses_eq_append h]
      exact List.mem_append.mpr (.inr hc)
    · obtain ⟨spot, hspot, -⟩ := Survey.mem_back_iff.mp hsite
      exact ⟨spot, hspot⟩
  have hexits : Outline.frontExit w found.node = Outline.frontExit w a := by
    rw [Outline.frontExit, Outline.frontExit, ← hnode, hgains.fallthrough]
  rw [hexit e, hfound, Outline.Leaves, Outline.Leaves, hfront, hback, hfault, hexits,
    Bool.not_eq_true]

/-- The ranges have no last descriptor in common. -/
theorem notMem_getLast?_back {start : VirtAddr} {a : Analysis}
    (hfront : a ∈ (f.front b start).getLast?) : a ∉ (f.back b start).getLast? := by
  intro hback
  have hle := (List.mem_filter.mp (List.mem_of_getLast? hfront)).2
  have hlt := (List.mem_filter.mp (List.mem_of_getLast? hback)).2
  exact Nat.not_le_of_lt (of_decide_eq_true hlt) (of_decide_eq_true hle)

theorem returnToStart_mem_iff
    (h : before.Adds f b used (Outline.describe config source w).sites) {a : Analysis}
    (ha : a ∈ f.analyses b) : .returnToStart ∈ a.flags ↔
      (a ∈ (f.front b w.start).getLast? ∧ a.isFault = false ∧
        Outline.frontExit w a = .returnToStart) ∨
      (a ∈ (f.back b w.start).getLast? ∧ a.isFault = false) := by
  simpa [RangeExit.flag] using exists_exit h ha .returnToStart

theorem redispatch_mem_iff (h : before.Adds f b used (Outline.describe config source w).sites)
    {a : Analysis} (ha : a ∈ f.analyses b) : .redispatch ∈ a.flags ↔ a.isFault = true ∨
      (a ∈ (f.front b w.start).getLast? ∧ a.isFault = false ∧
        Outline.frontExit w a = .redispatch) := by
  simpa [RangeExit.flag] using exists_exit h ha .redispatch

/-- No descriptor of a chain leaves its range in both ways. -/
theorem not_redispatch_and_returnToStart
    (h : before.Adds f b used (Outline.describe config source w).sites) {a : Analysis}
    (ha : a ∈ f.analyses b) : ¬ (.redispatch ∈ a.flags ∧ .returnToStart ∈ a.flags) := by
  rintro ⟨hlookup, hreturn⟩
  rcases (returnToStart_mem_iff h ha).mp hreturn with ⟨hlast, hfault, hexit⟩ | ⟨hlast, hfault⟩ <;>
    rcases (redispatch_mem_iff h ha).mp hlookup with hfault' | ⟨hlast', -, hexit'⟩
  · simp [hfault] at hfault'
  · simp [hexit] at hexit'
  · simp [hfault] at hfault'
  · exact notMem_getLast?_back hlast' hlast

theorem length_mul_le (h : before.Adds f b used (Outline.describe config source w).sites)
    {a : Analysis} (ha : a ∈ f.analyses b) : a.length * (1 + a.skipSlots) ≤ 8 := by
  obtain ⟨gained, -, required, heq⟩ := exists_gained h ha
  have hlength : a.length = insnWidth :=
    (congrArg Analysis.length heq).trans (Analysis.length_describe ..)
  have hskip : a.skipSlots ≤ 1 := by
    rw [heq]
    exact Analysis.skipSlots_describe_le ..
  rw [hlength, insnWidth]
  omega

/-- The range from the start on comes back to the start where it reaches the end of the window. -/
theorem frontExit_eq_iff (h : before.Adds f b used (Outline.describe config source w).sites)
    {a : Analysis} (ha : a ∈ f.analyses b) : Outline.frontExit w a = .returnToStart ↔
      w.start = w.min ∧ w.max.toNat ≤ a.reach ∧ a.reach < 0x10000000000000000 := by
  have hreach := Analysis.le_fallthrough_iff (length_mul_le h ha) (contains_pc h ha).2.1
    w.max_aligned (isAligned_pc h ha)
  rw [← hreach, Outline.frontExit]
  split
  · exact iff_of_true rfl ‹_›
  · exact iff_of_false (by simp) ‹_›

/-- No delay slot leaves a range. -/
theorem notMem_flags_slot_of_exit {site : Site}
    (hsite : site ∈ (Outline.describe config source w).sites) {slot : Analysis}
    (hslot : slot ∈ site.slot) : .returnToStart ∉ slot.flags := by
  obtain ⟨spot, found, hlookup, hgains⟩ := Outline.exists_lookup_of_mem hsite
  obtain ⟨old, hold, required, rfl⟩ := hgains.exists_slot hslot
  exact (Survey.describes_of_lookup_run hlookup).notMem_flags_slot hold (by decide) (by decide)

end Added

/-! ### Leaving the ranges -/

/-- How the descriptors of a block leave its ranges. -/
structure RangeExits (f : Frontend) (b : Block) (start min max : VirtAddr) : Prop where
  /-- The chain is the range from the start on and then the range before the start. -/
  ranges : f.analyses b = f.front b start ++ f.back b start
  /-- Delay slots included. -/
  disjoint : ∀ d ∈ f.descriptors b, ¬ (.redispatch ∈ d.flags ∧ .returnToStart ∈ d.flags)
  returnToStart_iff : ∀ a ∈ f.analyses b, .returnToStart ∈ a.flags ↔ a.isFault = false ∧
    (a ∈ (f.back b start).getLast? ∨ start = min ∧ a ∈ (f.front b start).getLast? ∧
      max.toNat ≤ a.reach ∧ a.reach < 0x10000000000000000)
  redispatch_iff : ∀ a ∈ f.analyses b, .redispatch ∈ a.flags ↔
    a.isFault = true ∨ a ∈ (f.front b start).getLast? ∧ .returnToStart ∉ a.flags

theorem rangeExits_of_adds {config : Config} {source : Source} {w : Window} {before f : Frontend}
    {b : Block} {used : List Handle}
    (h : before.Adds f b used (Outline.describe config source w).sites) :
    f.RangeExits b w.start w.min w.max := by
  refine ⟨ranges_eq h, fun d hd ↦ ?_, fun a ha ↦ ?_, fun a ha ↦ ?_⟩
  · have hanalysis : d.toAnalysis ∈ (f.descriptors b).map Descriptor.toAnalysis :=
      List.mem_map_of_mem hd
    rw [h.descriptors_eq, List.mem_flatMap] at hanalysis
    obtain ⟨site, hsite, hmem⟩ := hanalysis
    rw [Site.analyses, List.mem_append, Option.mem_toList, List.mem_singleton] at hmem
    rcases hmem with hslot | hnode
    · exact fun hboth ↦ notMem_flags_slot_of_exit hsite hslot hboth.2
    · refine not_redispatch_and_returnToStart h ?_
      rw [h.analyses_eq, hnode]
      exact List.mem_map_of_mem hsite
  · rw [returnToStart_mem_iff h ha, frontExit_eq_iff h ha]
    tauto
  · rw [redispatch_mem_iff h ha, returnToStart_mem_iff h ha]
    refine or_congr_right' fun hfetched ↦ ?_
    rw [Bool.not_eq_true] at hfetched
    constructor
    · rintro ⟨hlast, -, hexit⟩
      refine ⟨hlast, ?_⟩
      rintro (⟨-, -, hexit'⟩ | ⟨hback, -⟩)
      · simp [hexit] at hexit'
      · exact notMem_getLast?_back hlast hback
    · rintro ⟨hlast, hnot⟩
      refine ⟨hlast, hfetched, ?_⟩
      cases hexit : Outline.frontExit w a with
      | redispatch => rfl
      | returnToStart => exact absurd (.inl ⟨hlast, hfetched, hexit⟩) hnot

/-- A description that succeeds in a session gives a block whose ranges are left in this way. -/
theorem rangeExits_of_describeBlock {config : Config} {valid : config.Valid}
    {ops : List Session.Op} {source : Source} {start min max : VirtAddr} {b : Block} {f : Frontend}
    (h : (Session.run config valid ops).frontend.describeBlock source start min max = .ok (b, f)) :
    f.RangeExits b start min max := by
  obtain ⟨w, rfl, rfl, rfl, hadds⟩ := Session.exists_window_of_describeBlock h
  exact rangeExits_of_adds hadds

/-- The front range of the loop ends at the end of its window, the back range at a likely branch. -/
theorem rangeExits_loop : ∃ b f,
    (Session.run {} Config.valid_default []).frontend.describeBlock .loop ⟨0x1008⟩ ⟨0x1000⟩
      ⟨0x1018⟩ = .ok (b, f) ∧
    (f.front b ⟨0x1008⟩).map Analysis.pc = [⟨0x1008⟩, ⟨0x100c⟩, ⟨0x1010⟩, ⟨0x1014⟩] ∧
    (f.back b ⟨0x1008⟩).map Analysis.pc = [⟨0x1000⟩, ⟨0x1004⟩] ∧
    f.RangeExits b ⟨0x1008⟩ ⟨0x1000⟩ ⟨0x1018⟩ := by
  have h : (Session.run {} Config.valid_default []).frontend.describeBlock .loop ⟨0x1008⟩ ⟨0x1000⟩
      ⟨0x1018⟩ = .ok (_, _) := rfl
  exact ⟨_, _, h, by decide +kernel, by decide +kernel, rangeExits_of_describeBlock h⟩

open Assembler in
/-- The likely branch falls through past the last address. It is fetched, it is the last descriptor
of a window that begins at the start, and the address after it and its delay slot is above the end
of the window, but it asks for a fresh lookup. -/
theorem return_wrapped : ∃ b f,
    (Session.run {} Config.valid_default []).frontend.describeBlock
      (.listing ⟨0xfffffffffffffff8⟩ [bnel 8 9 0xfffe, nop]) ⟨0xfffffffffffffff8⟩
        ⟨0xfffffffffffffff8⟩ ⟨0xfffffffffffffffc⟩ = .ok (b, f) ∧
    ∃ a ∈ (f.front b ⟨0xfffffffffffffff8⟩).getLast?, a.isFault = false ∧
      VirtAddr.toNat ⟨0xfffffffffffffffc⟩ ≤ a.reach ∧ .returnToStart ∉ a.flags ∧
        .redispatch ∈ a.flags :=
  ⟨_, _, rfl, by decide +kernel⟩

end Frontend

end MipsBlocks
