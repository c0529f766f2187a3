import MipsBlocks.Proofs.Frontend.Session

/-!
# Reachability in a block

The chain of a described block holds addresses that control can reach from the start of the window,
and whatever control can reach from them in one step: falling through always, by a branch where the
branch is marked as one inside the block. Only branches of the chain with a target in the window are
marked. With a stack as deep as the window has words all of them are, and the chain holds exactly
the addresses that control can reach (`Frontend.Covers`).

The main statement is `covers_of_describeBlock`: this is true of every description that succeeds in
a session.
-/

set_option autoImplicit false
set_option relaxedAutoImplicit false

namespace MipsBlocks

namespace Frontend

/-- An address is that of a descriptor of the chain. -/
def OnChain (f : Frontend) (b : Block) (pc : VirtAddr) : Prop := ∃ a ∈ f.analyses b, a.pc = pc

/-- What the chain of a block covers of the code in a window. -/
structure Covers (f : Frontend) (b : Block) (config : Config) (source : Source) (w : Window) :
    Prop where
  reaches : ∀ pc, f.OnChain b pc → w.Reaches config source pc
  start : f.OnChain b w.start
  fall : ∀ pc, f.OnChain b pc → ∀ dest, w.FallEdge config source pc dest → f.OnChain b dest
  /-- A marked descriptor is a branch, and its target is on the chain. -/
  marked : ∀ a ∈ f.analyses b, .intrablockBranch ∈ a.flags → a.isBranch = true ∧
    ∃ dest, a.target = some dest ∧ w.TargetEdge config source a.pc dest ∧ f.OnChain b dest
  /-- No delay slot is marked. -/
  unmarked : ∀ e ∈ f.chain b, ∀ h ∈ e.2.delaySlot, ∀ d ∈ f.descriptor? h,
    .intrablockBranch ∉ d.flags
  /-- Every branch inside the window is marked, if the stack never fills. -/
  allMarked : (w.max.toNat - w.min.toNat) / 4 ≤ config.maxStackDepth → ∀ a ∈ f.analyses b,
    a.isBranch = true → ∀ dest, a.target = some dest → w.Contains dest →
      .intrablockBranch ∈ a.flags
  complete : (w.max.toNat - w.min.toNat) / 4 ≤ config.maxStackDepth →
    ∀ pc, f.OnChain b pc ↔ w.Reaches config source pc

section Added

variable {config : Config} {source : Source} {w : Window} {before f : Frontend} {b : Block}
  {used : List Handle}

/-- The addresses on the chain are those where the survey found a site. -/
theorem onChain_iff (h : before.Adds f b used (Outline.describe config source w).sites)
    (pc : VirtAddr) : f.OnChain b pc ↔
      ∃ spot : w.Spot, spot.pc = pc ∧
        ∃ found, (Survey.run config source w).lookup spot = some found := by
  constructor
  · rintro ⟨a, ha, rfl⟩
    obtain ⟨spot, found, site, hlookup, hgains, rfl⟩ := exists_found_of_mem h ha
    exact ⟨spot, by rw [hgains.pc, Survey.pc_of_lookup_run hlookup], found, hlookup⟩
  · rintro ⟨spot, rfl, found, hlookup⟩
    obtain ⟨site, hgains, hmem⟩ := exists_mem_of_found h hlookup
    exact ⟨site.node, hmem, by rw [hgains.pc, Survey.pc_of_lookup_run hlookup]⟩

/-- A descriptor of the chain is the description of its address, as far as the survey and the
outline give it no flags. -/
theorem exists_found (h : before.Adds f b used (Outline.describe config source w).sites)
    {a : Analysis} (ha : a ∈ f.analyses b) :
    ∃ spot found, (Survey.run config source w).lookup spot = some found ∧ spot.pc = a.pc ∧
      a.isBranch = (config.analyze source a.pc).isBranch ∧
      a.target = (config.analyze source a.pc).target ∧
      (.intrablockBranch ∈ a.flags ↔ .intrablockBranch ∈ found.node.flags) := by
  obtain ⟨spot, found, site, hlookup, hgains, rfl⟩ := exists_found_of_mem h ha
  have hdescribes := Survey.describes_of_lookup_run hlookup
  have hpc : site.node.pc = spot.pc := by rw [hgains.pc, hdescribes.pc_node]
  refine ⟨spot, found, hlookup, hpc.symm, ?_, ?_, hgains.mem_flags_iff (by decide)⟩
  · rw [hpc, hgains.isBranch, hdescribes.isBranch_node]
  · rw [hpc, hgains.target, hdescribes.target_node]

/-- No delay slot is marked as an intrablock branch. -/
theorem notMem_flags_slot (h : before.Adds f b used (Outline.describe config source w).sites)
    {e : Handle × Descriptor} (he : e ∈ f.chain b) {k : Handle} (hk : k ∈ e.2.delaySlot)
    {d : Descriptor} (hd : d ∈ f.descriptor? k) : .intrablockBranch ∉ d.flags := by
  obtain ⟨site, hsite, -, slot, hslot, hget⟩ := exists_slot_of_mem h he hk
  obtain rfl := Option.some.inj (hget.symm.trans hd)
  obtain ⟨spot, found, hlookup, hgains⟩ := Outline.exists_lookup_of_mem hsite
  obtain ⟨old, hold, required, rfl⟩ := hgains.exists_slot hslot
  show Flag.intrablockBranch ∉ old.flags
  exact (Survey.describes_of_lookup_run hlookup).notMem_flags_slot hold (by decide) (by decide)

/-- A block that describes a window covers what control can reach in it. -/
theorem covers_of_adds (h : before.Adds f b used (Outline.describe config source w).sites) :
    f.Covers b config source w := by
  have hon := onChain_iff h
  refine ⟨?_, ?_, ?_, ?_, fun e he k hk d hd ↦ notMem_flags_slot h he hk hd, ?_, ?_⟩
  · intro pc hpc
    obtain ⟨spot, rfl, found, hlookup⟩ := (hon pc).mp hpc
    exact Survey.reaches_of_lookup_run hlookup
  · obtain ⟨found, hlookup, -⟩ := Survey.startFirst_run config source w
    exact (hon _).mpr ⟨w.startSpot, rfl, found, hlookup⟩
  · intro pc hpc dest hedge
    obtain ⟨spot, rfl, found, hlookup⟩ := (hon pc).mp hpc
    exact (hon _).mpr ⟨⟨dest, hedge.inside⟩, rfl, Survey.found_of_fallEdge_run hlookup hedge⟩
  · intro a ha hmarked
    obtain ⟨spot, found, hlookup, hpc, hbranch, htarget, hflag⟩ := exists_found h ha
    obtain ⟨t, next, hinner, hnext, -⟩ :=
      Survey.found_of_intrablockBranch_run hlookup (hflag.mp hmarked)
    rw [hpc] at hinner
    have hedge := Survey.targetEdge_of_innerTarget? hinner
    exact ⟨hbranch.trans hedge.isBranch, t.pc, htarget.trans hedge.target, hedge,
      (hon _).mpr ⟨t, rfl, next, hnext⟩⟩
  · intro hdepth a ha hbranch dest htarget hinside
    obtain ⟨spot, found, hlookup, hpc, hbranch', htarget', hflag⟩ := exists_found h ha
    refine hflag.mpr (Survey.intrablockBranch_of_target_run hdepth hlookup ?_)
    have hinner : Survey.innerTarget? w (config.analyze source a.pc) = some ⟨dest, hinside⟩ :=
      Survey.innerTarget?_eq_some_iff.mpr ⟨hbranch' ▸ hbranch, htarget' ▸ htarget⟩
    rw [hpc, hinner]
    exact Option.some_ne_none _
  · intro hdepth pc
    constructor
    · intro hpc
      obtain ⟨spot, rfl, found, hlookup⟩ := (hon pc).mp hpc
      exact Survey.reaches_of_lookup_run hlookup
    · intro hreaches
      exact (hon _).mpr (Survey.exists_found_of_reaches hdepth hreaches)

end Added

/-- A description that succeeds in a session covers what control can reach in its window. -/
theorem covers_of_describeBlock {config : Config} {valid : config.Valid} {ops : List Session.Op}
    {source : Source} {start min max : VirtAddr} {b : Block} {f : Frontend}
    (h : (Session.run config valid ops).frontend.describeBlock source start min max = .ok (b, f)) :
    ∃ w : Window, w.start = start ∧ w.min = min ∧ w.max = max ∧
      f.Covers b config source w := by
  obtain ⟨w, hstart, hmin, hmax, hadds⟩ := Session.exists_window_of_describeBlock h
  exact ⟨w, hstart, hmin, hmax, covers_of_adds hadds⟩

theorem covers_loop : ∃ b f,
    (Session.run {} Config.valid_default []).frontend.describeBlock .loop ⟨0x1008⟩ ⟨0x1000⟩
      ⟨0x1018⟩ = .ok (b, f) ∧
    (f.analyses b).map Analysis.pc =
      [⟨0x1008⟩, ⟨0x100c⟩, ⟨0x1010⟩, ⟨0x1014⟩, ⟨0x1000⟩, ⟨0x1004⟩] ∧
    ∃ w : Window, w.start = ⟨0x1008⟩ ∧ w.min = ⟨0x1000⟩ ∧ w.max = ⟨0x1018⟩ ∧
      f.Covers b {} .loop w := by
  have h : (Session.run {} Config.valid_default []).frontend.describeBlock .loop ⟨0x1008⟩ ⟨0x1000⟩
      ⟨0x1018⟩ = .ok (_, _) := rfl
  exact ⟨_, _, h, by decide +kernel, covers_of_describeBlock h⟩

end Frontend

end MipsBlocks
