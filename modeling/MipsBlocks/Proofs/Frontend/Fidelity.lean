import MipsBlocks.Proofs.Block.Exits
import MipsBlocks.Proofs.Frontend.Pages
import MipsBlocks.Proofs.Frontend.Sequences

/-!
# What a block makes of its instructions

A descriptor of a block says of its address what the decoder says of it alone, or is the stand-in of
an address that cannot be fetched (`Frontend.Faithful`, `faithful_of_describeBlock`). The block adds
the required registers and some flags: to a delay slot that it is one, to a descriptor of the chain
those that depend on the rest of the block (`Flags.ofBlock`), and to a stand-in at most that it is a
branch target. A block whose start cannot be fetched is the stand-in of its start.
-/

set_option autoImplicit false
set_option relaxedAutoImplicit false

namespace MipsBlocks

/-- More flags and required registers leave everything else as it is. -/
theorem Analysis.eq_of_flag {a x : Analysis} {flags : Flags} {required : RegSet}
    (h : a = { x.flag flags with required }) :
    a = { x with flags := a.flags, required := a.required } := by
  subst h
  rfl

/-- What writes no register requires none. -/
theorem Analysis.required_eq_empty {a : Analysis}
    (hsubset : ∀ r : Register, r ∈ a.required → r ∈ a.writes) (hwrites : a.writes = ∅) :
    a.required = ∅ := by
  ext r
  have hmem := hsubset r
  rw [hwrites] at hmem
  exact iff_of_false (fun hr ↦ RegSet.not_mem_empty r (hmem hr)) (RegSet.not_mem_empty r)

namespace Frontend

/-- The descriptors of a block say what the decoder says of their addresses. -/
structure Faithful (f : Frontend) (b : Block) (config : Config) (source : Source) (w : Window) :
    Prop where
  fault : ∀ a ∈ f.analyses b, source.translate config.addressSpace a.pc = none →
    a = .fault a.pc ∨ a = (Analysis.fault a.pc).flag {.branchTarget}
  decoded : ∀ a ∈ f.analyses b, ∀ phys, source.translate config.addressSpace a.pc = some phys →
    ∃ gained ⊆ Flags.ofBlock, ∃ required,
      a = { (Analysis.decoded config.flavor source a.pc phys).flag gained with required }
  /-- No bit is set that carries no flag. -/
  known : ∀ a ∈ f.analyses b, a.flags.IsKnown
  /-- A check of the translation comes with the exception that it can raise, and where translations
  are not checked there is none. -/
  checked : ∀ a ∈ f.analyses b, source.translate config.addressSpace a.pc ≠ none →
    .validateTlb ∈ a.flags → .canCauseException ∈ a.flags ∧ config.pageShift ≠ 0
  slot : ∀ e ∈ f.chain b, ∀ k ∈ e.2.delaySlot, ∃ d, f.descriptor? k = some d ∧
    d.pc = e.2.pc + 4#64 ∧
    (source.translate config.addressSpace d.pc = none →
      d.toAnalysis = (Analysis.fault d.pc).flag {.inDelaySlot}) ∧
    ∀ phys, source.translate config.addressSpace d.pc = some phys → ∃ required, d.toAnalysis =
      { (Analysis.decoded config.flavor source d.pc phys).flag {.inDelaySlot} with required }
  start : source.translate config.addressSpace w.start = none →
    f.chain b =
      [(b.head, { toAnalysis := (Analysis.fault w.start).flag {.branchTarget} })]

section Added

variable {config : Config} {source : Source} {w : Window} {before f : Frontend} {b : Block}
  {used : List Handle}

theorem isKnown_flags (h : before.Adds f b used (Outline.describe config source w).sites)
    {a : Analysis} (ha : a ∈ f.analyses b) : a.flags.IsKnown := by
  obtain ⟨spot, found, site, hlookup, hgains, rfl⟩ := exists_found_of_mem h ha
  exact hgains.known (Survey.isKnown_of_lookup_run hlookup)

/-- Only written registers are required. -/
theorem required_subset (h : before.Adds f b used (Outline.describe config source w).sites)
    {a : Analysis} (ha : a ∈ f.analyses b) (r : Register) (hr : r ∈ a.required) :
    r ∈ a.writes := by
  rw [h.analyses_eq] at ha
  obtain ⟨site, hsite, rfl⟩ := List.mem_map.mp ha
  exact (Outline.mem_writes_of_mem_required hsite).1 hr

/-- A stand-in leads nowhere. -/
theorem notMem_flags_fault (h : before.Adds f b used (Outline.describe config source w).sites)
    {a : Analysis} (ha : a ∈ f.analyses b)
    (hnone : source.translate config.addressSpace a.pc = none) :
    .intrablockBranch ∉ a.flags ∧ .returnToStart ∉ a.flags := by
  constructor
  · intro hmarked
    obtain ⟨-, dest, -, hedge, -⟩ := (covers_of_adds h).marked a ha hmarked
    exact hedge.fetched hnone
  · intro hreturns
    rw [h.analyses_eq] at ha
    obtain ⟨site, hsite, rfl⟩ := List.mem_map.mp ha
    obtain ⟨spot, found, hlookup, hgains, hfetched, -⟩ :=
      Outline.returnToStart_of_mem hsite hreturns
    rw [hgains.pc, Survey.pc_of_lookup_run hlookup] at hnone
    exact hfetched hnone

theorem mem_flags_fault_iff (h : before.Adds f b used (Outline.describe config source w).sites)
    {a : Analysis} (ha : a ∈ f.analyses b)
    (hnone : source.translate config.addressSpace a.pc = none) {g : Flag} :
    g ∈ a.flags ↔ g ∈ Analysis.faultFlags ∨ (g = .branchTarget ∧ .branchTarget ∈ a.flags) := by
  obtain ⟨gained, hgained, required, heq⟩ := exists_gained h ha
  rw [Config.analyze_of_translate_eq_none hnone] at heq
  obtain ⟨hmarked, hreturns⟩ := notMem_flags_fault h ha hnone
  have hflags : a.flags = Analysis.faultFlags ∪ gained := congrArg Analysis.flags heq
  -- a stand-in has most of the flags that a block gives anyway
  have hblock : Flags.ofBlock ⊆
      Analysis.faultFlags ∪ {.branchTarget, .intrablockBranch, .returnToStart} := by decide
  constructor
  · intro hg
    have hcases := hg
    rw [hflags, Flags.mem_union] at hcases
    rcases hcases with hfault | hnew
    · exact .inl hfault
    · have hnew := hblock g (hgained g hnew)
      simp only [Flags.mem_union, Flags.mem_insert, Flags.mem_singleton] at hnew
      rcases hnew with hfault | rfl | rfl | rfl
      · exact .inl hfault
      · exact .inr ⟨rfl, hg⟩
      · exact absurd hg hmarked
      · exact absurd hg hreturns
  · rintro (hfault | ⟨rfl, hg⟩)
    · rw [hflags]
      exact Flags.mem_union.mpr (.inl hfault)
    · exact hg

/-- The block makes a stand-in a branch target at most. -/
theorem eq_fault (h : before.Adds f b used (Outline.describe config source w).sites)
    {a : Analysis} (ha : a ∈ f.analyses b)
    (hnone : source.translate config.addressSpace a.pc = none) :
    a = .fault a.pc ∨ a = (Analysis.fault a.pc).flag {.branchTarget} := by
  obtain ⟨gained, -, required, heq⟩ := exists_gained h ha
  rw [Config.analyze_of_translate_eq_none hnone] at heq
  have hknown := isKnown_flags h ha
  have hrequired : a.required = ∅ :=
    Analysis.required_eq_empty (required_subset h ha) (congrArg Analysis.writes heq)
  have hform := Analysis.eq_of_flag heq
  rw [hrequired] at hform
  by_cases htarget : .branchTarget ∈ a.flags
  · have hexact : a.flags = Analysis.faultFlags ∪ {.branchTarget} := by
      refine Flags.eq_of_isKnown hknown (by decide) fun g ↦ ?_
      rw [mem_flags_fault_iff h ha hnone, and_iff_left htarget, Flags.mem_union,
        Flags.mem_singleton]
    rw [hexact] at hform
    exact .inr hform
  · have hexact : a.flags = Analysis.faultFlags := by
      refine Flags.eq_of_isKnown hknown (by decide) fun g ↦ ?_
      rw [mem_flags_fault_iff h ha hnone, or_iff_left fun hg ↦ htarget hg.2]
    rw [hexact] at hform
    exact .inl hform

/-- A delay slot is the description of the address after its branch, flagged as a slot. -/
theorem exists_slot_eq (h : before.Adds f b used (Outline.describe config source w).sites)
    {e : Handle × Descriptor} (he : e ∈ f.chain b) {k : Handle} (hk : k ∈ e.2.delaySlot) :
    ∃ d, f.descriptor? k = some d ∧ d.pc = e.2.pc + 4#64 ∧
      (∀ r : Register, r ∈ d.required → r ∈ d.writes) ∧ ∃ required, d.toAnalysis =
        { (config.analyze source d.pc).flag {.inDelaySlot} with required } := by
  obtain ⟨site, hsite, hnode, slot, hslot, hget⟩ := exists_slot_of_mem h he hk
  obtain ⟨spot, found, hlookup, hgains⟩ := Outline.exists_lookup_of_mem hsite
  have hdescribes := Survey.describes_of_lookup_run hlookup
  obtain ⟨old, hold, required, hgained⟩ := hgains.exists_slot hslot
  have hanalyzed : slot =
      { (config.analyze source (spot.pc + 4#64)).flag {.inDelaySlot} with required } := by
    rw [hgained, hdescribes.slot_eq hold]
    rfl
  have hpc : slot.pc = spot.pc + 4#64 :=
    (congrArg Analysis.pc hanalyzed).trans (Analysis.pc_describe ..)
  have howner : e.2.pc = spot.pc := by
    rw [← hdescribes.pc_node, ← hgains.pc, hnode]
  refine ⟨_, hget, by rw [howner]; exact hpc, fun r hr ↦ ?_, required, ?_⟩
  · exact (Outline.mem_writes_of_mem_required hsite).2 slot hslot hr
  · show slot = { (config.analyze source slot.pc).flag {.inDelaySlot} with required }
    rw [hpc]
    exact hanalyzed

/-- A block whose start cannot be fetched is the stand-in of its start. -/
theorem chain_eq_fault (hvalid : config.Valid)
    (h : before.Adds f b used (Outline.describe config source w).sites)
    (hnone : source.translate config.addressSpace w.start = none) :
    f.chain b =
      [(b.head, { toAnalysis := (Analysis.fault w.start).flag {.branchTarget} })] := by
  obtain ⟨site, hsites, hpc, hslot⟩ := Outline.exists_sites_eq_singleton hnone
  obtain ⟨handles, hinstalled⟩ := h.installed
  have hchain := h.complete
  rw [hsites] at hinstalled
  obtain ⟨e, rest, hsame, hnil, heq⟩ := List.forall₂_cons_right_iff.mp hinstalled
  rw [List.forall₂_nil_right_iff.mp hnil] at heq
  have hnode : site.node = (Analysis.fault w.start).flag {.branchTarget} := by
    have hmem : site.node ∈ f.analyses b := by
      rw [h.analyses_eq, hsites]
      exact List.mem_cons_self
    have htarget : .branchTarget ∈ site.node.flags :=
      Outline.branchTarget_head? hvalid (by rw [hsites]; rfl)
    rcases eq_fault h hmem (by rw [hpc]; exact hnone) with hplain | hmarked
    · rw [hplain] at htarget
      exact absurd htarget (by decide : Flag.branchTarget ∉ Analysis.faultFlags)
    · rwa [hpc] at hmarked
  rw [Complete, heq] at hchain
  obtain ⟨k, d⟩ := e
  obtain ⟨a, next, delaySlot, owner⟩ := d
  cases hchain with
  | cons head tail =>
    cases tail with
    | nil =>
      obtain rfl : a = (Analysis.fault w.start).flag {.branchTarget} :=
        hsame.toAnalysis.trans hnode
      obtain rfl : delaySlot = none := hsame.delaySlot.trans (by rw [hslot]; rfl)
      obtain rfl : owner = none := hsame.owner
      exact heq

theorem faithful_of_adds (hvalid : config.Valid)
    (h : before.Adds f b used (Outline.describe config source w).sites) :
    f.Faithful b config source w := by
  refine ⟨fun a ha hnone ↦ eq_fault h ha hnone, ?_, fun a ha ↦ isKnown_flags h ha, ?_, ?_,
    chain_eq_fault hvalid h⟩
  · intro a ha phys hphys
    obtain ⟨gained, hgained, required, heq⟩ := exists_gained h ha
    refine ⟨gained, hgained, required, ?_⟩
    rwa [Config.analyze_of_translate_eq_some hphys] at heq
  · intro a ha hfetched hflag
    have hvalidated := validated_of_adds h
    refine ⟨hvalidated.exception a ha hflag, ?_⟩
    rcases (hvalidated.checked_iff a ha).mp hflag with hfault | ⟨hshift, -⟩
    · exact absurd ((isFault_iff h ha).mp hfault) hfetched
    · exact hshift
  · intro e he k hk
    obtain ⟨d, hget, hpc, hsubset, required, heq⟩ := exists_slot_eq h he hk
    refine ⟨d, hget, hpc, fun hnone ↦ ?_, fun phys hphys ↦ ⟨required, ?_⟩⟩
    · rw [Config.analyze_of_translate_eq_none hnone] at heq
      have hrequired : d.required = ∅ :=
        Analysis.required_eq_empty hsubset (congrArg Analysis.writes heq)
      have hflags : d.flags = Analysis.faultFlags ∪ {.inDelaySlot} := congrArg Analysis.flags heq
      have hform := Analysis.eq_of_flag heq
      rw [hrequired, hflags] at hform
      exact hform
    · rwa [Config.analyze_of_translate_eq_some hphys] at heq

end Added

/-- A description that succeeds in a session is faithful to the decoder. -/
theorem faithful_of_describeBlock {config : Config} {valid : config.Valid} {ops : List Session.Op}
    {source : Source} {start min max : VirtAddr} {b : Block} {f : Frontend}
    (h : (Session.run config valid ops).frontend.describeBlock source start min max = .ok (b, f)) :
    ∃ w : Window, w.start = start ∧ w.min = min ∧ w.max = max ∧
      f.Faithful b config source w := by
  obtain ⟨w, hstart, hmin, hmax, hadds⟩ := Session.exists_window_of_describeBlock h
  exact ⟨w, hstart, hmin, hmax, faithful_of_adds valid hadds⟩

/-- In a window one word longer the loop runs into an address that cannot be fetched. -/
theorem faithful_loop : ∃ b f,
    (Session.run {} Config.valid_default []).frontend.describeBlock .loop ⟨0x1008⟩ ⟨0x1000⟩
      ⟨0x101c⟩ = .ok (b, f) ∧
    (∃ a ∈ f.analyses b, a.pc = ⟨0x1018⟩ ∧
      (a = .fault ⟨0x1018⟩ ∨ a = (Analysis.fault ⟨0x1018⟩).flag {.branchTarget})) ∧
    ∃ w : Window, w.start = ⟨0x1008⟩ ∧ w.min = ⟨0x1000⟩ ∧ w.max = ⟨0x101c⟩ ∧
      f.Faithful b {} .loop w := by
  obtain ⟨b, f, h, a, ha, hpc⟩ : ∃ b f,
      (Session.run {} Config.valid_default []).frontend.describeBlock .loop ⟨0x1008⟩ ⟨0x1000⟩
        ⟨0x101c⟩ = .ok (b, f) ∧ ∃ a ∈ f.analyses b, a.pc = ⟨0x1018⟩ :=
    ⟨_, _, rfl, by decide +kernel⟩
  obtain ⟨w, hstart, hmin, hmax, hfaithful⟩ := faithful_of_describeBlock h
  refine ⟨b, f, h, ⟨a, ha, hpc, ?_⟩, w, hstart, hmin, hmax, hfaithful⟩
  rw [← hpc]
  exact hfaithful.fault a ha (by rw [hpc]; decide)

end Frontend

end MipsBlocks
