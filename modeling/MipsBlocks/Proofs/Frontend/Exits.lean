import MipsBlocks.Proofs.Block.Exits
import MipsBlocks.Proofs.Frontend.Session

/-!
# Coming back to the start

A descriptor that is said to come back to the start of its block does so when it is fallen through:
it falls through to the start, or past the end of a window that begins at the start
(`returns_of_describeBlock`). Jumps and what always raises an exception are not fallen through.

The last descriptor before the start is said to come back wherever it falls through to, and two
kinds of them do not (`return_missed`). What switches modes ends its sequence, so the survey does
not follow it and the start can be any distance away. A likely branch whose delay slot is the start
skips it.
-/

set_option autoImplicit false
set_option relaxedAutoImplicit false

namespace MipsBlocks

namespace Frontend

variable {config : Config} {source : Source} {w : Window} {before f : Frontend} {b : Block}
  {used : List Handle}

/-- The last site before the start comes last of the descriptors before the start. -/
theorem pc_le_of_getLast?_back (h : before.Adds f b used (Outline.describe config source w).sites)
    {last : Site} (hlast : last ∈ (Survey.run config source w).back.getLast?) {c : Analysis}
    (hc : c ∈ f.analyses b) (hlt : c.pc < w.start) : c.pc ≤ last.node.pc := by
  obtain ⟨spot, found, site, hlookup, hgains, rfl⟩ := exists_found_of_mem h hc
  rw [hgains.pc] at hlt ⊢
  refine pc_le_of_mem_getLast? (Survey.pairwise_back config source w) hlast ?_
  rw [Survey.pc_of_lookup_run hlookup] at hlt
  exact Survey.mem_back_iff.mpr ⟨spot, hlookup, hlt⟩

/-- The descriptors that are said to come back to the start and can be fallen through. -/
theorem returns_of_adds (h : before.Adds f b used (Outline.describe config source w).sites)
    {a : Analysis} (ha : a ∈ f.analyses b) (hflag : .returnToStart ∈ a.flags)
    (hjump : .unconditionalBranch ∉ a.flags) (hraises : .willCauseException ∉ a.flags) :
    a.fallthrough = w.start ∨ (w.start = w.min ∧ w.max ≤ a.fallthrough) ∨
      a.pc < w.start ∧ (∀ c ∈ f.analyses b, c.pc < w.start → c.pc ≤ a.pc) ∧
        ((config.analyze source a.pc).endsSequence = true ∧ .canChangeModes ∈ a.flags ∨
          .likelyBranch ∈ a.flags ∧ a.pc + 4#64 = w.start) := by
  have hmem := ha
  rw [h.analyses_eq] at hmem
  obtain ⟨site, hsite, rfl⟩ := List.mem_map.mp hmem
  obtain ⟨spot, found, hlookup, hgains, hfetched, hexit⟩ :=
    Outline.returnToStart_of_mem hsite hflag
  have hpc : site.node.pc = spot.pc := by rw [hgains.pc, Survey.pc_of_lookup_run hlookup]
  rcases hexit with hlast | ⟨hstart, hmax⟩
  · have hback : site.node.pc < w.start := by
      rw [hpc]
      exact Survey.lt_start_of_mem_back hlookup (List.mem_of_getLast? hlast)
    have hnext : ∀ c ∈ f.analyses b, c.pc < w.start → c.pc ≤ site.node.pc := by
      intro c hc hlt
      rw [hgains.pc]
      exact pc_le_of_getLast?_back h hlast hc hlt
    rw [← hpc] at hfetched
    cases hends : (config.analyze source site.node.pc).endsSequence with
    | true =>
      refine .inr (.inr ⟨hback, hnext, .inl ⟨rfl, ?_⟩⟩)
      rw [mem_flags_iff h ha (by decide)] at hjump hraises ⊢
      exact Config.canChangeModes_of_endsSequence hfetched hends hjump hraises
    | false =>
      rw [hpc] at hends
      rcases Survey.fallthrough_of_getLast?_back hlookup hlast hends with hfall | ⟨hlikely, hslot⟩
      · exact .inl (hgains.fallthrough.trans hfall)
      · rw [← hpc] at hlikely hslot
        exact .inr (.inr ⟨hback, hnext, .inr ⟨(mem_flags_iff h ha (by decide)).mpr hlikely, hslot⟩⟩)
  · exact .inr (.inl ⟨hstart, by rwa [hgains.fallthrough]⟩)

/-- In a block that a session describes, what is said to come back to the start and can be fallen
through falls through to the start or past the end of a window that begins there, unless it is the
last descriptor before the start and either ends its sequence because it may switch modes or is a
likely branch with the start in its delay slot. -/
theorem returns_of_describeBlock {valid : config.Valid} {ops : List Session.Op}
    {start min max : VirtAddr}
    (h : (Session.run config valid ops).frontend.describeBlock source start min max = .ok (b, f)) :
    ∀ a ∈ f.analyses b, .returnToStart ∈ a.flags → .unconditionalBranch ∉ a.flags →
      .willCauseException ∉ a.flags →
      a.fallthrough = start ∨ (start = min ∧ max ≤ a.fallthrough) ∨
        a.pc < start ∧ (∀ c ∈ f.analyses b, c.pc < start → c.pc ≤ a.pc) ∧
          ((config.analyze source a.pc).endsSequence = true ∧ .canChangeModes ∈ a.flags ∨
            .likelyBranch ∈ a.flags ∧ a.pc + 4#64 = start) := by
  obtain ⟨w, rfl, rfl, rfl, hadds⟩ := Session.exists_window_of_describeBlock h
  exact fun a ha ↦ returns_of_adds hadds ha

/-- The likely branch before the start of the loop has the start in its delay slot. -/
theorem returns_loop : ∃ b f,
    (Session.run {} Config.valid_default []).frontend.describeBlock .loop ⟨0x1008⟩ ⟨0x1000⟩
      ⟨0x1018⟩ = .ok (b, f) ∧
    ∃ a ∈ f.analyses b, a.pc = ⟨0x1004⟩ ∧ .returnToStart ∈ a.flags ∧
      .unconditionalBranch ∉ a.flags ∧ .willCauseException ∉ a.flags ∧
      a.fallthrough ≠ ⟨0x1008⟩ ∧ .likelyBranch ∈ a.flags ∧ a.pc + 4#64 = ⟨0x1008⟩ := by
  obtain ⟨b, f, h, a, ha, hpc, hflag, hjump, hraises, hmodes, hfall⟩ : ∃ b f,
      (Session.run {} Config.valid_default []).frontend.describeBlock .loop ⟨0x1008⟩ ⟨0x1000⟩
        ⟨0x1018⟩ = .ok (b, f) ∧
      ∃ a ∈ f.analyses b, a.pc = ⟨0x1004⟩ ∧ .returnToStart ∈ a.flags ∧
        .unconditionalBranch ∉ a.flags ∧ .willCauseException ∉ a.flags ∧
        .canChangeModes ∉ a.flags ∧ a.fallthrough ≠ ⟨0x1008⟩ :=
    ⟨_, _, rfl, by decide +kernel⟩
  refine ⟨b, f, h, a, ha, hpc, hflag, hjump, hraises, hfall, ?_⟩
  rcases returns_of_describeBlock h a ha hflag hjump hraises with
    hyes | ⟨hyes, -⟩ | ⟨-, -, ⟨-, hyes⟩ | hlikely⟩
  · exact absurd hyes hfall
  · exact absurd hyes (by decide)
  · exact absurd hyes hmodes
  · exact hlikely

open Assembler in
/-- The likely branch falls through past the start, the write of the status is three words away from
it; both are said to come back. -/
theorem return_missed :
    (∃ b f, (Session.run {} Config.valid_default []).frontend.describeBlock
        (.listing ⟨0x1000⟩ [nop, bnel 8 9 0xfffe, nop, beq 0 0 0xfffc, nop]) ⟨0x1008⟩ ⟨0x1000⟩
          ⟨0x1014⟩ = .ok (b, f) ∧
      ∃ a ∈ f.analyses b, .returnToStart ∈ a.flags ∧ .unconditionalBranch ∉ a.flags ∧
        .willCauseException ∉ a.flags ∧ a.fallthrough = ⟨0x100c⟩) ∧
    ∃ b f, (Session.run {} Config.valid_default []).frontend.describeBlock
        (.listing ⟨0x2000⟩ [mtc0 8 12, nop, nop, beq 0 0 0xfffc, nop, nop]) ⟨0x200c⟩ ⟨0x2000⟩
          ⟨0x2014⟩ = .ok (b, f) ∧
      ∃ a ∈ f.analyses b, .returnToStart ∈ a.flags ∧ .unconditionalBranch ∉ a.flags ∧
        .willCauseException ∉ a.flags ∧ a.fallthrough = ⟨0x2004⟩ :=
  ⟨⟨_, _, rfl, by decide +kernel⟩, ⟨_, _, rfl, by decide +kernel⟩⟩

end Frontend

end MipsBlocks
