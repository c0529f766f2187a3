import MipsBlocks.Proofs.Block.Outline

/-!
# The exits of ranges

The flags of an exit stand at the last site of a range, unless it asks for a fresh lookup by itself
(`Outline.Leaves`, `exists_exit_of_mem`). So a site that is said to come back to the start is the
last one before the start, or the last one of a window that begins at the start and ends before the
fall-through of the site (`returnToStart_of_mem`).

The last site before the start comes to the start when it is fallen through, if it does not end its
sequence: nothing lies between the two (`fallthrough_of_getLast?_back`). A likely branch whose delay
slot is the start skips it.
-/

set_option autoImplicit false
set_option relaxedAutoImplicit false

namespace MipsBlocks

/-- Nothing comes after the last element of a sorted list. -/
theorem pc_le_of_mem_getLast? {l : List Site} (hl : l.Pairwise fun a b ↦ a.node.pc < b.node.pc)
    {a b : Site} (ha : a ∈ l.getLast?) (hb : b ∈ l) : b.node.pc ≤ a.node.pc := by
  rw [← List.dropLast_append_getLast? a ha] at hl hb
  rcases List.mem_append.mp hb with hb | hb
  · exact Nat.le_of_lt ((List.pairwise_append.mp hl).2.2 b hb a (List.mem_singleton.mpr rfl))
  · rw [List.mem_singleton.mp hb]
    exact Nat.le_refl _

theorem nodup_of_pairwise_pc {l : List Site}
    (hl : l.Pairwise fun a b ↦ a.node.pc < b.node.pc) : l.Nodup := by
  refine List.nodup_iff_pairwise_ne.mpr (hl.imp fun hlt heq ↦ ?_)
  rw [heq] at hlt
  exact Nat.lt_irrefl _ hlt

namespace Outline

/-- A site leaves a range by an exit: it is the last one there and does not ask for a fresh lookup
by itself. -/
def Leaves (exit : Analysis → RangeExit) (sites : List Site) (a : Site) (e : RangeExit) : Prop :=
  a ∈ sites.getLast? ∧ .redispatch ∉ a.node.flags ∧ exit a.node = e

theorem mem_exitFlags_iff {exit : Analysis → RangeExit} {last : Analysis} {e : RangeExit} :
    e.flag ∈ exitFlags exit last ↔ .redispatch ∉ last.flags ∧ exit last = e := by
  unfold exitFlags
  split
  · rename_i hredispatch
    refine iff_of_false ?_ fun h ↦ h.1 hredispatch
    cases e <;> decide
  · rename_i hredispatch
    rw [and_iff_right hredispatch]
    cases e <;> cases exit last <;> decide

/-- The second site is the first one of a range with what it gains there, and has the flag of an
exit if the first one had it or leaves the range by it. -/
structure Exits (exit : Analysis → RangeExit) (sites : List Site) (a b : Site) : Prop where
  gains : Site.Gains .ofEnds a b
  mem_flags_iff : ∀ e : RangeExit,
    e.flag ∈ b.node.flags ↔ e.flag ∈ a.node.flags ∨ Leaves exit sites a e

theorem exits_close (exit : Analysis → RangeExit) {sites : List Site} (hnodup : sites.Nodup) :
    List.Forall₂ (Exits exit sites) sites (close exit sites) := by
  rcases List.eq_nil_or_concat sites with rfl | ⟨init, last, rfl⟩
  · exact .nil
  · rw [List.concat_eq_append] at hnodup ⊢
    rw [close_concat]
    refine List.rel_append (List.forall₂_same.mpr fun a ha ↦ ?_) (.cons ?_ .nil)
    · refine ⟨a.gains_refl _, fun e ↦ (or_iff_left ?_).symm⟩
      rintro ⟨hlast, -⟩
      obtain rfl : last = a := by simpa using hlast
      exact (List.nodup_append.mp hnodup).2.2 last ha last (List.mem_singleton.mpr rfl) rfl
    · have hlast : last ∈ (init ++ [last]).getLast? := by simp
      have hends : Flags.ofExit ⊆ Flags.ofEnds := by decide
      refine ⟨last.gains_flag (fun f hf ↦ hends f (exitFlags_subset exit last.node f hf))
        (isKnown_exitFlags exit last.node), fun e ↦ ?_⟩
      rw [Site.mem_flags_flag, Leaves, and_iff_right hlast, mem_exitFlags_iff]

/-- Cutting a range does not change its exit. -/
theorem exits_range (limit : Nat) (exit : Analysis → RangeExit) {sites : List Site}
    (hnodup : sites.Nodup) :
    List.Forall₂ (Exits exit sites) sites (range limit exit sites).flatten := by
  refine comp_of_forall₂ (fun a b c hab hbc ↦ ?_) (exits_close exit hnodup)
    (gains_pieces limit exit sites)
  refine ⟨hab.gains.trans (hbc.mono (by decide)), fun e ↦ ?_⟩
  rw [← hab.mem_flags_iff]
  exact hbc.mem_flags_iff (by cases e <;> decide)

end Outline

namespace Survey

variable {config : Config} {source : Source} {w : Window}

/-- The last site before the start falls through to the start, if it does not end its sequence and
is no likely branch with the start in its delay slot. -/
theorem fallthrough_of_getLast?_back {spot : w.Spot} {found : Site}
    (hlookup : (run config source w).lookup spot = some found)
    (hlast : found ∈ (run config source w).back.getLast?)
    (hends : (config.analyze source spot.pc).endsSequence = false) :
    found.node.fallthrough = w.start ∨
      .likelyBranch ∈ (config.analyze source spot.pc).flags ∧ spot.pc + 4#64 = w.start := by
  have hpc := pc_of_lookup_run hlookup
  have hlt : spot.pc < w.startSpot.pc :=
    lt_start_of_mem_back hlookup (List.mem_of_getLast? hlast)
  by_cases hslot : .likelyBranch ∈ (config.analyze source spot.pc).flags ∧
      spot.pc + 4#64 = w.start
  · exact .inr hslot
  · obtain ⟨t, hedge, hafter, hbefore⟩ := Window.exists_fallEdge_of_lt hlt hends
      fun hlikely hstart ↦ hslot ⟨hlikely, hstart⟩
    have hfall : found.node.fallthrough = t.pc := by
      rw [(describes_of_lookup_run hlookup).fallthrough_node, hedge.fallthrough]
    refine .inl (hfall.trans (VirtAddr.eq_of_toNat_eq (Nat.le_antisymm hbefore ?_)))
    by_contra hnot
    obtain ⟨next, hnext⟩ := found_of_fallEdge_run hlookup hedge
    have hback : next ∈ (run config source w).back :=
      mem_back_iff.mpr ⟨t, hnext, Nat.lt_of_not_le hnot⟩
    have hle := pc_le_of_mem_getLast? (pairwise_back config source w) hlast hback
    rw [pc_of_lookup_run hnext, hpc] at hle
    exact absurd hafter (Nat.not_lt_of_le hle)

end Survey

namespace Outline

variable {config : Config} {source : Source} {w : Window} {site : Site}

/-- A site of an outline has the flag of an exit exactly if it leaves one of the two ranges by it,
or had it before. -/
theorem exists_exit_of_mem (h : site ∈ (describe config source w).sites) :
    ∃ spot found, (Survey.run config source w).lookup spot = some found ∧
      Site.Gains .ofEnds found site ∧ ∀ e : RangeExit,
        e.flag ∈ site.node.flags ↔ e.flag ∈ found.node.flags ∨
          Leaves (frontExit w) (Survey.run config source w).front found e ∨
          Leaves (fun _ ↦ .returnToStart) (Survey.run config source w).back found e := by
  have hfront := nodup_of_pairwise_pc (Survey.pairwise_front config source w)
  have hback := nodup_of_pairwise_pc (Survey.pairwise_back config source w)
  rw [sites] at h
  change site ∈ (ofSurvey config (Survey.run config source w)).flatten at h
  rw [ofSurvey, List.flatten_append, List.mem_append] at h
  rcases h with h | h
  · obtain ⟨found, hfound, hexits⟩ := exists_mem_of_forall₂ (exits_range _ _ hfront) h
    obtain ⟨spot, hlookup, -⟩ := Survey.mem_front_iff.mp hfound
    refine ⟨spot, found, hlookup, hexits.gains, fun e ↦ (hexits.mem_flags_iff e).trans ?_⟩
    refine or_congr_right (or_iff_left ?_).symm
    rintro ⟨hlast, -⟩
    exact Survey.notMem_back_of_mem_front hfound (List.mem_of_getLast? hlast)
  · obtain ⟨found, hfound, hexits⟩ := exists_mem_of_forall₂ (exits_range _ _ hback) h
    obtain ⟨spot, hlookup, -⟩ := Survey.mem_back_iff.mp hfound
    refine ⟨spot, found, hlookup, hexits.gains, fun e ↦ (hexits.mem_flags_iff e).trans ?_⟩
    refine or_congr_right (or_iff_right ?_).symm
    rintro ⟨hlast, -⟩
    exact Survey.notMem_back_of_mem_front (List.mem_of_getLast? hlast) hfound

/-- What is said to come back to the start was fetched, and is the last site before the start or
falls through past the end of a window that begins at the start. -/
theorem returnToStart_of_mem (h : site ∈ (describe config source w).sites)
    (hflag : .returnToStart ∈ site.node.flags) :
    ∃ spot found, (Survey.run config source w).lookup spot = some found ∧
      Site.Gains .ofEnds found site ∧ source.translate config.addressSpace spot.pc ≠ none ∧
        (found ∈ (Survey.run config source w).back.getLast? ∨
          w.start = w.min ∧ w.max ≤ found.node.fallthrough) := by
  obtain ⟨spot, found, hlookup, hgains, hexit⟩ := exists_exit_of_mem h
  have hdescribes := Survey.describes_of_lookup_run hlookup
  have hdescribed : Flag.returnToStart ∉ found.node.flags := by
    rw [hdescribes.mem_flags_iff (by decide)]
    exact Analysis.notMem_flags_describe _ _ _ _ (by decide)
  have hfetched (hredispatch : Flag.redispatch ∉ found.node.flags) :
      source.translate config.addressSpace spot.pc ≠ none := by
    intro hnone
    rw [hdescribes.mem_flags_iff (by decide), Config.analyze_of_translate_eq_none hnone]
      at hredispatch
    exact hredispatch (by decide : Flag.redispatch ∈ Analysis.faultFlags)
  refine ⟨spot, found, hlookup, hgains, ?_⟩
  rcases ((hexit .returnToStart).mp hflag).resolve_left hdescribed with
    ⟨-, hredispatch, hexits⟩ | ⟨hlast, hredispatch, -⟩
  · refine ⟨hfetched hredispatch, .inr ?_⟩
    unfold frontExit at hexits
    split at hexits
    · assumption
    · cases hexits
  · exact ⟨hfetched hredispatch, .inl hlast⟩

end Outline

end MipsBlocks
