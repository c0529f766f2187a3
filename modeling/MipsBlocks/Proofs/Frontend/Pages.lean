import MipsBlocks.Proofs.Frontend.Reachability
import MipsBlocks.Proofs.Survey.Pages

/-!
# Entering pages

Where the chain of a described block asks for a check of the translation (`Frontend.Validated`,
`validated_of_describeBlock`): at the stand-ins, at the start, at the first word of a page, and at
the target of a marked branch of another page that came back there. Every check comes with the
exception that it can raise.

Not every way into a page is checked (`entry_unchecked`). A branch that comes first to its target
leaves it unchecked, and so does a likely branch whose delay slot is the first word of a page, which
it skips when it falls through.
-/

set_option autoImplicit false
set_option relaxedAutoImplicit false

namespace MipsBlocks

/-! ### The next page -/

namespace Config

variable {config : Config} {source : Source}

/-- The instruction after one of another page is the first of its page. -/
theorem startsPage_of_page_ne {a : VirtAddr} (ha : a.IsAligned)
    (h : config.page a ≠ config.page (a + 4#64)) : config.startsPage (a + 4#64) = true := by
  obtain ⟨k, hk⟩ : 4 ∣ a.toNat := Nat.dvd_of_mod_eq_zero ha
  have hnext : (a + 4#64).toNat = (4 * (k + 1)) % 0x10000000000000000 := by
    rw [VirtAddr.toNat_add, hk]
    rfl
  have hlt := a.toNat_lt
  rw [startsPage, decide_eq_true_eq, Nat.one_shiftLeft]
  by_cases hwraps : 4 * (k + 1) = 0x10000000000000000
  · rw [hnext, hwraps, Nat.mod_self, Nat.zero_mod]
  · have hexact : (a + 4#64).toNat = 4 * (k + 1) := by omega
    rw [hexact]
    by_cases hsmall : config.pageShift ≤ 2
    · have hword : 2 ^ config.pageShift ∣ 4 := Nat.pow_dvd_pow 2 hsmall
      exact Nat.mod_eq_zero_of_dvd (Nat.dvd_trans hword (Nat.dvd_mul_right 4 _))
    · obtain ⟨m, hm⟩ : ∃ m, config.pageShift = 2 + m := ⟨config.pageShift - 2, by omega⟩
      rw [page, page, Nat.shiftRight_eq_div_pow, Nat.shiftRight_eq_div_pow, hexact, hk, hm,
        Nat.pow_add, Nat.mul_div_mul_left _ _ (by decide), Nat.mul_div_mul_left _ _ (by decide),
        Nat.succ_div] at h
      have hdvd : 2 ^ m ∣ k + 1 := by
        by_contra hnot
        rw [if_neg hnot] at h
        exact h rfl
      rw [hm, Nat.pow_add]
      exact Nat.mod_eq_zero_of_dvd (Nat.mul_dvd_mul_left 4 hdvd)

/-- Falling through into another page leads to its first word, unless that is the delay slot of a
likely branch. -/
theorem startsPage_fallthrough {pc : VirtAddr} (hpc : pc.IsAligned)
    (hcrosses : config.page pc ≠ config.page (config.analyze source pc).fallthrough)
    (hslot : .likelyBranch ∈ (config.analyze source pc).flags →
      config.startsPage (pc + 4#64) = false) :
    config.startsPage (config.analyze source pc).fallthrough = true := by
  have hfall := config.toNat_fallthrough_analyze source pc
  by_cases hlikely : .likelyBranch ∈ (config.analyze source pc).flags
  · rw [if_pos hlikely] at hfall
    have hafter : (config.analyze source pc).fallthrough = pc + 4#64 + 4#64 := by
      apply VirtAddr.eq_of_toNat_eq
      rw [hfall, VirtAddr.toNat_add, VirtAddr.toNat_add]
      show _ = ((pc.toNat + 4) % _ + 4) % _
      omega
    have hsame : config.page pc = config.page (pc + 4#64) := by
      by_contra hne
      have hstarts := startsPage_of_page_ne hpc hne
      rw [hslot hlikely] at hstarts
      cases hstarts
    have haligned : (pc + 4#64).IsAligned := by
      rw [VirtAddr.IsAligned] at hpc ⊢
      rw [VirtAddr.toNat_add]
      show (pc.toNat + 4) % _ % 4 = 0
      omega
    rw [hafter] at hcrosses ⊢
    exact startsPage_of_page_ne haligned (hsame ▸ hcrosses)
  · rw [if_neg hlikely] at hfall
    have hafter : (config.analyze source pc).fallthrough = pc + 4#64 :=
      VirtAddr.eq_of_toNat_eq (hfall.trans (VirtAddr.toNat_add pc 4#64).symm)
    rw [hafter] at hcrosses ⊢
    exact startsPage_of_page_ne hpc hcrosses

end Config

/-! ### The checks of a block -/

namespace Frontend

/-- Where the chain of a block has translations checked. -/
structure Validated (f : Frontend) (b : Block) (config : Config) (source : Source) (w : Window) :
    Prop where
  /-- A translation is checked at a stand-in, where a page may begin, and where a branch of another
  page comes back. -/
  checked_iff : ∀ a ∈ f.analyses b, .validateTlb ∈ a.flags ↔ a.isFault = true ∨
    config.pageShift ≠ 0 ∧ (a.pc = w.start ∨ config.startsPage a.pc = true ∨
      ∃ d ∈ f.analyses b, .intrablockBranch ∈ d.flags ∧ d.target = some a.pc ∧
        config.page d.pc ≠ config.page a.pc ∧ Survey.Revisits config source w d.pc a.pc)
  exception : ∀ a ∈ f.analyses b, .validateTlb ∈ a.flags → .canCauseException ∈ a.flags
  /-- A marked branch comes first to its target or comes back there. -/
  followed : ∀ d ∈ f.analyses b, .intrablockBranch ∈ d.flags → ∀ dest, d.target = some dest →
    Survey.Discovers config source w d.pc dest ∨ Survey.Revisits config source w d.pc dest
  /-- The ways into a page that are checked. -/
  entered : config.pageShift ≠ 0 → ∀ d ∈ f.analyses b, ∀ c ∈ f.analyses b,
    config.page d.pc ≠ config.page c.pc →
    (.intrablockBranch ∈ d.flags ∧ d.target = some c.pc ∧
        ¬ Survey.Discovers config source w d.pc c.pc) ∨
      ((config.analyze source d.pc).endsSequence = false ∧ d.fallthrough = c.pc ∧
        (.likelyBranch ∈ d.flags → config.startsPage (d.pc + 4#64) = false)) →
    .validateTlb ∈ c.flags ∧ .canCauseException ∈ c.flags

section Added

variable {config : Config} {source : Source} {w : Window} {before f : Frontend} {b : Block}
  {used : List Handle}

/-- The marked branches of the chain are those of the survey. -/
theorem marks_iff (h : before.Adds f b used (Outline.describe config source w).sites)
    {u t : w.Spot} : Survey.Marks config source (Survey.run config source w) u t ↔
      ∃ d ∈ f.analyses b, d.pc = u.pc ∧ .intrablockBranch ∈ d.flags ∧ d.target = some t.pc := by
  constructor
  · rintro ⟨found, hlookup, hmarked, hinner⟩
    obtain ⟨site, hgains, hmem⟩ := exists_mem_of_found h hlookup
    refine ⟨site.node, hmem, ?_, hgains.mem_flags hmarked, ?_⟩
    · rw [hgains.pc, Survey.pc_of_lookup_run hlookup]
    · rw [hgains.target, (Survey.describes_of_lookup_run hlookup).target_node]
      exact (Survey.innerTarget?_eq_some_iff.mp hinner).2
  · rintro ⟨d, hd, hpc, hmarked, htarget⟩
    obtain ⟨spot, found, hlookup, hspot, -, htarget', hflag⟩ := exists_found h hd
    obtain rfl : spot = u := Window.Spot.eq_of_pc_eq (hspot.trans hpc)
    have hfound := hflag.mp hmarked
    obtain ⟨t', -, hinner, -⟩ := Survey.found_of_intrablockBranch_run hlookup hfound
    refine ⟨found, hlookup, hfound, ?_⟩
    have hsame : some t'.pc = some t.pc := by
      rw [← htarget, htarget', ← hspot]
      exact (Survey.innerTarget?_eq_some_iff.mp hinner).2.symm
    rw [hinner, Window.Spot.eq_of_pc_eq (Option.some.inj hsame)]

/-- A descriptor of the chain has the checks of the survey. -/
theorem exists_checked (h : before.Adds f b used (Outline.describe config source w).sites)
    {a : Analysis} (ha : a ∈ f.analyses b) :
    ∃ spot found, (Survey.run config source w).lookup spot = some found ∧ spot.pc = a.pc ∧
      (.validateTlb ∈ a.flags ↔ .validateTlb ∈ found.node.flags) ∧
      (.canCauseException ∈ a.flags ↔ .canCauseException ∈ found.node.flags) := by
  obtain ⟨spot, found, site, hlookup, hgains, rfl⟩ := exists_found_of_mem h ha
  refine ⟨spot, found, hlookup, ?_, hgains.mem_flags_iff (by decide),
    hgains.mem_flags_iff (by decide)⟩
  rw [hgains.pc, Survey.pc_of_lookup_run hlookup]

theorem validateTlb_mem_iff (h : before.Adds f b used (Outline.describe config source w).sites)
    {a : Analysis} (ha : a ∈ f.analyses b) : .validateTlb ∈ a.flags ↔ a.isFault = true ∨
      config.pageShift ≠ 0 ∧ (a.pc = w.start ∨ config.startsPage a.pc = true ∨
        ∃ d ∈ f.analyses b, .intrablockBranch ∈ d.flags ∧ d.target = some a.pc ∧
          config.page d.pc ≠ config.page a.pc ∧ Survey.Revisits config source w d.pc a.pc) := by
  have hchecks : config.checksPages = true ↔ config.pageShift ≠ 0 := by simp [Config.checksPages]
  obtain ⟨spot, found, hlookup, hpc, hflag, -⟩ := exists_checked h ha
  rw [hflag, Survey.validateTlb_mem_iff_of_lookup_run hlookup, Survey.Reason, hpc,
    isFault_iff h ha, hchecks]
  refine or_congr_right (and_congr_right fun _ ↦ or_congr_right (or_congr_right ?_))
  constructor
  · rintro ⟨u, hmarks, hcrosses, hagain⟩
    obtain ⟨d, hd, hdpc, hmarked, htarget⟩ := (marks_iff h).mp hmarks
    rw [hpc] at htarget
    rw [← hdpc] at hcrosses hagain
    exact ⟨d, hd, hmarked, htarget, hcrosses, hagain⟩
  · rintro ⟨d, hd, hmarked, htarget, hcrosses, hagain⟩
    obtain ⟨u, -, -, hu, -⟩ := exists_checked h hd
    rw [← hu] at hcrosses hagain
    refine ⟨u, (marks_iff h).mpr ⟨d, hd, hu.symm, hmarked, ?_⟩, hcrosses, hagain⟩
    rw [htarget, hpc]

/-- A marked branch was followed to its target. -/
theorem discovers_or_revisits (h : before.Adds f b used (Outline.describe config source w).sites)
    {d : Analysis} (hd : d ∈ f.analyses b) (hmarked : .intrablockBranch ∈ d.flags)
    {dest : VirtAddr} (htarget : d.target = some dest) :
    Survey.Discovers config source w d.pc dest ∨ Survey.Revisits config source w d.pc dest := by
  obtain ⟨u, -, -, hu, -⟩ := exists_checked h hd
  obtain ⟨-, t, htarget', hedge, -⟩ := (covers_of_adds h).marked d hd hmarked
  obtain rfl : t = dest := Option.some.inj (htarget'.symm.trans htarget)
  have hmarks := (marks_iff h (u := u) (t := ⟨t, hedge.inside⟩)).mpr
    ⟨d, hd, hu.symm, hmarked, htarget⟩
  rw [← hu]
  exact Survey.discovers_or_revisits_run hmarks

theorem validated_of_adds (h : before.Adds f b used (Outline.describe config source w).sites) :
    f.Validated b config source w := by
  have hexception : ∀ a ∈ f.analyses b, .validateTlb ∈ a.flags → .canCauseException ∈ a.flags := by
    intro a ha hflag
    obtain ⟨spot, found, hlookup, -, htlb, hraises⟩ := exists_checked h ha
    exact hraises.mpr (Survey.canCauseException_of_validateTlb hlookup (htlb.mp hflag))
  refine ⟨fun a ha ↦ validateTlb_mem_iff h ha, hexception,
    fun d hd hmarked dest htarget ↦ discovers_or_revisits h hd hmarked htarget,
    fun hshift d hd c hc hcrosses hentry ↦ ?_⟩
  have htlb : .validateTlb ∈ c.flags := by
    refine (validateTlb_mem_iff h hc).mpr (.inr ⟨hshift, .inr ?_⟩)
    rcases hentry with ⟨hmarked, htarget, hnot⟩ | ⟨-, hfall, hslot⟩
    · have hagain := (discovers_or_revisits h hd hmarked htarget).resolve_left hnot
      exact .inr ⟨d, hd, hmarked, htarget, hcrosses, hagain⟩
    · rw [← hfall, fallthrough_eq h hd] at hcrosses ⊢
      rw [mem_flags_iff h hd (by decide)] at hslot
      exact .inl (Config.startsPage_fallthrough (isAligned_pc h hd) hcrosses hslot)
  exact ⟨htlb, hexception c hc htlb⟩

end Added

/-- A description that succeeds in a session checks the translation where its window begins, at the
first word of every page and where a branch comes back from another page. -/
theorem validated_of_describeBlock {config : Config} {valid : config.Valid} {ops : List Session.Op}
    {source : Source} {start min max : VirtAddr} {b : Block} {f : Frontend}
    (h : (Session.run config valid ops).frontend.describeBlock source start min max = .ok (b, f)) :
    ∃ w : Window, w.start = start ∧ w.min = min ∧ w.max = max ∧
      f.Validated b config source w := by
  obtain ⟨w, hstart, hmin, hmax, hadds⟩ := Session.exists_window_of_describeBlock h
  exact ⟨w, hstart, hmin, hmax, validated_of_adds hadds⟩

/-- In pages of two words the likely branch of the loop comes back to the second word of a page. -/
theorem validated_loop : ∃ b f,
    (Session.run { pageShift := 3 } (by decide) []).frontend.describeBlock .loop ⟨0x1008⟩ ⟨0x1000⟩
      ⟨0x1018⟩ = .ok (b, f) ∧
    ∃ w : Window, w.start = ⟨0x1008⟩ ∧ w.min = ⟨0x1000⟩ ∧ w.max = ⟨0x1018⟩ ∧
      f.Validated b { pageShift := 3 } .loop w ∧
      ((f.analyses b).filter (.validateTlb ∈ ·.flags)).map Analysis.pc =
        [⟨0x1008⟩, ⟨0x100c⟩, ⟨0x1010⟩, ⟨0x1000⟩] ∧
      ∃ d ∈ f.analyses b, d.target = some ⟨0x100c⟩ ∧
        Survey.Revisits { pageShift := 3 } .loop w d.pc ⟨0x100c⟩ := by
  obtain ⟨b, f, h, hpcs, a, ha, hpc, htlb, hfault⟩ : ∃ b f,
      (Session.run { pageShift := 3 } (by decide) []).frontend.describeBlock .loop ⟨0x1008⟩
        ⟨0x1000⟩ ⟨0x1018⟩ = .ok (b, f) ∧
      ((f.analyses b).filter (.validateTlb ∈ ·.flags)).map Analysis.pc =
        [⟨0x1008⟩, ⟨0x100c⟩, ⟨0x1010⟩, ⟨0x1000⟩] ∧
      ∃ a ∈ f.analyses b, a.pc = ⟨0x100c⟩ ∧ .validateTlb ∈ a.flags ∧ a.isFault = false :=
    ⟨_, _, rfl, by decide +kernel⟩
  obtain ⟨w, hstart, hmin, hmax, hvalidated⟩ := validated_of_describeBlock h
  refine ⟨b, f, h, w, hstart, hmin, hmax, hvalidated, hpcs, ?_⟩
  rcases (hvalidated.checked_iff a ha).mp htlb with hyes | ⟨-, hyes | hyes | hagain⟩
  · rw [hfault] at hyes
    cases hyes
  · rw [hpc, hstart] at hyes
    exact absurd hyes (by decide)
  · rw [hpc] at hyes
    exact absurd hyes (by decide)
  · obtain ⟨d, hd, -, htarget, -, hagain⟩ := hagain
    rw [hpc] at htarget hagain
    exact ⟨d, hd, htarget, hagain⟩

open Assembler in
/-- The first branch leads to the second word of the next page, the second one falls through to such
a word; neither has it checked. -/
theorem entry_unchecked :
    (∃ b f, (Session.run {} Config.valid_default []).frontend.describeBlock
        (.listing ⟨0x1ff0⟩ [bne 8 9 4, nop, jr 31, nop, nop, jr 31, nop, nop]) ⟨0x1ff0⟩ ⟨0x1ff0⟩
          ⟨0x2010⟩ = .ok (b, f) ∧
      ∃ d ∈ f.analyses b, ∃ c ∈ f.analyses b,
        .intrablockBranch ∈ d.flags ∧ d.target = some c.pc ∧
          d.pc.toNat >>> 12 ≠ c.pc.toNat >>> 12 ∧
          .validateTlb ∉ c.flags ∧ .canCauseException ∉ c.flags) ∧
    ∃ b f, (Session.run {} Config.valid_default []).frontend.describeBlock
        (.listing ⟨0x3ff8⟩ [nop, bnel 8 9 0xfffe, nop, nop, jr 31, nop]) ⟨0x3ff8⟩ ⟨0x3ff8⟩
          ⟨0x4010⟩ = .ok (b, f) ∧
      ∃ d ∈ f.analyses b, ∃ c ∈ f.analyses b,
        d.endsSequence = false ∧ d.isFault = false ∧ d.fallthrough = c.pc ∧
          d.pc.toNat >>> 12 ≠ c.pc.toNat >>> 12 ∧
          .validateTlb ∉ c.flags ∧ .canCauseException ∉ c.flags :=
  ⟨⟨_, _, rfl, by decide +kernel⟩, ⟨_, _, rfl, by decide +kernel⟩⟩

end Frontend

end MipsBlocks
