import MipsBlocks.Proofs.Block.Ends
import MipsBlocks.Proofs.Frontend.Pages
import MipsBlocks.Proofs.Frontend.Ranges

/-!
# The ends of sequences

A descriptor of the chain ends its sequence exactly where there is a reason for it
(`Frontend.EndReason`, `ends_of_describeBlock`): the decoder says so or there is nothing to decode,
the range ends there, a marked branch leads to the next descriptor, the descriptor is a likely
branch whose delay slot is a descriptor of the range too, or the sequence is as long as it may be.
So code that is entered from elsewhere is never merged into the code before it, and there is no cut
without need.
-/

set_option autoImplicit false
set_option relaxedAutoImplicit false

namespace MipsBlocks

/-- In a list that goes up by words, a word after another one is next to it. -/
theorem mem_getElem?_succ_of_pc {l : List Analysis}
    (hsorted : l.Pairwise fun a c ↦ a.pc < c.pc) (haligned : ∀ a ∈ l, a.pc.IsAligned) {i : Nat}
    {a c : Analysis} (ha : l[i]? = some a) (hc : c ∈ l)
    (hpc : c.pc.toNat = a.pc.toNat + 4) : c ∈ l[i + 1]? := by
  obtain ⟨hi, rfl⟩ := List.getElem?_eq_some_iff.mp ha
  obtain ⟨j, hj, rfl⟩ := List.mem_iff_getElem.mp hc
  rw [List.pairwise_iff_getElem] at hsorted
  rcases Nat.lt_trichotomy j (i + 1) with hlt | rfl | hgt
  · rcases Nat.eq_or_lt_of_le (Nat.le_of_lt_succ hlt) with rfl | hlt
    · omega
    · have hbefore := hsorted j i hj hi hlt
      rw [VirtAddr.lt_iff] at hbefore
      omega
  · exact List.getElem?_eq_getElem hj
  · have hnext : i + 1 < l.length := by omega
    have hafter := hsorted i (i + 1) hi hnext (Nat.lt_succ_self i)
    have hbefore := hsorted (i + 1) j hnext hj hgt
    have hself := haligned l[i] (List.getElem_mem hi)
    have hother := haligned l[i + 1] (List.getElem_mem hnext)
    rw [VirtAddr.lt_iff] at hafter hbefore
    rw [VirtAddr.IsAligned] at hself hother
    omega

namespace Frontend

/-- Why the descriptor `a` at the place `i` of a range ends its sequence. -/
inductive EndReason (f : Frontend) (b : Block) (config : Config) (range : List Analysis) (i : Nat)
    (a : Analysis) : Prop
  /-- The decoder says that the instruction ends its sequence. -/
  | decoded (h : .endSequence ∈ (Analysis.effect config.flavor a.pc a.opcode).flags)
  | fault (h : a.isFault = true)
  | last (h : i + 1 = range.length)
  /-- A marked branch of the block leads to the next descriptor of the range. -/
  | target (c d : Analysis) (hc : c ∈ range[i + 1]?) (hd : d ∈ f.analyses b)
    (hmarked : .intrablockBranch ∈ d.flags) (htarget : d.target = some c.pc)
  /-- The delay slot of a likely branch is a descriptor of the range too. -/
  | slot (hlikely : .likelyBranch ∈ a.flags) (c : Analysis) (hc : c ∈ range)
    (hpc : c.pc = a.pc + 4#64)
  /-- Counted from the previous end on, the descriptor is the last one that fits. -/
  | full (h : Analysis.sinceEnd range i + 1 = config.maxSequence)

section Added

variable {config : Config} {source : Source} {w : Window} {before f : Frontend} {b : Block}
  {used : List Handle}

/-- An address ends its sequence by itself if the decoder says so or there is nothing to decode. -/
theorem endsSequence_analyze_iff
    (h : before.Adds f b used (Outline.describe config source w).sites) {a : Analysis}
    (ha : a ∈ f.analyses b) : (config.analyze source a.pc).endsSequence = true ↔
      .endSequence ∈ (Analysis.effect config.flavor a.pc a.opcode).flags ∨ a.isFault = true := by
  obtain ⟨gained, -, required, heq⟩ := exists_gained h ha
  have hopcode : a.opcode = (config.analyze source a.pc).opcode :=
    (congrArg Analysis.opcode heq).trans rfl
  rw [hopcode, isFault_iff h ha]
  cases htranslate : source.translate config.addressSpace a.pc with
  | none =>
    rw [Config.analyze_of_translate_eq_none htranslate]
    exact iff_of_true (Analysis.endsSequence_fault _) (.inr rfl)
  | some phys =>
    rw [Config.analyze_of_translate_eq_some htranslate, or_iff_left (by simp)]
    exact decide_eq_true_iff

/-- The addresses that the survey keeps apart, read off the descriptors. -/
theorem apart_iff (h : before.Adds f b used (Outline.describe config source w).sites)
    {a c : Analysis} (ha : a ∈ f.analyses b) (hc : c ∈ f.analyses b) :
    Survey.Apart config source w a.pc c.pc ↔
      (.endSequence ∈ (Analysis.effect config.flavor a.pc a.opcode).flags ∨ a.isFault = true) ∨
        (∃ d ∈ f.analyses b, .intrablockBranch ∈ d.flags ∧ d.target = some c.pc) ∨
          .likelyBranch ∈ a.flags ∧ a.pc + 4#64 = c.pc := by
  have hmarks : (∃ (u t : w.Spot), Survey.Marks config source (Survey.run config source w) u t ∧
      t.pc = c.pc) ↔
      ∃ d ∈ f.analyses b, .intrablockBranch ∈ d.flags ∧ d.target = some c.pc := by
    constructor
    · rintro ⟨u, t, hmarks, htc⟩
      obtain ⟨d, hd, -, hmarked, htarget⟩ := (marks_iff h).mp hmarks
      exact ⟨d, hd, hmarked, by rw [htarget, htc]⟩
    · rintro ⟨d, hd, hmarked, htarget⟩
      exact ⟨⟨d.pc, contains_pc h hd⟩, ⟨c.pc, contains_pc h hc⟩,
        (marks_iff h).mpr ⟨d, hd, rfl, hmarked, htarget⟩, rfl⟩
  rw [Survey.Apart, endsSequence_analyze_iff h ha, hmarks, mem_flags_iff h ha (by decide)]

/-- Where a cut range ends its sequences. Assumes: its descriptors are in the order of addresses. -/
theorem endSequence_iff_of_cut (h : before.Adds f b used (Outline.describe config source w).sites)
    {l : List (List Analysis)}
    (hcut : Analysis.Cut config.maxSequence (fun a c ↦ Survey.Apart config source w a.pc c.pc) l)
    (hsub : ∀ a ∈ l.flatten, a ∈ f.analyses b)
    (hsorted : l.flatten.Pairwise fun a c ↦ a.pc < c.pc) {i : Nat} {a : Analysis}
    (ha : l.flatten[i]? = some a) :
    .endSequence ∈ a.flags ↔ f.EndReason b config l.flatten i a := by
  have hmem := hsub a (List.mem_of_getElem? ha)
  have hends : .endSequence ∈ a.flags ↔ a.endsSequence = true := decide_eq_true_iff.symm
  rw [hends, hcut.endsSequence_iff ha]
  constructor
  · rintro (hlast | ⟨c, hc, hapart⟩ | hfull)
    · exact .last hlast
    · have hcmem := List.mem_of_getElem? hc
      rcases (apart_iff h hmem (hsub c hcmem)).mp hapart with
        (hdecoded | hfault) | ⟨d, hd, hmarked, htarget⟩ | ⟨hlikely, hpc⟩
      · exact .decoded hdecoded
      · exact .fault hfault
      · exact .target c d hc hd hmarked htarget
      · exact .slot hlikely c hcmem hpc.symm
    · exact .full hfull
  · have hself (hyes : .endSequence ∈ (Analysis.effect config.flavor a.pc a.opcode).flags ∨
        a.isFault = true) : i + 1 = l.flatten.length ∨
          (∃ c ∈ l.flatten[i + 1]?, Survey.Apart config source w a.pc c.pc) ∨
            Analysis.sinceEnd l.flatten i + 1 = config.maxSequence := by
      rcases Nat.lt_or_ge (i + 1) l.flatten.length with hlt | hge
      · exact .inr (.inl ⟨_, List.getElem?_eq_getElem hlt,
          .inl ((endsSequence_analyze_iff h hmem).mpr hyes)⟩)
      · obtain ⟨hi, -⟩ := List.getElem?_eq_some_iff.mp ha
        exact .inl (by omega)
    rintro (hdecoded | hfault | hlast | ⟨c, d, hc, hd, hmarked, htarget⟩ | ⟨hlikely, c, hc, hpc⟩ |
      hfull)
    · exact hself (.inl hdecoded)
    · exact hself (.inr hfault)
    · exact .inl hlast
    · refine .inr (.inl ⟨c, hc, (apart_iff h hmem (hsub c (List.mem_of_getElem? hc))).mpr ?_⟩)
      exact .inr (.inl ⟨d, hd, hmarked, htarget⟩)
    · have hnext : c.pc.toNat = a.pc.toNat + 4 := by
        rw [hpc]
        exact Window.Spot.toNat_add ⟨a.pc, contains_pc h hmem⟩
      have hmemNext := mem_getElem?_succ_of_pc hsorted
        (fun c hc ↦ isAligned_pc h (hsub c hc)) ha hc hnext
      refine .inr (.inl ⟨c, hmemNext, (apart_iff h hmem (hsub c hc)).mpr ?_⟩)
      exact .inr (.inr ⟨hlikely, hpc.symm⟩)
    · exact .inr (.inr hfull)

theorem pairwise_rangeAnalyses {limit : Nat} {exit : Analysis → RangeExit} {sites : List Site}
    (hsites : sites.Pairwise fun a c ↦ a.node.pc < c.node.pc) :
    (rangeAnalyses limit exit sites).Pairwise fun a c ↦ a.pc < c.pc := by
  have hpcs := (List.pairwise_map (R := (· < ·)) (f := fun site : Site ↦ site.node.pc)).mpr hsites
  rw [← pcs_rangeAnalyses limit exit sites] at hpcs
  exact List.pairwise_map.mp hpcs

/-- The chain ends its sequences exactly where there is a reason. -/
theorem ends_of_adds (hvalid : config.Valid)
    (h : before.Adds f b used (Outline.describe config source w).sites) :
    f.analyses b = f.front b w.start ++ f.back b w.start ∧
      ∀ range ∈ [f.front b w.start, f.back b w.start], ∀ (i : Nat) (a : Analysis),
        range[i]? = some a →
          (.endSequence ∈ a.flags ↔ f.EndReason b config range i a) := by
  have hlimit := hvalid.maxSequence_ne_zero
  refine ⟨ranges_eq h, fun range hrange i a ha ↦ ?_⟩
  simp only [List.mem_cons, List.not_mem_nil, or_false] at hrange
  rcases hrange with rfl | rfl
  · have hsub : ∀ c ∈ f.front b w.start, c ∈ f.analyses b := fun c hc ↦
      (List.mem_filter.mp hc).1
    rw [front_eq h] at ha hsub ⊢
    exact endSequence_iff_of_cut h
      (Outline.cut_range hlimit _ (Survey.isChain_apart_front config source w)) hsub
      (pairwise_rangeAnalyses (Survey.pairwise_front config source w)) ha
  · have hsub : ∀ c ∈ f.back b w.start, c ∈ f.analyses b := fun c hc ↦
      (List.mem_filter.mp hc).1
    rw [back_eq h] at ha hsub ⊢
    exact endSequence_iff_of_cut h
      (Outline.cut_range hlimit _ (Survey.isChain_apart_back config source w)) hsub
      (pairwise_rangeAnalyses (Survey.pairwise_back config source w)) ha

end Added

/-- In a block that a session describes, a descriptor of either range ends its sequence exactly if
there is a reason for it. -/
theorem ends_of_describeBlock {config : Config} {valid : config.Valid} {ops : List Session.Op}
    {source : Source} {start min max : VirtAddr} {b : Block} {f : Frontend}
    (h : (Session.run config valid ops).frontend.describeBlock source start min max = .ok (b, f)) :
    f.analyses b = f.front b start ++ f.back b start ∧
      ∀ range ∈ [f.front b start, f.back b start], ∀ (i : Nat) (a : Analysis),
        range[i]? = some a →
          (.endSequence ∈ a.flags ↔ f.EndReason b config range i a) := by
  obtain ⟨w, rfl, rfl, rfl, hadds⟩ := Session.exists_window_of_describeBlock h
  exact ends_of_adds valid hadds

/-- The first descriptor of the loop ends its sequence because the likely branch before the start
leads to the second one. -/
theorem ends_loop : ∃ b f,
    (Session.run {} Config.valid_default []).frontend.describeBlock .loop ⟨0x1008⟩ ⟨0x1000⟩
      ⟨0x1018⟩ = .ok (b, f) ∧
    ∃ a ∈ (f.front b ⟨0x1008⟩)[0]?, .endSequence ∈ a.flags ∧
      f.EndReason b {} (f.front b ⟨0x1008⟩) 0 a := by
  obtain ⟨b, f, h, a, ha, hends⟩ : ∃ b f,
      (Session.run {} Config.valid_default []).frontend.describeBlock .loop ⟨0x1008⟩ ⟨0x1000⟩
        ⟨0x1018⟩ = .ok (b, f) ∧
      ∃ a ∈ (f.front b ⟨0x1008⟩)[0]?, .endSequence ∈ a.flags :=
    ⟨_, _, rfl, by decide +kernel⟩
  obtain ⟨-, hexact⟩ := ends_of_describeBlock h
  exact ⟨b, f, h, a, ha, hends, (hexact _ List.mem_cons_self 0 a ha).mp hends⟩

end Frontend

end MipsBlocks
