import MipsBlocks.Block.Outline
import MipsBlocks.Proofs.Block.Gains
import MipsBlocks.Proofs.Survey.Order

/-!
# The sites of an outline

The sites of an outline are those of the survey, with what they gain from the sequences and ranges
that they are in (`Outline.gains_sites`). They have the numbers of the addresses described, each
once (`perm_numbers_describe`), and the first one is the start (`head?_sites_describe`).

Each sequence of an outline is entered at its first site and ends at its last one, its sites fall
through to one another, and it is no longer than the limit (`Sequence.Sound`, `sound_of_mem`).
Hence what is true of neighbours in the chain (`isChain_sites`). Each sequence has its required
registers (`exists_require_of_mem`, `nodes_of_mem`).
-/

set_option autoImplicit false
set_option relaxedAutoImplicit false

namespace MipsBlocks

/-- A site is described with a delay slot only if it is a branch. -/
theorem Site.Describes.ownsSlot {config : Config} {source : Source} {pc : VirtAddr} {site : Site}
    (h : Site.Describes config source pc site) : site.OwnsSlot := by
  intro hslot
  rw [h.isBranch_node]
  obtain ⟨flags, -, heq⟩ := h
  rw [heq] at hslot
  change (Site.describe config source pc site.order).slot.isSome = true at hslot
  rw [Site.describe] at hslot
  dsimp only at hslot
  split at hslot
  · rename_i hbranch
    exact (Bool.and_eq_true_iff.mp hbranch).1
  · cases hslot

namespace Sequence

/-- A sequence as the outline has it: delimited, without gaps and not too long. -/
structure Sound (limit : Nat) (s : Sequence) : Prop where
  delimited : s.Delimited
  touching : s.IsChain fun a b ↦ b.node.pc = a.node.fallthrough
  length_le : s.length ≤ limit

end Sequence

namespace Outline

/-- The flags that the last site of a range gains. -/
def exitFlags (exit : Analysis → RangeExit) (last : Analysis) : Flags :=
  if .redispatch ∈ last.flags then {.endSequence} else {.endSequence, (exit last).flag}

theorem exitFlags_subset (exit : Analysis → RangeExit) (last : Analysis) :
    exitFlags exit last ⊆ Flags.ofExit := by
  unfold exitFlags
  split
  · decide
  · cases exit last <;> decide

theorem isKnown_exitFlags (exit : Analysis → RangeExit) (last : Analysis) :
    (exitFlags exit last).IsKnown := by
  unfold exitFlags
  split
  · decide
  · cases exit last <;> decide

theorem close_concat (exit : Analysis → RangeExit) (sites : List Site) (last : Site) :
    close exit (sites ++ [last]) = sites ++ [last.flag (exitFlags exit last.node)] := by
  simp [close, exitFlags]

/-- The last site of a range gains the flags of its exit. -/
theorem exists_close_eq (exit : Analysis → RangeExit) (sites : List Site) :
    ∃ flags ⊆ Flags.ofExit, flags.IsKnown ∧
      close exit sites = Sequence.flagLast flags sites := by
  rcases List.eq_nil_or_concat sites with rfl | ⟨sites, last, rfl⟩
  · exact ⟨∅, Flags.empty_subset _, by decide, rfl⟩
  · refine ⟨_, exitFlags_subset exit last.node, isKnown_exitFlags exit last.node, ?_⟩
    rw [List.concat_eq_append, Sequence.flagLast_concat, close_concat]

theorem gains_close (exit : Analysis → RangeExit) (sites : List Site) :
    List.Forall₂ (Site.Gains .ofEnds) sites (close exit sites) := by
  obtain ⟨flags, hflags, hknown, hclose⟩ := exists_close_eq exit sites
  have hends : Flags.ofExit ⊆ Flags.ofEnds := by decide
  rw [hclose]
  exact Sequence.gains_flagLast (fun f hf ↦ hends f (hflags f hf)) hknown sites

/-- Cutting a closed range gives its sites the flags of the ends of sequences. -/
theorem gains_pieces (limit : Nat) (exit : Analysis → RangeExit) (sites : List Site) :
    List.Forall₂ (Site.Gains .ofCut) (close exit sites) (range limit exit sites).flatten := by
  conv_lhs => rw [← Sequence.flatten_cut limit (close exit sites)]
  refine List.rel_flatten ?_
  rw [range, List.forall₂_map_right_iff]
  exact List.forall₂_same.mpr fun s _ ↦ Sequence.gains_finish s

theorem gains_range (limit : Nat) (exit : Analysis → RangeExit) (sites : List Site) :
    List.Forall₂ (Site.Gains .ofEnds) sites (range limit exit sites).flatten :=
  gains_trans (gains_close exit sites)
    ((gains_pieces limit exit sites).imp fun _ _ hab ↦ hab.mono (by decide))

section Describe

variable (config : Config) (source : Source) (w : Window)

/-- The sites of an outline are those of the survey, the front range before the back range. -/
theorem gains_sites :
    List.Forall₂ (Site.Gains .ofEnds)
      ((Survey.run config source w).front ++ (Survey.run config source w).back)
      (describe config source w).sites := by
  show List.Forall₂ _ _ (ofSurvey config (Survey.run config source w)).flatten
  rw [ofSurvey, List.flatten_append]
  exact List.rel_append (gains_range _ _ _) (gains_range _ _ _)

/-- The sites of an outline have the numbers of the trace, each once. -/
theorem perm_numbers_describe :
    ((describe config source w).sites.flatMap Site.numbers).Perm
      (List.range (describe config source w).trace.size) := by
  have hnumbers := map_eq_of_forall₂ (gains_sites config source w) fun a b hab ↦ hab.numbers.symm
  rw [List.flatMap_def, ← hnumbers, ← List.flatMap_def]
  exact ((Survey.perm_front_append_back _).flatMap_right _).trans
    (Survey.numbered_run config source w)

/-- The first site of an outline is the start: it has the first number. -/
theorem head?_sites_describe :
    ∃ site, (describe config source w).sites.head? = some site ∧ site.order = 0 := by
  obtain ⟨first, hlookup, horder, -⟩ := Survey.startFirst_run config source w
  have hfront : first ∈ ((Survey.run config source w).front ++
      (Survey.run config source w).back).head? := by
    rw [List.head?_append, Survey.head?_front hlookup]
    rfl
  have hflip : List.Forall₂ (flip (Site.Gains .ofEnds)) (describe config source w).sites
      ((Survey.run config source w).front ++ (Survey.run config source w).back) :=
    (gains_sites config source w).flip
  obtain ⟨site, hsite, hgains⟩ := exists_head?_of_forall₂ hflip hfront
  exact ⟨site, hsite, hgains.order.trans horder⟩

variable {config source w}

theorem exists_lookup_of_mem {site : Site} (h : site ∈ (describe config source w).sites) :
    ∃ spot found, (Survey.run config source w).lookup spot = some found ∧
      Site.Gains .ofEnds found site := by
  obtain ⟨found, hfound, hgains⟩ := exists_mem_of_forall₂ (gains_sites config source w) h
  obtain ⟨spot, hlookup⟩ := Survey.mem_front_append_back_iff.mp hfound
  exact ⟨spot, found, hlookup, hgains⟩

theorem exists_mem_of_lookup {spot : w.Spot} {found : Site}
    (h : (Survey.run config source w).lookup spot = some found) :
    ∃ site ∈ (describe config source w).sites, Site.Gains .ofEnds found site := by
  have hflip : List.Forall₂ (flip (Site.Gains .ofEnds)) (describe config source w).sites
      ((Survey.run config source w).front ++ (Survey.run config source w).back) :=
    (gains_sites config source w).flip
  exact exists_mem_of_forall₂ hflip (Survey.mem_front_append_back_iff.mpr ⟨spot, h⟩)

/-- A start that cannot be fetched is all there is. -/
theorem exists_sites_eq_singleton
    (hnone : source.translate config.addressSpace w.start = none) :
    ∃ site, (describe config source w).sites = [site] ∧ site.node.pc = w.start ∧
      site.slot = none := by
  obtain ⟨first, hlookup, hfront, hback⟩ := Survey.exists_front_eq_singleton hnone
  have hgains := gains_sites config source w
  rw [hfront, hback] at hgains
  obtain ⟨site, rest, hsite, hnil, hsites⟩ := List.forall₂_cons_left_iff.mp hgains
  rw [List.forall₂_nil_left_iff.mp hnil] at hsites
  have hdescribes := Survey.describes_of_lookup_run hlookup
  have hfault : config.analyze source w.startSpot.pc = .fault w.start :=
    Config.analyze_of_translate_eq_none hnone
  have hbranch : site.node.isBranch = false := by
    rw [hsite.isBranch, hdescribes.isBranch_node, hfault, Analysis.isBranch_fault]
  refine ⟨site, hsites, by rw [hsite.pc, hdescribes.pc_node]; rfl, ?_⟩
  by_contra hslot
  rw [hsite.ownsSlot hdescribes.ownsSlot (Option.isSome_iff_ne_none.mpr hslot)] at hbranch
  cases hbranch

end Describe

/-! ### The sequences of an outline -/

/-- What makes a site end its range does not make it a branch target. -/
theorem joined_flag {flags : Flags} (h : flags ⊆ Flags.ofExit) (a b : Site) :
    Sequence.joined a (b.flag flags) = Sequence.joined a b := by
  have htarget : Flag.branchTarget ∉ flags := fun hmem ↦ absurd (h _ hmem) (by decide)
  rw [Bool.eq_iff_iff, Sequence.joined_iff, Sequence.joined_iff, Site.mem_flags_flag,
    or_iff_left htarget]
  rfl

/-- What holds of neighbours in a range holds when it is closed, if the flags of the exit do not
matter for the second one. -/
theorem isChain_close {R : Site → Site → Prop} (exit : Analysis → RangeExit)
    (hR : ∀ flags ⊆ Flags.ofExit, ∀ a b, R a b → R a (b.flag flags)) {sites : List Site}
    (h : sites.IsChain R) : (close exit sites).IsChain R := by
  obtain ⟨flags, hflags, -, hclose⟩ := exists_close_eq exit sites
  rw [hclose]
  exact Sequence.isChain_flagLast flags (hR flags hflags) h

/-- A sequence of a range is a piece of the closed range with its ends marked and its required
registers computed. -/
theorem exists_piece_of_mem_range {limit : Nat} {exit : Analysis → RangeExit} {sites : List Site}
    {s : Sequence} (hs : s ∈ range limit exit sites) :
    ∃ piece ∈ Sequence.cut limit (close exit sites),
      s = piece.delimit.require ∧ s.Delimited := by
  obtain ⟨piece, hpiece, rfl⟩ := List.mem_map.mp hs
  have hne : piece ≠ [] := fun hnil ↦ Sequence.nil_notMem_cut _ _ (hnil ▸ hpiece)
  have hdelimited := Sequence.delimited_delimit hne (Sequence.isChain_of_mem_cut hpiece)
  exact ⟨piece, hpiece, rfl, hdelimited.of_gains (Sequence.gains_require _)⟩

/-- Every sequence of a range is sound. Assumes: the neighbours of the range touch where they can be
in one sequence. -/
theorem sound_of_mem_range {limit : Nat} (hlimit : limit ≠ 0) {exit : Analysis → RangeExit}
    {sites : List Site} {s : Sequence} (hs : s ∈ range limit exit sites)
    (h : sites.IsChain fun a b ↦ Sequence.joined a b = true → b.node.pc = a.node.fallthrough) :
    s.Sound limit := by
  obtain ⟨piece, hpiece, rfl, hdelimited⟩ := exists_piece_of_mem_range hs
  have hclose := isChain_close exit
    (fun flags hflags a b hab hjoined ↦ hab ((joined_flag hflags a b).symm.trans hjoined)) h
  have htouching : piece.IsChain fun a b ↦ b.node.pc = a.node.fallthrough :=
    (isChain_and (Sequence.isChain_of_mem_cut hpiece)
      (((Sequence.isChain_iff_cut limit).mp hclose).1 piece hpiece)).imp fun a b hab ↦ hab.2 hab.1
  have hfinish := Sequence.gains_finish piece
  refine ⟨hdelimited, ?_, ?_⟩
  · exact isChain_of_forall₂ hfinish
      (fun a b a' b' ha hb hab ↦ by rw [hb.pc, hab, ha.fallthrough]) htouching
  · rw [← hfinish.length_eq]
    exact Sequence.length_le_of_mem_cut hlimit hpiece

section Sequences

variable {config : Config} {source : Source} {w : Window}

/-- Every sequence of an outline is sound. -/
theorem sound_of_mem (hvalid : config.Valid) {s : Sequence}
    (hs : s ∈ (describe config source w).sequences) : s.Sound config.maxSequence := by
  have hlimit := hvalid.maxSequence_ne_zero
  rcases List.mem_append.mp hs with hs | hs
  · exact sound_of_mem_range hlimit hs (Survey.touching_front config source w)
  · exact sound_of_mem_range hlimit hs (Survey.touching_back config source w)

theorem nil_notMem_describe (hvalid : config.Valid) :
    [] ∉ (describe config source w).sequences := fun hnil ↦
  (sound_of_mem hvalid hnil).delimited.ne_nil rfl

/-- Of two neighbours in an outline, the first one ends its sequence exactly if the second one is a
branch target, and otherwise it falls through to it. -/
theorem isChain_sites (hvalid : config.Valid) :
    (describe config source w).sites.IsChain fun a b ↦
      (.endSequence ∈ a.node.flags ↔ .branchTarget ∈ b.node.flags) ∧
        (.endSequence ∉ a.node.flags → b.node.pc = a.node.fallthrough) := by
  rw [sites, List.isChain_flatten (nil_notMem_describe hvalid)]
  constructor
  · intro s hs
    have hsound := sound_of_mem hvalid hs
    refine (isChain_and hsound.delimited.inner hsound.touching).imp ?_
    rintro a b ⟨⟨hends, htarget⟩, htouch⟩
    exact ⟨iff_of_false hends htarget, fun _ ↦ htouch⟩
  · rw [List.isChain_iff_getElem]
    intro i hi a ha b hb
    have hends := (sound_of_mem hvalid (List.getElem_mem _)).delimited.last a ha
    have htarget := (sound_of_mem hvalid (List.getElem_mem _)).delimited.first b hb
    exact ⟨iff_of_true hends htarget, fun h ↦ absurd hends h⟩

theorem branchTarget_head? (hvalid : config.Valid) {a : Site}
    (ha : a ∈ (describe config source w).sites.head?) : .branchTarget ∈ a.node.flags := by
  rw [sites] at ha
  cases hsequences : (describe config source w).sequences with
  | nil =>
    rw [hsequences] at ha
    cases ha
  | cons s rest =>
    have hs : s ∈ (describe config source w).sequences := by
      rw [hsequences]
      exact List.mem_cons_self
    have hsound := sound_of_mem hvalid hs
    rw [hsequences, List.flatten_cons, List.head?_append_of_ne_nil _ hsound.delimited.ne_nil] at ha
    exact hsound.delimited.first a ha

theorem endSequence_getLast? (hvalid : config.Valid) {a : Site}
    (ha : a ∈ (describe config source w).sites.getLast?) : .endSequence ∈ a.node.flags := by
  rw [sites] at ha
  rcases List.eq_nil_or_concat (describe config source w).sequences with hnil | ⟨rest, s, hconcat⟩
  · rw [hnil] at ha
    cases ha
  · rw [List.concat_eq_append] at hconcat
    have hs : s ∈ (describe config source w).sequences := by
      rw [hconcat]
      exact List.mem_append.mpr (.inr List.mem_cons_self)
    have hsound := sound_of_mem hvalid hs
    rw [hconcat, List.flatten_append, List.flatten_singleton,
      List.getLast?_append_of_ne_nil _ hsound.delimited.ne_nil] at ha
    exact hsound.delimited.last a ha

end Sequences

/-! ### Required registers -/

/-- Every sequence of a range has its required registers. Assumes: only branches have slots. -/
theorem exists_require_of_mem_range {limit : Nat} {exit : Analysis → RangeExit} {sites : List Site}
    {s : Sequence} (hs : s ∈ range limit exit sites) (h : ∀ a ∈ sites, a.OwnsSlot) :
    ∃ t : Sequence, (∀ a ∈ t, a.OwnsSlot) ∧ s = t.require := by
  obtain ⟨piece, hpiece, rfl⟩ := List.mem_map.mp hs
  refine ⟨piece.delimit, fun c hc ↦ ?_, rfl⟩
  obtain ⟨b, hb, hbc⟩ := exists_mem_of_forall₂ (Sequence.gains_delimit piece) hc
  have hclosed : b ∈ close exit sites := by
    rw [← Sequence.flatten_cut limit (close exit sites)]
    exact List.mem_flatten.mpr ⟨piece, hpiece, hb⟩
  obtain ⟨a, ha, hab⟩ := exists_mem_of_forall₂ (gains_close exit sites) hclosed
  exact (hbc.mono (by decide)).ownsSlot (hab.ownsSlot (h a ha))

section Required

variable {config : Config} {source : Source} {w : Window} {s : Sequence}

/-- Every sequence of an outline has its required registers. -/
theorem exists_require_of_mem (hs : s ∈ (describe config source w).sequences) :
    ∃ t : Sequence, (∀ a ∈ t, a.OwnsSlot) ∧ s = t.require := by
  rcases List.mem_append.mp hs with hs | hs
  · refine exists_require_of_mem_range hs fun a ha ↦ ?_
    obtain ⟨spot, hlookup, -⟩ := Survey.mem_front_iff.mp ha
    exact (Survey.describes_of_lookup_run hlookup).ownsSlot
  · refine exists_require_of_mem_range hs fun a ha ↦ ?_
    obtain ⟨spot, hlookup, -⟩ := Survey.mem_back_iff.mp ha
    exact (Survey.describes_of_lookup_run hlookup).ownsSlot

theorem nodes_of_mem (hs : s ∈ (describe config source w).sequences) :
    ∃ l, s.map Site.node = Analysis.requireAll l := by
  obtain ⟨t, ht, rfl⟩ := exists_require_of_mem hs
  exact ⟨t.map Site.node, (Sequence.nodes_require ht).1⟩

/-- Only written registers are required. -/
theorem mem_writes_of_mem_required {site : Site} (h : site ∈ (describe config source w).sites)
    {r : Register} : (r ∈ site.node.required → r ∈ site.node.writes) ∧
      ∀ slot ∈ site.slot, r ∈ slot.required → r ∈ slot.writes := by
  obtain ⟨s, hs, hmem⟩ := List.mem_flatten.mp h
  obtain ⟨t, ht, rfl⟩ := exists_require_of_mem hs
  obtain ⟨i, hi⟩ := List.mem_iff_getElem?.mp hmem
  constructor
  · intro hr
    have hnode : (Analysis.requireAll (t.map Site.node))[i]? = some site.node := by
      rw [← (Sequence.nodes_require ht).1, List.getElem?_map, hi, Option.map_some]
    exact ((Analysis.mem_required_iff hnode).mp hr).1
  · intro slot hslot hr
    exact ((Sequence.mem_required_slot_iff ht hi hslot).mp hr).1

end Required

end Outline

end MipsBlocks
