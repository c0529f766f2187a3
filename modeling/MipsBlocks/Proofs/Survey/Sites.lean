import MipsBlocks.Proofs.Effects
import MipsBlocks.Proofs.Survey.Step
import Mathlib.Data.List.Nodup

/-!
# The sites of a survey

What every new site has, and keeps when it is visited again, is true of every site of a finished
survey (`site_induction`). So each of them is the description of its address by itself with flags
that only a survey gives (`describes_of_lookup_run`). The sites number the addresses described: each
takes the numbers of its own analysis and of its delay slot, and together they take every number
below the length of the trace once (`numbered_run`). The start has number zero and is a branch
target (`startFirst_run`).
-/

set_option autoImplicit false
set_option relaxedAutoImplicit false

namespace MipsBlocks

/-! ### More flags -/

/-- The flags that depend on how a site is reached. -/
def Flags.ofSurvey : Flags := {.branchTarget, .validateTlb, .canCauseException, .intrablockBranch}

theorem Flags.union_assoc (s t u : Flags) : s ∪ t ∪ u = s ∪ (t ∪ u) :=
  congrArg Flags.mk (BitVec.or_assoc s.bits t.bits u.bits)

theorem Flags.union_empty (s : Flags) : s ∪ ∅ = s := congrArg Flags.mk BitVec.or_zero

theorem Analysis.flag_flag (a : Analysis) (s t : Flags) : (a.flag s).flag t = a.flag (s ∪ t) := by
  simp [flag, Flags.union_assoc]

namespace Site

theorem flag_flag (a : Site) (s t : Flags) : (a.flag s).flag t = a.flag (s ∪ t) := by
  simp [flag, Analysis.flag_flag]

/-- The site with what `g` makes of its analyses. -/
def map (g : Analysis → Analysis) (s : Site) : Site where
  node := g s.node
  slot := s.slot.map g
  order := s.order

/-- The analyses of a site, that of its delay slot first. -/
def analyses (s : Site) : List Analysis := s.slot.toList ++ [s.node]

theorem perm_pcs (s : Site) : (s.analyses.map Analysis.pc).Perm s.pcs := by
  rw [analyses, pcs, List.map_append]
  exact List.perm_append_singleton _ _

/-- A site is the description of an address with flags of a survey. -/
def Describes (config : Config) (source : Source) (pc : VirtAddr) (site : Site) : Prop :=
  ∃ flags ⊆ Flags.ofSurvey, site = (describe config source pc site.order).flag flags

theorem Describes.flag {config : Config} {source : Source} {pc : VirtAddr} {site : Site}
    (h : Describes config source pc site) {flags : Flags} (hflags : flags ⊆ Flags.ofSurvey) :
    Describes config source pc (site.flag flags) := by
  obtain ⟨old, hold, heq⟩ := h
  refine ⟨old ∪ flags, Flags.union_subset hold hflags, ?_⟩
  rw [← flag_flag]
  exact congrArg (Site.flag · flags) heq

section Describes

variable {config : Config} {source : Source} {pc : VirtAddr} {site : Site}

/-- What flags do not change, a site has from the description of its address. -/
theorem Describes.map_node {β : Type} {g : Analysis → β} (h : Describes config source pc site)
    (hg : ∀ (x : Analysis) flags, g (x.flag flags) = g x) :
    g site.node = g (config.analyze source pc) := by
  obtain ⟨flags, -, heq⟩ := h
  rw [heq]
  exact hg _ flags

theorem Describes.pc_node (h : Describes config source pc site) : site.node.pc = pc :=
  (h.map_node fun _ _ ↦ rfl).trans (Analysis.pc_describe _ _ _ _)

theorem Describes.length_node (h : Describes config source pc site) :
    site.node.length = insnWidth :=
  (h.map_node fun _ _ ↦ rfl).trans (Analysis.length_describe _ _ _ _)

theorem Describes.fallthrough_node (h : Describes config source pc site) :
    site.node.fallthrough = (config.analyze source pc).fallthrough :=
  h.map_node fun _ _ ↦ rfl

theorem Describes.target_node (h : Describes config source pc site) :
    site.node.target = (config.analyze source pc).target :=
  h.map_node fun _ _ ↦ rfl

theorem Describes.mem_flags_iff (h : Describes config source pc site) {f : Flag}
    (hf : f ∉ Flags.ofSurvey) :
    f ∈ site.node.flags ↔ f ∈ (config.analyze source pc).flags := by
  obtain ⟨flags, hflags, heq⟩ := h
  have hnot : f ∉ flags := fun h ↦ hf (hflags f h)
  have hunion : site.node.flags = (config.analyze source pc).flags ∪ flags := by
    rw [heq]
    rfl
  rw [hunion, Flags.mem_union, or_iff_left hnot]

theorem Describes.endsSequence_node (h : Describes config source pc site) :
    site.node.endsSequence = (config.analyze source pc).endsSequence := by
  simp only [Analysis.endsSequence, h.mem_flags_iff (f := .endSequence) (by decide)]

theorem Describes.isBranch_node (h : Describes config source pc site) :
    site.node.isBranch = (config.analyze source pc).isBranch := by
  rw [Bool.eq_iff_iff, Analysis.isBranch, Analysis.isBranch, Flags.isBranch_iff,
    Flags.isBranch_iff, h.mem_flags_iff (by decide), h.mem_flags_iff (by decide)]

/-- A delay slot is the description of the next address; a survey gives it no flags. -/
theorem Describes.slot_eq (h : Describes config source pc site) {slot : Analysis}
    (hslot : slot ∈ site.slot) : slot = describeSlot config source (pc + 4#64) := by
  have hpc : (config.analyze source pc).pc = pc := Analysis.pc_describe ..
  have hlength : (config.analyze source pc).length = insnWidth := Analysis.length_describe ..
  obtain ⟨flags, -, heq⟩ := h
  rw [heq] at hslot
  change slot ∈ (describe config source pc site.order).slot at hslot
  rw [describe] at hslot
  dsimp only at hslot
  split at hslot
  · obtain rfl := Option.some.inj hslot
    show describeSlot config source ((config.analyze source pc).pc +
      BitVec.ofNat 64 (config.analyze source pc).length) = _
    rw [hpc, hlength]
    rfl
  · cases hslot

theorem Describes.notMem_flags_slot (h : Describes config source pc site) {slot : Analysis}
    (hslot : slot ∈ site.slot) {f : Flag} (hf : f ∉ Flags.ofDecoder ∪ Analysis.faultFlags)
    (hinSlot : f ≠ .inDelaySlot) : f ∉ slot.flags := by
  rw [h.slot_eq hslot, describeSlot, Analysis.flag, Flags.mem_union, Flags.mem_singleton]
  rintro (hmem | hmem)
  · exact Analysis.notMem_flags_describe _ _ _ _ hf hmem
  · exact hinSlot hmem

end Describes

/-- The numbers of the analyses of a site: its own, and that of its delay slot. -/
def numbers (s : Site) : List Nat := List.range' s.order s.pcs.length

end Site

namespace Survey

variable {w : Window}

theorem pageFlags_subset (config : Config) (pc : VirtAddr) :
    pageFlags config w pc ⊆ Flags.ofSurvey := by
  unfold pageFlags
  split
  · decide
  · exact Flags.empty_subset _

theorem newFlags_subset (config : Config) (s : Survey w) (a : Analysis) {reached : Flags}
    (hreached : reached ⊆ Flags.ofSurvey) : newFlags config s a reached ⊆ Flags.ofSurvey := by
  refine Flags.union_subset (Flags.union_subset hreached (pageFlags_subset config _)) ?_
  split
  · decide
  · exact Flags.empty_subset _

theorem revisitFlags_subset (config : Config) (p : Pending w) :
    revisitFlags config p ⊆ Flags.ofSurvey := by
  unfold revisitFlags
  dsimp only
  split <;> decide

/-! ### Flags of a new site -/

section NewSite

variable {config : Config} {source : Source} (s : Survey w) (spot : w.Spot) (reached : Flags)

theorem flags_newSite : (newSite config source s spot reached).node.flags =
    (config.analyze source spot.pc).flags ∪
      newFlags config s (config.analyze source spot.pc) reached := rfl

theorem fallthrough_newSite : (newSite config source s spot reached).node.fallthrough =
    (config.analyze source spot.pc).fallthrough := rfl

/-- A survey never makes a site end its sequence. -/
theorem endsSequence_newSite (hreached : reached ⊆ Flags.ofSurvey) :
    (newSite config source s spot reached).node.endsSequence =
      (config.analyze source spot.pc).endsSequence := by
  have hnot : Flag.endSequence ∉ newFlags config s (config.analyze source spot.pc) reached :=
    fun h ↦ absurd (newFlags_subset config s _ hreached _ h) (by decide)
  rw [Analysis.endsSequence, flags_newSite]
  simp [hnot, Analysis.endsSequence]

theorem mem_flags_newSite {f : Flag} (hf : f ∈ reached) :
    f ∈ (newSite config source s spot reached).node.flags := by
  rw [flags_newSite, newFlags]
  simp [hf]

/-- A new site is marked as an intrablock branch when its target is put on the stack. -/
theorem intrablockBranch_mem_newSite_iff (hreached : Flag.intrablockBranch ∉ reached) :
    .intrablockBranch ∈ (newSite config source s spot reached).node.flags ↔
      (pushed config s (config.analyze source spot.pc)).isSome = true := by
  have hdescribed : Flag.intrablockBranch ∉ (config.analyze source spot.pc).flags :=
    Analysis.notMem_flags_describe _ _ _ _ (by decide)
  have hpage : Flag.intrablockBranch ∉ pageFlags config w (config.analyze source spot.pc).pc := by
    unfold pageFlags
    split <;> decide
  rw [flags_newSite, newFlags]
  by_cases hpushed : (pushed config s (config.analyze source spot.pc)).isSome = true <;>
    simp [hdescribed, hreached, hpage, hpushed]

end NewSite

/-! ### What is true of every site -/

section Sites

variable {config : Config} {source : Source} {P : w.Spot → Site → Prop}

theorem forall_lookup_record {s : Survey w} {spot : w.Spot} {reached : Flags}
    (hs : ∀ t site, s.lookup t = some site → P t site)
    (hnew : P spot (newSite config source s spot reached)) (t : w.Spot) (site : Site)
    (ht : (record config source s spot reached).lookup t = some site) : P t site := by
  by_cases htspot : t = spot
  · subst htspot
    rw [lookup_record_self] at ht
    rwa [← Option.some.inj ht]
  · rw [lookup_record_of_ne config source s reached htspot] at ht
    exact hs t site ht

theorem forall_lookup_revisit {s : Survey w} {p : Pending w} {found : Site}
    (hs : ∀ t site, s.lookup t = some site → P t site)
    (hagain : P p.target (found.flag (revisitFlags config p))) (t : w.Spot) (site : Site)
    (ht : (revisit config s p found).lookup t = some site) : P t site := by
  by_cases htarget : t = p.target
  · subst htarget
    rw [lookup_revisit_self] at ht
    rwa [← Option.some.inj ht]
  · rw [lookup_revisit_of_ne config s found htarget] at ht
    exact hs t site ht

/-- What every new site has, and keeps when it is visited again, every site of a finished survey
has. -/
theorem site_induction
    (new : ∀ (s : Survey w) (spot : w.Spot) (reached : Flags),
      reached = ∅ ∨ reached = {.branchTarget} → P spot (newSite config source s spot reached))
    (again : ∀ (p : Pending w) (site : Site), P p.target site →
      P p.target (site.flag (revisitFlags config p)))
    {spot : w.Spot} {site : Site} (h : (run config source w).lookup spot = some site) :
    P spot site := by
  have hall : ∀ t found, (run config source w).lookup t = some found → P t found := by
    refine run_induction
      (motive := fun s ↦ ∀ t found, s.lookup t = some found → P t found) ?_ ?_ ?_ ?_
    · intro t found ht
      rw [lookup_initial] at ht
      cases ht
    · intro s t hs _ _
      exact forall_lookup_record hs (new s t ∅ (.inl rfl))
    · intro s p hs _ _ _
      exact forall_lookup_record (s := s.pop) hs (new s.pop p.target _ (.inr rfl))
    · intro s p found hs _ _ hl
      exact forall_lookup_revisit (s := s.pop) hs (again p found (hs p.target found hl))
  exact hall spot site h

/-- Every site of a finished survey describes its place. -/
theorem describes_of_lookup_run {spot : w.Spot} {site : Site}
    (h : (run config source w).lookup spot = some site) :
    Site.Describes config source spot.pc site := by
  refine site_induction (P := fun t found ↦ Site.Describes config source t.pc found) ?_ ?_ h
  · intro s t reached hreached
    refine ⟨_, newFlags_subset config s _ ?_, rfl⟩
    rcases hreached with rfl | rfl <;> decide
  · intro p found hfound
    exact hfound.flag (revisitFlags_subset config p)

theorem isKnown_of_lookup_run {spot : w.Spot} {site : Site}
    (h : (run config source w).lookup spot = some site) : site.node.flags.IsKnown := by
  refine site_induction (P := fun _ found ↦ found.node.flags.IsKnown) ?_ ?_ h
  · intro s t reached hreached
    have hentered : reached.IsKnown := by rcases hreached with rfl | rfl <;> decide
    have hpage : (pageFlags config w (config.analyze source t.pc).pc).IsKnown := by
      unfold pageFlags
      split <;> decide
    rw [flags_newSite, newFlags]
    refine Flags.isKnown_union (Analysis.isKnown_flags_describe _ _ _ _)
      (Flags.isKnown_union (Flags.isKnown_union hentered hpage) ?_)
    split <;> decide
  · intro p found hfound
    refine Flags.isKnown_union hfound ?_
    unfold revisitFlags
    dsimp only
    split <;> decide

end Sites

/-! ### Numbers -/

/-- The sites have the numbers below the length of the trace, each once. -/
def Numbered (s : Survey w) : Prop :=
  (s.sites.flatMap Site.numbers).Perm (List.range s.trace.size)

theorem numbered_record {config : Config} {source : Source} {s : Survey w} {spot : w.Spot}
    {reached : Flags} (hs : Numbered s) (hnew : s.lookup spot = none) :
    Numbered (record config source s spot reached) := by
  have hsites := (sites_record config source reached hnew).flatMap_right Site.numbers
  have htrace : (record config source s spot reached).trace.size =
      s.trace.size + (Site.describe config source spot.pc s.trace.size).pcs.length := by
    rw [trace_record, ← Array.length_toList, Array.toList_appendList, List.length_append,
      Array.length_toList]
  have hnumbers : (newSite config source s spot reached).numbers =
      List.range' s.trace.size (Site.describe config source spot.pc s.trace.size).pcs.length := rfl
  rw [List.flatMap_cons, hnumbers] at hsites
  rw [Numbered, htrace, List.range_eq_range', ← List.range'_append_1, Nat.zero_add,
    ← List.range_eq_range']
  exact hsites.trans ((hs.append_left _).trans List.perm_append_comm)

theorem numbered_revisit {config : Config} {s : Survey w} {p : Pending w} {site : Site}
    (hs : Numbered s) (hold : s.lookup p.target = some site) :
    Numbered (revisit config s p site) := by
  have hmap := map_sites_revisit config (f := Site.numbers) hold fun _ ↦ rfl
  rw [Numbered, List.flatMap_def, hmap, ← List.flatMap_def]
  exact hs

theorem numbered_initial : Numbered (initial w) := by
  rw [Numbered, sites_initial]
  exact List.Perm.refl _

theorem Reached.numbered {config : Config} {source : Source} {s : Survey w}
    (hs : Reached config source s) : Numbered s := by
  induction hs with
  | initial => exact numbered_initial
  | @step s hs ih =>
    exact step_cases hs.cursorFresh (fun _ ↦ ih) (fun _ _ hl ↦ numbered_record ih hl)
      (fun _ _ _ hl ↦ numbered_record (s := s.pop) ih hl)
      fun _ _ _ _ hl ↦ numbered_revisit (s := s.pop) ih hl

theorem numbered_run (config : Config) (source : Source) (w : Window) :
    Numbered (run config source w) :=
  Reached.initial.run_induction numbered_initial fun _ ht _ ↦ ht.step.numbered

/-- The sites at two places have no number in common. -/
theorem Numbered.disjoint {s : Survey w} (hs : Numbered s) {t u : w.Spot} {a b : Site}
    (ht : s.lookup t = some a) (hu : s.lookup u = some b) (hne : t ≠ u) :
    a.numbers.Disjoint b.numbers := by
  have hnodup : (s.sites.flatMap Site.numbers).Nodup := hs.nodup_iff.mpr List.nodup_range
  have hpairs := List.pairwise_filterMap.mp (List.nodup_flatMap.mp hnodup).2
  rw [List.pairwise_iff_getElem] at hpairs
  have hapart (t u : w.Spot) (a b : Site) (ht : s.lookup t = some a) (hu : s.lookup u = some b)
      (hlt : t.index < u.index) : a.numbers.Disjoint b.numbers := by
    obtain ⟨hi, hta⟩ := List.getElem?_eq_some_iff.mp ((getElem?_table s t).trans (by rw [ht]))
    obtain ⟨hj, hub⟩ := List.getElem?_eq_some_iff.mp ((getElem?_table s u).trans (by rw [hu]))
    exact hpairs _ _ hi hj hlt a hta b hub
  rcases Nat.lt_trichotomy t.index u.index with hlt | heq | hgt
  · exact hapart t u a b ht hu hlt
  · exact absurd (Window.Spot.eq_of_index_eq (Fin.ext heq)) hne
  · exact fun i hi hj ↦ hapart u t b a hu ht hgt hj hi

/-! ### The start -/

/-- The start has the first number and is a branch target. -/
def StartFirst (s : Survey w) : Prop :=
  ∃ site, s.lookup w.startSpot = some site ∧ site.order = 0 ∧ .branchTarget ∈ site.node.flags

theorem startFirst_record {config : Config} {source : Source} {s : Survey w} {spot : w.Spot}
    {reached : Flags} (hs : StartFirst s) (hnew : s.lookup spot = none) :
    StartFirst (record config source s spot reached) := by
  obtain ⟨site, hsite, horder, htarget⟩ := hs
  have hne : w.startSpot ≠ spot := by
    rintro rfl
    rw [hnew] at hsite
    cases hsite
  exact ⟨site, by rw [lookup_record_of_ne config source s reached hne, hsite], horder, htarget⟩

theorem startFirst_revisit {config : Config} {s : Survey w} {p : Pending w} {site : Site}
    (hs : StartFirst s) (hold : s.lookup p.target = some site) :
    StartFirst (revisit config s p site) := by
  obtain ⟨first, hfirst, horder, htarget⟩ := hs
  by_cases hp : w.startSpot = p.target
  · rw [hp, hold] at hfirst
    obtain rfl := Option.some.inj hfirst
    refine ⟨site.flag (revisitFlags config p), ?_, horder, Flags.mem_union.mpr (.inl htarget)⟩
    rw [hp, lookup_revisit_self]
  · exact ⟨first, by rw [lookup_revisit_of_ne config s site hp, hfirst], horder, htarget⟩

/-- The first step describes the start. -/
theorem startFirst_first (config : Config) (source : Source) (w : Window) :
    StartFirst (record config source (initial w).pop w.startSpot {.branchTarget}) := by
  refine ⟨_, lookup_record_self config source _ _ _, rfl, ?_⟩
  exact mem_flags_newSite _ _ _ (Flags.mem_singleton.mpr rfl)

theorem startFirst_run (config : Config) (source : Source) (w : Window) :
    StartFirst (run config source w) := by
  have hrun : run config source w = initial w ∨ StartFirst (run config source w) := by
    refine run_induction (motive := fun s ↦ s = initial w ∨ StartFirst s) (.inl rfl) ?_ ?_ ?_
    · rintro s spot (rfl | hs) hc hl
      · cases hc
      · exact .inr (startFirst_record hs hl)
    · rintro s p (rfl | hs) - hp hl
      · obtain rfl : p = ⟨none, w.startSpot⟩ := by simpa [initial, eq_comm] using hp
        exact .inr (startFirst_first config source w)
      · exact .inr (startFirst_record (s := s.pop) hs hl)
    · rintro s p site (rfl | hs) - - hl
      · rw [lookup_initial] at hl
        cases hl
      · exact .inr (startFirst_revisit (s := s.pop) hs hl)
  rcases hrun with hinitial | hfirst
  · have hpos := trace_size_run_pos config source w
    rw [hinitial] at hpos
    exact absurd hpos (Nat.lt_irrefl 0)
  · exact hfirst

end Survey

end MipsBlocks
