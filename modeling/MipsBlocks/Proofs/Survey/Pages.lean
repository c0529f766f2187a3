import MipsBlocks.Proofs.Survey.Closure

/-!
# Where translations are checked

A survey asks for a check of the translation at the start, at the first word of a page, and at a
site that a branch of another page leads to, if it knows the site when it takes the target of the
branch from the stack (`validateTlb_mem_iff_of_lookup_run`). A branch that leads to a site comes
first there or comes back to it (`Survey.Discovers`, `Survey.Revisits`): one of the two is true of
every marked branch (`discovers_or_revisits_run`), and only coming back asks for a check.

`Survey.Entered` is the invariant: every target that waits is that of a marked branch, every marked
branch waits or has been followed, and every check has a reason. For the other direction the state
in which a branch comes back gives the flag, and no later step takes it away.
-/

set_option autoImplicit false
set_option relaxedAutoImplicit false

namespace MipsBlocks

namespace Survey

variable {w : Window} {config : Config} {source : Source}

/-! ### Following branches -/

/-- In this state a survey takes the target of the branch at `pc` from the stack. -/
structure Takes (config : Config) (source : Source) (s : Survey w) (pc : VirtAddr) (t : w.Spot) :
    Prop where
  reached : Reached config source s
  cursor : s.cursor = none
  back : s.pending.back? = some ⟨some pc, t⟩

/-- The survey describes the site at `dest` because the branch at `pc` leads there. -/
def Discovers (config : Config) (source : Source) (w : Window) (pc dest : VirtAddr) : Prop :=
  ∃ (s : Survey w) (t : w.Spot), Takes config source s pc t ∧ t.pc = dest ∧ s.lookup t = none

/-- The survey knows the site at `dest` when it follows the branch at `pc` there. -/
def Revisits (config : Config) (source : Source) (w : Window) (pc dest : VirtAddr) : Prop :=
  ∃ (s : Survey w) (t : w.Spot), Takes config source s pc t ∧ t.pc = dest ∧ s.lookup t ≠ none

/-- The branch found at a spot is marked, and its target is another spot. -/
def Marks (config : Config) (source : Source) (s : Survey w) (u t : w.Spot) : Prop :=
  ∃ site, s.lookup u = some site ∧ .intrablockBranch ∈ site.node.flags ∧
    innerTarget? w (config.analyze source u.pc) = some t

/-- A new site marks its target exactly if it puts the target on the stack. -/
theorem marks_record_iff {s : Survey w} {spot u t : w.Spot} {reached : Flags}
    (hnew : s.lookup spot = none) (hreached : Flag.intrablockBranch ∉ reached) :
    Marks config source (record config source s spot reached) u t ↔
      Marks config source s u t ∨
        u = spot ∧ pushed config s (config.analyze source spot.pc) = some t := by
  by_cases huspot : u = spot
  · subst huspot
    have hnone : ¬ Marks config source s u t := by
      rintro ⟨site, hsite, -⟩
      rw [hnew] at hsite
      cases hsite
    rw [or_iff_right hnone, and_iff_right rfl]
    constructor
    · rintro ⟨site, hsite, hmarked, htarget⟩
      rw [lookup_record_self] at hsite
      obtain rfl := Option.some.inj hsite
      rw [intrablockBranch_mem_newSite_iff s u reached hreached, Option.isSome_iff_exists]
        at hmarked
      obtain ⟨t', hpushed⟩ := hmarked
      rw [hpushed, ← htarget, innerTarget?_of_pushed hpushed]
    · intro hpushed
      refine ⟨_, lookup_record_self config source s u reached, ?_, innerTarget?_of_pushed hpushed⟩
      rw [intrablockBranch_mem_newSite_iff s u reached hreached, hpushed]
      rfl
  · rw [or_iff_left fun h ↦ huspot h.1]
    simp only [Marks, lookup_record_of_ne config source s reached huspot]

theorem marks_revisit_iff {s : Survey w} {p : Pending w} {site : Site} {u t : w.Spot}
    (hold : s.lookup p.target = some site) :
    Marks config source (revisit config s p site) u t ↔ Marks config source s u t := by
  by_cases hup : u = p.target
  · subst hup
    have hflags : .intrablockBranch ∈ (site.flag (revisitFlags config p)).node.flags ↔
        .intrablockBranch ∈ site.node.flags :=
      Flags.mem_union.trans (or_iff_left (intrablockBranch_notMem_revisitFlags p))
    simp only [Marks, lookup_revisit_self, hold, Option.some.injEq, exists_eq_left', hflags]
  · simp only [Marks, lookup_revisit_of_ne config s site hup]

/-! ### Reasons for a check -/

theorem validateTlb_mem_pageFlags_iff {pc : VirtAddr} : .validateTlb ∈ pageFlags config w pc ↔
    config.checksPages = true ∧ (pc = w.start ∨ config.startsPage pc = true) := by
  unfold pageFlags
  by_cases hpage : config.checksPages = true ∧ (pc = w.start ∨ config.startsPage pc = true)
  · rw [if_pos (by simpa using hpage)]
    exact iff_of_true (by decide) hpage
  · rw [if_neg (by simpa using hpage)]
    exact iff_of_false (Flags.not_mem_empty _) hpage

theorem validateTlb_mem_revisitFlags_iff {p : Pending w} :
    .validateTlb ∈ revisitFlags config p ↔ config.checksPages = true ∧
      ∃ pc, p.source = some pc ∧ config.page pc ≠ config.page p.target.pc := by
  unfold revisitFlags
  dsimp only
  split
  · rename_i hcrosses
    refine iff_of_true (by decide) ?_
    simpa [Option.any_eq_true] using hcrosses
  · rename_i hcrosses
    refine iff_of_false (by decide) fun h ↦ hcrosses ?_
    simpa [Option.any_eq_true] using h

theorem canCauseException_mem_pageFlags {pc : VirtAddr}
    (h : .validateTlb ∈ pageFlags config w pc) :
    .canCauseException ∈ pageFlags config w pc := by
  unfold pageFlags at h ⊢
  split_ifs at h ⊢
  · decide
  · exact absurd h (Flags.not_mem_empty _)

theorem canCauseException_mem_revisitFlags {p : Pending w}
    (h : .validateTlb ∈ revisitFlags config p) : .canCauseException ∈ revisitFlags config p := by
  unfold revisitFlags at h ⊢
  dsimp only at h ⊢
  split_ifs at h ⊢
  · decide
  · exact absurd h (by decide)

/-- A check is asked for together with the exception that it can raise. -/
theorem canCauseException_of_validateTlb {t : w.Spot} {site : Site}
    (h : (run config source w).lookup t = some site) (hflag : .validateTlb ∈ site.node.flags) :
    .canCauseException ∈ site.node.flags := by
  refine site_induction (P := fun _ site ↦ .validateTlb ∈ site.node.flags →
    .canCauseException ∈ site.node.flags) ?_ ?_ h hflag
  · intro s spot reached hreached hnew
    rw [flags_newSite, newFlags] at hnew ⊢
    simp only [Flags.mem_union] at hnew ⊢
    rcases hnew with hanalyzed | (hentered | hpage) | hmarked
    · have hnone := Config.translate_eq_none_of_mem_flags (by decide) hanalyzed
      rw [Config.analyze_of_translate_eq_none hnone]
      change Flag.canCauseException ∈ Analysis.faultFlags ∨ _
      exact .inl (by decide)
    · rcases hreached with rfl | rfl <;> exact absurd hentered (by decide)
    · exact .inr (.inl (.inr (canCauseException_mem_pageFlags hpage)))
    · split at hmarked <;> exact absurd hmarked (by decide)
  · intro p site hsite hagain
    rcases Flags.mem_union.mp hagain with hold | hnew
    · exact Flags.mem_union.mpr (.inl (hsite hold))
    · exact Flags.mem_union.mpr (.inr (canCauseException_mem_revisitFlags hnew))

/-- The start and the first word of a page have their translation checked. -/
theorem validateTlb_of_startsPage {t : w.Spot} {site : Site}
    (h : (run config source w).lookup t = some site) (hchecks : config.checksPages = true)
    (hpage : t.pc = w.start ∨ config.startsPage t.pc = true) :
    .validateTlb ∈ site.node.flags := by
  refine site_induction (P := fun t site ↦ t.pc = w.start ∨ config.startsPage t.pc = true →
    .validateTlb ∈ site.node.flags) ?_ ?_ h hpage
  · intro s spot reached _ hspot
    have hpc : (config.analyze source spot.pc).pc = spot.pc := Analysis.pc_describe ..
    rw [flags_newSite, newFlags, hpc]
    simp only [Flags.mem_union, validateTlb_mem_pageFlags_iff]
    exact .inr (.inl (.inr ⟨hchecks, hspot⟩))
  · intro p site hsite hspot
    exact Flags.mem_union.mpr (.inl (hsite hspot))

/-- Why the translation is checked at a spot. -/
def Reason (config : Config) (source : Source) (s : Survey w) (t : w.Spot) : Prop :=
  source.translate config.addressSpace t.pc = none ∨ config.checksPages = true ∧
    (t.pc = w.start ∨ config.startsPage t.pc = true ∨ ∃ u, Marks config source s u t ∧
      config.page u.pc ≠ config.page t.pc ∧ Revisits config source w u.pc t.pc)

theorem Reason.mono {s s' : Survey w} {t : w.Spot}
    (hmarks : ∀ u, Marks config source s u t → Marks config source s' u t)
    (h : Reason config source s t) : Reason config source s' t := by
  refine h.imp_right fun hpage ↦ ⟨hpage.1, hpage.2.imp_right fun hentry ↦ hentry.imp_right ?_⟩
  rintro ⟨u, hu, hcrosses, hagain⟩
  exact ⟨u, hmarks u hu, hcrosses, hagain⟩

/-- Every target that waits is that of a marked branch, every marked branch waits or was followed,
and every check has a reason. -/
structure Entered (config : Config) (source : Source) (s : Survey w) : Prop where
  waiting : ∀ p ∈ s.pending, ∀ pc, p.source = some pc →
    ∃ u : w.Spot, u.pc = pc ∧ Marks config source s u p.target
  marked : ∀ u t, Marks config source s u t → (⟨some u.pc, t⟩ : Pending w) ∈ s.pending ∨
    Discovers config source w u.pc t.pc ∨ Revisits config source w u.pc t.pc
  checked : ∀ t site, s.lookup t = some site → .validateTlb ∈ site.node.flags →
    Reason config source s t

theorem entered_initial : Entered config source (initial w) := by
  refine ⟨fun p hp pc hpc ↦ ?_, fun u t h ↦ ?_, fun t site ht ↦ ?_⟩
  · obtain rfl : p = ⟨none, w.startSpot⟩ := by simpa [initial] using hp
    cases hpc
  · obtain ⟨site, hsite, -⟩ := h
    rw [lookup_initial] at hsite
    cases hsite
  · rw [lookup_initial] at ht
    cases ht

/-- Taking a target leaves every marked branch followed, if its own one is. -/
theorem Entered.pop {s : Survey w} (hs : Entered config source s) {p : Pending w}
    (hp : s.pending.back? = some p)
    (hfollowed : ∀ pc, p.source = some pc →
      Discovers config source w pc p.target.pc ∨ Revisits config source w pc p.target.pc) :
    Entered config source s.pop where
  waiting q hq := hs.waiting q ((mem_pending_iff_of_back? hp).mpr (.inl hq))
  marked u t h := by
    rcases hs.marked u t h with hwaits | hdone
    · rcases (mem_pending_iff_of_back? hp).mp hwaits with hwaits | rfl
      · exact .inl hwaits
      · exact .inr (hfollowed u.pc rfl)
    · exact .inr hdone
  checked := hs.checked

theorem Entered.record {s : Survey w} (hs : Entered config source s) {spot : w.Spot}
    {reached : Flags} (hnew : s.lookup spot = none) (hreached : reached ⊆ {.branchTarget}) :
    Entered config source (record config source s spot reached) := by
  have hmarks {u t : w.Spot} :
      Marks config source (Survey.record config source s spot reached) u t ↔ _ :=
    marks_record_iff hnew fun h ↦ absurd (hreached _ h) (by decide)
  refine ⟨fun p hp pc hpc ↦ ?_, fun u t h ↦ ?_, fun t site ht hflag ↦ ?_⟩
  · rcases mem_pending_record_iff.mp hp with hold | ⟨t, hpushed, rfl⟩
    · obtain ⟨u, hu, hmarked⟩ := hs.waiting p hold pc hpc
      exact ⟨u, hu, hmarks.mpr (.inl hmarked)⟩
    · exact ⟨spot, Option.some.inj hpc, hmarks.mpr (.inr ⟨rfl, hpushed⟩)⟩
  · rcases hmarks.mp h with hold | ⟨rfl, hpushed⟩
    · exact (hs.marked u t hold).imp_left fun hp ↦ mem_pending_record_iff.mpr (.inl hp)
    · exact .inl (mem_pending_record_iff.mpr (.inr ⟨t, hpushed, rfl⟩))
  · by_cases htspot : t = spot
    · subst htspot
      rw [lookup_record_self] at ht
      obtain rfl := Option.some.inj ht
      have hpc : (config.analyze source t.pc).pc = t.pc := Analysis.pc_describe ..
      rw [flags_newSite, newFlags, hpc] at hflag
      simp only [Flags.mem_union, validateTlb_mem_pageFlags_iff] at hflag
      rcases hflag with hanalyzed | (hentered | ⟨hchecks, hpage⟩) | hmarked
      · exact .inl (Config.translate_eq_none_of_mem_flags (by decide) hanalyzed)
      · exact absurd (hreached _ hentered) (by decide)
      · exact .inr ⟨hchecks, hpage.imp_right .inl⟩
      · split at hmarked <;> exact absurd hmarked (by decide)
    · rw [lookup_record_of_ne config source s reached htspot] at ht
      exact (hs.checked t site ht hflag).mono fun u hu ↦ hmarks.mpr (.inl hu)

/-- Visiting a site again along a branch is a reason to check it. -/
theorem Entered.revisit {s : Survey w} (hs : Entered config source s) {p : Pending w}
    {site : Site} (hp : p ∈ s.pending) (hold : s.lookup p.target = some site)
    (hagain : ∀ pc, p.source = some pc → Revisits config source w pc p.target.pc) :
    Entered config source (revisit config s p site) := by
  have hmarks {u t : w.Spot} : Marks config source (Survey.revisit config s p site) u t ↔ _ :=
    marks_revisit_iff hold
  refine ⟨fun q hq pc hpc ↦ ?_, fun u t h ↦ hs.marked u t (hmarks.mp h), fun t found ht hflag ↦ ?_⟩
  · obtain ⟨u, hu, hmarked⟩ := hs.waiting q hq pc hpc
    exact ⟨u, hu, hmarks.mpr hmarked⟩
  · by_cases htarget : t = p.target
    · subst htarget
      rw [lookup_revisit_self] at ht
      obtain rfl := Option.some.inj ht
      rcases Flags.mem_union.mp hflag with hflag | hflag
      · exact (hs.checked _ _ hold hflag).mono fun u hu ↦ hmarks.mpr hu
      · obtain ⟨hchecks, pc, hpc, hcrosses⟩ := validateTlb_mem_revisitFlags_iff.mp hflag
        obtain ⟨u, rfl, hmarked⟩ := hs.waiting p hp pc hpc
        exact .inr ⟨hchecks, .inr (.inr ⟨u, hmarks.mpr hmarked, hcrosses, hagain u.pc hpc⟩)⟩
    · rw [lookup_revisit_of_ne config s site htarget] at ht
      exact (hs.checked t found ht hflag).mono fun u hu ↦ hmarks.mpr hu

theorem entered_run (config : Config) (source : Source) (w : Window) :
    Entered config source (run config source w) := by
  have hrun : Reached config source (run config source w) ∧
      Entered config source (run config source w) := by
    refine run_induction
      (motive := fun s ↦ Reached config source s ∧ Entered config source s) ?_ ?_ ?_ ?_
    · exact ⟨.initial, entered_initial⟩
    · rintro s spot ⟨hreached, hs⟩ hc hl
      refine ⟨?_, hs.record hl (Flags.empty_subset _)⟩
      rw [← step_of_cursor config source hc]
      exact hreached.step
    · rintro s p ⟨hreached, hs⟩ hc hp hl
      refine ⟨?_, (hs.pop hp fun pc hpc ↦ .inl ⟨s, p.target, ⟨hreached, hc, ?_⟩, rfl, hl⟩).record
        (s := s.pop) hl (fun _ h ↦ h)⟩
      · rw [← step_of_new config source hc hp hl]
        exact hreached.step
      · rw [hp, ← hpc]
    · rintro s p site ⟨hreached, hs⟩ hc hp hl
      have hagain (pc : VirtAddr) (hpc : p.source = some pc) :
          Revisits config source w pc p.target.pc := by
        refine ⟨s, p.target, ⟨hreached, hc, ?_⟩, rfl, ?_⟩
        · rw [hp, ← hpc]
        · rw [hl]
          exact Option.some_ne_none site
      refine ⟨?_, ?_⟩
      · rw [← step_of_known config source hc hp hl]
        exact hreached.step
      · have hmem : p ∈ s.pending := (mem_pending_iff_of_back? hp).mpr (.inr rfl)
        exact (hs.revisit hmem hl hagain).pop hp fun pc hpc ↦ .inr (hagain pc hpc)
  exact hrun.2

/-- A branch that comes back to a site from another page has it checked. -/
theorem validateTlb_of_revisits {t : w.Spot} {site : Site}
    (h : (run config source w).lookup t = some site) (hchecks : config.checksPages = true)
    {pc : VirtAddr} (hcrosses : config.page pc ≠ config.page t.pc)
    (hagain : Revisits config source w pc t.pc) : .validateTlb ∈ site.node.flags := by
  obtain ⟨s, t', ⟨hreached, hcursor, hback⟩, hpc, hknown⟩ := hagain
  obtain rfl := Window.Spot.eq_of_pc_eq hpc
  obtain ⟨found, hfound⟩ := Option.ne_none_iff_exists'.mp hknown
  have hflags : .validateTlb ∈ revisitFlags config (⟨some pc, t'⟩ : Pending w) :=
    validateTlb_mem_revisitFlags_iff.mpr ⟨hchecks, pc, rfl, hcrosses⟩
  have hstep : ∃ site, (step config source s).lookup t' = some site ∧
      .validateTlb ∈ site.node.flags := by
    rw [step_of_known config source hcursor hback hfound]
    exact ⟨_, lookup_revisit_self config s.pop _ found, Flags.mem_union.mpr (.inr hflags)⟩
  obtain ⟨last, hlast, hflag⟩ := hreached.step.run_induction
    (motive := fun r ↦ ∃ site, r.lookup t' = some site ∧ .validateTlb ∈ site.node.flags) hstep
    fun r hr hkept ↦ mem_flags_step hr.cursorFresh hkept
  rw [h] at hlast
  rwa [Option.some.inj hlast]

/-- A translation is checked exactly where there is a reason. -/
theorem validateTlb_mem_iff_of_lookup_run {t : w.Spot} {site : Site}
    (h : (run config source w).lookup t = some site) :
    .validateTlb ∈ site.node.flags ↔ Reason config source (run config source w) t := by
  refine ⟨(entered_run config source w).checked t site h, ?_⟩
  rintro (hnone | ⟨hchecks, hstart | hpage | ⟨u, -, hcrosses, hagain⟩⟩)
  · have hanalyzed : .validateTlb ∈ (config.analyze source t.pc).flags := by
      rw [Config.analyze_of_translate_eq_none hnone]
      change Flag.validateTlb ∈ Analysis.faultFlags
      decide
    obtain ⟨flags, -, heq⟩ := describes_of_lookup_run h
    rw [heq]
    exact Flags.mem_union.mpr (.inl hanalyzed)
  · exact validateTlb_of_startsPage h hchecks (.inl hstart)
  · exact validateTlb_of_startsPage h hchecks (.inr hpage)
  · exact validateTlb_of_revisits h hchecks hcrosses hagain

/-- Every marked branch was followed: it came first to its target, or it came back there. -/
theorem discovers_or_revisits_run {u t : w.Spot}
    (h : Marks config source (run config source w) u t) :
    Discovers config source w u.pc t.pc ∨ Revisits config source w u.pc t.pc := by
  have hpending := (eq_none_of_finished (finished_run config source w)).2
  exact ((entered_run config source w).marked u t h).resolve_left (hpending _)

end Survey

end MipsBlocks
