import MipsBlocks.Proofs.Survey.Sites
import Mathlib.Logic.Relation

/-!
# What a survey finds

Inside a window control goes from an address to the static target of its branch
(`Window.TargetEdge`) or falls through (`Window.FallEdge`). A survey finds only what these edges
reach from the start (`reaches_of_lookup_run`). It follows every edge of the second kind
(`found_of_fallEdge_run`) and the targets that its stack took, which are those of the branches
marked `intrablockBranch` (`found_of_intrablockBranch_run`).

A stack as deep as the window has words takes every target (`intrablockBranch_of_target_run`): a
branch puts at most one target there, and it does so when it is described, so the targets that wait
are fewer than the words. Then a survey finds all that can be reached (`exists_found_of_reaches`).
-/

set_option autoImplicit false
set_option relaxedAutoImplicit false

namespace MipsBlocks

/-! ### Control inside a window -/

namespace Window

variable (config : Config) (source : Source) (w : Window)

/-- The instruction at `pc` is a branch to `dest`, an address of the window. -/
structure TargetEdge (pc dest : VirtAddr) : Prop where
  fetched : source.translate config.addressSpace pc ≠ none
  isBranch : (config.analyze source pc).isBranch = true
  target : (config.analyze source pc).target = some dest
  inside : w.Contains dest

/-- The instruction at `pc` does not end its sequence and falls through to `dest`, an address of
the window. -/
structure FallEdge (pc dest : VirtAddr) : Prop where
  fetched : source.translate config.addressSpace pc ≠ none
  endsSequence : (config.analyze source pc).endsSequence = false
  fallthrough : (config.analyze source pc).fallthrough = dest
  inside : w.Contains dest

/-- Control can go from `pc` to `dest` in one step. -/
def Edge (pc dest : VirtAddr) : Prop :=
  w.TargetEdge config source pc dest ∨ w.FallEdge config source pc dest

/-- Control can get from the start of the window to an address. -/
def Reaches (pc : VirtAddr) : Prop := Relation.ReflTransGen (w.Edge config source) w.start pc

end Window

namespace Config

variable {config : Config} {source : Source} {pc : VirtAddr}

theorem analyze_of_translate_eq_none (h : source.translate config.addressSpace pc = none) :
    config.analyze source pc = .fault pc := by
  simp [analyze, Analysis.describe, h]

theorem analyze_of_translate_eq_some {phys : PhysAddr}
    (h : source.translate config.addressSpace pc = some phys) :
    config.analyze source pc = .decoded config.flavor source pc phys := by
  simp [analyze, Analysis.describe, h]

/-- A stand-in is no branch. -/
theorem translate_ne_none_of_isBranch (h : (config.analyze source pc).isBranch = true) :
    source.translate config.addressSpace pc ≠ none := by
  intro hnone
  rw [analyze_of_translate_eq_none hnone, Analysis.isBranch_fault] at h
  cases h

/-- A stand-in ends its sequence. -/
theorem translate_ne_none_of_endsSequence
    (h : (config.analyze source pc).endsSequence = false) :
    source.translate config.addressSpace pc ≠ none := by
  intro hnone
  rw [analyze_of_translate_eq_none hnone, Analysis.endsSequence_fault] at h
  cases h

end Config

namespace Survey

variable {w : Window} {config : Config} {source : Source}

theorem innerTarget?_eq_some_iff {a : Analysis} {t : w.Spot} :
    innerTarget? w a = some t ↔ a.isBranch = true ∧ a.target = some t.pc := by
  unfold innerTarget?
  split
  · rename_i hbranch
    simp only [Option.bind_eq_some_iff, Window.spot?_eq_some_iff, exists_eq_right', hbranch,
      true_and]
  · rename_i hbranch
    simp [hbranch]

theorem targetEdge_of_innerTarget? {pc : VirtAddr} {t : w.Spot}
    (h : innerTarget? w (config.analyze source pc) = some t) :
    w.TargetEdge config source pc t.pc := by
  obtain ⟨hbranch, htarget⟩ := innerTarget?_eq_some_iff.mp h
  exact ⟨Config.translate_ne_none_of_isBranch hbranch, hbranch, htarget, t.inside⟩

theorem innerTarget?_of_targetEdge {pc : VirtAddr} {t : w.Spot}
    (h : w.TargetEdge config source pc t.pc) :
    innerTarget? w (config.analyze source pc) = some t :=
  innerTarget?_eq_some_iff.mpr ⟨h.isBranch, h.target⟩

theorem innerTarget?_of_pushed {s : Survey w} {a : Analysis} {t : w.Spot}
    (h : pushed config s a = some t) : innerTarget? w a = some t := by
  unfold pushed at h
  split at h
  · exact h
  · cases h

theorem cursor_record_eq_some_iff {s : Survey w} {spot t : w.Spot} {reached : Flags}
    (hreached : reached ⊆ Flags.ofSurvey) :
    (record config source s spot reached).cursor = some t ↔
      w.FallEdge config source spot.pc t.pc ∧
        (record config source s spot reached).lookup t = none := by
  rw [cursor_record, following, endsSequence_newSite s spot reached hreached]
  split
  · rename_i hends
    simp only [reduceCtorEq, false_iff, not_and]
    intro hedge
    rw [hedge.endsSequence] at hends
    cases hends
  · rename_i hends
    rw [Bool.not_eq_true] at hends
    rw [Option.filter_eq_some_iff, Window.spot?_eq_some_iff, fallthrough_newSite,
      Option.isNone_iff_eq_none]
    constructor
    · rintro ⟨hfall, hnone⟩
      exact ⟨⟨Config.translate_ne_none_of_endsSequence hends, hends, hfall.symm, t.inside⟩, hnone⟩
    · rintro ⟨hedge, hnone⟩
      exact ⟨hedge.fallthrough.symm, hnone⟩

theorem mem_pending_record_iff {s : Survey w} {spot : w.Spot} {reached : Flags} {p : Pending w} :
    p ∈ (record config source s spot reached).pending ↔
      p ∈ s.pending ∨ ∃ t, pushed config s (config.analyze source spot.pc) = some t ∧
        p = ⟨some spot.pc, t⟩ := by
  rw [pending_record, Site.node_describe]
  split <;> rename_i hpushed
  · simp [hpushed]
  · simp [hpushed]

theorem mem_pending_iff_of_back? {s : Survey w} {p q : Pending w}
    (hp : s.pending.back? = some p) : q ∈ s.pending ↔ q ∈ s.pop.pending ∨ q = p := by
  obtain ⟨ys, hys⟩ := Array.back?_eq_some_iff.mp hp
  simp [pop, hys]

/-! ### Only what can be reached -/

/-- Everything that a survey knows or waits for can be reached. -/
structure Sound (config : Config) (source : Source) (s : Survey w) : Prop where
  found : ∀ spot site, s.lookup spot = some site → w.Reaches config source spot.pc
  cursor : ∀ spot, s.cursor = some spot → w.Reaches config source spot.pc
  pending : ∀ p ∈ s.pending, w.Reaches config source p.target.pc

theorem Sound.pop {s : Survey w} (hs : Sound config source s) {p : Pending w}
    (hp : s.pending.back? = some p) : Sound config source s.pop where
  found := hs.found
  cursor := hs.cursor
  pending q hq := hs.pending q ((mem_pending_iff_of_back? hp).mpr (.inl hq))

theorem Sound.record {s : Survey w} (hs : Sound config source s) {spot : w.Spot} {reached : Flags}
    (hspot : w.Reaches config source spot.pc) (hreached : reached ⊆ Flags.ofSurvey) :
    Sound config source (record config source s spot reached) where
  found t site ht := by
    by_cases htspot : t = spot
    · rwa [htspot]
    · rw [lookup_record_of_ne config source s reached htspot] at ht
      exact hs.found t site ht
  cursor t ht := hspot.tail (.inr ((cursor_record_eq_some_iff hreached).mp ht).1)
  pending p hp := by
    rcases mem_pending_record_iff.mp hp with hold | ⟨t, hpushed, rfl⟩
    · exact hs.pending p hold
    · exact hspot.tail (.inl (targetEdge_of_innerTarget? (innerTarget?_of_pushed hpushed)))

theorem Sound.revisit {s : Survey w} (hs : Sound config source s) {p : Pending w} {site : Site}
    (hold : s.lookup p.target = some site) : Sound config source (revisit config s p site) where
  found t found ht := by
    by_cases htarget : t = p.target
    · rw [htarget]
      exact hs.found _ _ hold
    · rw [lookup_revisit_of_ne config s site htarget] at ht
      exact hs.found t found ht
  cursor := hs.cursor
  pending := hs.pending

theorem sound_run (config : Config) (source : Source) (w : Window) :
    Sound config source (run config source w) := by
  refine run_induction ?_ ?_ ?_ ?_
  · refine ⟨?_, ?_, ?_⟩
    · intro spot site h
      rw [lookup_initial] at h
      cases h
    · intro spot h
      cases h
    · intro p hp
      obtain rfl : p = ⟨none, w.startSpot⟩ := by simpa [initial] using hp
      exact .refl
  · intro s spot hs hc _
    exact hs.record (hs.cursor spot hc) (Flags.empty_subset _)
  · intro s p hs _ hp _
    have htarget := hs.pending p ((mem_pending_iff_of_back? hp).mpr (.inr rfl))
    exact (hs.pop hp).record htarget (by decide)
  · intro s p site hs _ hp hl
    exact (hs.pop hp).revisit hl

/-- A survey finds only what can be reached. -/
theorem reaches_of_lookup_run {spot : w.Spot} {site : Site}
    (h : (run config source w).lookup spot = some site) : w.Reaches config source spot.pc :=
  (sound_run config source w).found spot site h

/-! ### Everything that was followed -/

/-- The spot has a site that is marked as a branch target, or waits to get one. -/
def Awaits (s : Survey w) (spot : w.Spot) : Prop :=
  (∃ site, s.lookup spot = some site ∧ .branchTarget ∈ site.node.flags) ∨
    ∃ p ∈ s.pending, p.target = spot

/-- What the sites of a survey lead to is known to it or will be. -/
structure Closed (config : Config) (source : Source) (s : Survey w) : Prop where
  fall : ∀ spot site t, s.lookup spot = some site → w.FallEdge config source spot.pc t.pc →
    s.lookup t ≠ none ∨ s.cursor = some t
  target : ∀ spot site, s.lookup spot = some site → .intrablockBranch ∈ site.node.flags →
    ∃ t, innerTarget? w (config.analyze source spot.pc) = some t ∧ s.Awaits t

theorem lookup_record_ne_none {s : Survey w} {spot t : w.Spot} {reached : Flags}
    (ht : s.lookup t ≠ none ∨ t = spot) :
    (record config source s spot reached).lookup t ≠ none := by
  by_cases htspot : t = spot
  · rw [htspot, lookup_record_self]
    exact Option.some_ne_none _
  · rw [lookup_record_of_ne config source s reached htspot]
    exact ht.resolve_right htspot

theorem lookup_revisit_ne_none {s : Survey w} {p : Pending w} {site : Site} {t : w.Spot}
    (ht : s.lookup t ≠ none) : (revisit config s p site).lookup t ≠ none := by
  by_cases htarget : t = p.target
  · rw [htarget, lookup_revisit_self]
    exact Option.some_ne_none _
  · rwa [lookup_revisit_of_ne config s site htarget]

theorem lookup_step_ne_none {s : Survey w} {t : w.Spot}
    (h : s.lookup t ≠ none) : (step config source s).lookup t ≠ none := by
  cases hcursor : s.cursor with
  | some spot =>
    rw [step_of_cursor config source hcursor]
    exact lookup_record_ne_none (.inl h)
  | none =>
    cases hpending : s.pending.back? with
    | none => rwa [step_of_finished config source hcursor hpending]
    | some p =>
      cases hsite : s.lookup p.target with
      | some site =>
        rw [step_of_known config source hcursor hpending hsite]
        exact lookup_revisit_ne_none h
      | none =>
        rw [step_of_new config source hcursor hpending hsite]
        exact lookup_record_ne_none (s := s.pop) (.inl h)

/-- What was found stays found. -/
theorem lookup_advance_ne_none (fuel : Nat) {s : Survey w} {t : w.Spot}
    (h : s.lookup t ≠ none) : (advance config source fuel s).lookup t ≠ none := by
  induction fuel generalizing s with
  | zero => exact h
  | succ fuel ih =>
    rw [advance]
    split
    · exact h
    · exact ih (lookup_step_ne_none h)

/-- What waits goes on waiting when a site is described, and the site itself is no longer waited
for if it becomes a branch target. -/
theorem Awaits.record {s : Survey w} {spot t : w.Spot} {reached : Flags}
    (hnew : s.lookup spot = none) (ht : s.Awaits t ∨ t = spot ∧ .branchTarget ∈ reached) :
    (record config source s spot reached).Awaits t := by
  rcases ht with (⟨site, hsite, htarget⟩ | ⟨p, hp, rfl⟩) | ⟨rfl, htarget⟩
  · have hne : t ≠ spot := by
      rintro rfl
      rw [hnew] at hsite
      cases hsite
    exact .inl ⟨site, by rw [lookup_record_of_ne config source s reached hne, hsite], htarget⟩
  · exact .inr ⟨p, mem_pending_record_iff.mpr (.inl hp), rfl⟩
  · exact .inl ⟨_, lookup_record_self config source s t reached, mem_flags_newSite s t _ htarget⟩

theorem branchTarget_mem_revisitFlags (p : Pending w) :
    .branchTarget ∈ revisitFlags config p := by
  unfold revisitFlags
  dsimp only
  split <;> simp

theorem intrablockBranch_notMem_revisitFlags (p : Pending w) :
    .intrablockBranch ∉ revisitFlags config p := by
  unfold revisitFlags
  dsimp only
  split <;> decide

theorem Awaits.revisit {s : Survey w} {p : Pending w} {site : Site} {t : w.Spot}
    (ht : s.Awaits t ∨ t = p.target) : (revisit config s p site).Awaits t := by
  by_cases htarget : t = p.target
  · refine .inl ⟨site.flag (revisitFlags config p), ?_, ?_⟩
    · rw [htarget, lookup_revisit_self]
    · exact Flags.mem_union.mpr (.inr (branchTarget_mem_revisitFlags p))
  · rcases ht.resolve_right htarget with ⟨found, hfound, hflag⟩ | ⟨q, hq, hqt⟩
    · exact .inl ⟨found, by rw [lookup_revisit_of_ne config s site htarget, hfound], hflag⟩
    · exact .inr ⟨q, hq, hqt⟩

/-- Taking a target from the stack leaves one spot that nothing waits for any more. -/
theorem Awaits.pop {s : Survey w} {p : Pending w} {t : w.Spot} (hp : s.pending.back? = some p)
    (ht : s.Awaits t) : s.pop.Awaits t ∨ t = p.target := by
  rcases ht with hfound | ⟨q, hq, rfl⟩
  · exact .inl (.inl hfound)
  · rcases (mem_pending_iff_of_back? hp).mp hq with hq | rfl
    · exact .inl (.inr ⟨q, hq, rfl⟩)
    · exact .inr rfl

/-- Describing a site keeps a survey closed if what its sites lead to was known, or is the new
site. -/
theorem closed_record {s : Survey w} {spot : w.Spot} {reached : Flags}
    (hnew : s.lookup spot = none) (hreached : reached ⊆ Flags.ofSurvey)
    (hunmarked : Flag.intrablockBranch ∉ reached)
    (hfall : ∀ u site t, s.lookup u = some site → w.FallEdge config source u.pc t.pc →
      s.lookup t ≠ none ∨ t = spot)
    (htarget : ∀ u site, s.lookup u = some site → .intrablockBranch ∈ site.node.flags →
      ∃ t, innerTarget? w (config.analyze source u.pc) = some t ∧
        (s.Awaits t ∨ t = spot ∧ .branchTarget ∈ reached)) :
    Closed config source (record config source s spot reached) := by
  constructor
  · intro u site t hu hedge
    by_cases huspot : u = spot
    · subst huspot
      by_cases ht : (record config source s u reached).lookup t = none
      · exact .inr ((cursor_record_eq_some_iff hreached).mpr ⟨hedge, ht⟩)
      · exact .inl ht
    · rw [lookup_record_of_ne config source s reached huspot] at hu
      exact .inl (lookup_record_ne_none (hfall u site t hu hedge))
  · intro u site hu hmarked
    by_cases huspot : u = spot
    · subst huspot
      rw [lookup_record_self] at hu
      obtain rfl := Option.some.inj hu
      rw [intrablockBranch_mem_newSite_iff s u reached hunmarked, Option.isSome_iff_exists]
        at hmarked
      obtain ⟨t, hpushed⟩ := hmarked
      refine ⟨t, innerTarget?_of_pushed hpushed, .inr ⟨⟨some u.pc, t⟩, ?_, rfl⟩⟩
      exact mem_pending_record_iff.mpr (.inr ⟨t, hpushed, rfl⟩)
    · rw [lookup_record_of_ne config source s reached huspot] at hu
      obtain ⟨t, hinner, ht⟩ := htarget u site hu hmarked
      exact ⟨t, hinner, .record hnew ht⟩

theorem closed_revisit {s : Survey w} {p : Pending w} {site : Site}
    (hold : s.lookup p.target = some site)
    (hfall : ∀ u site t, s.lookup u = some site → w.FallEdge config source u.pc t.pc →
      s.lookup t ≠ none)
    (htarget : ∀ u site, s.lookup u = some site → .intrablockBranch ∈ site.node.flags →
      ∃ t, innerTarget? w (config.analyze source u.pc) = some t ∧
        (s.Awaits t ∨ t = p.target)) :
    Closed config source (revisit config s p site) := by
  constructor
  · intro u found t hu hedge
    refine .inl (lookup_revisit_ne_none ?_)
    by_cases hup : u = p.target
    · rw [hup] at hedge
      exact hfall _ _ t hold hedge
    · rw [lookup_revisit_of_ne config s site hup] at hu
      exact hfall u found t hu hedge
  · intro u found hu hmarked
    by_cases hup : u = p.target
    · subst hup
      rw [lookup_revisit_self] at hu
      obtain rfl := Option.some.inj hu
      have hmarked : .intrablockBranch ∈ site.node.flags :=
        (Flags.mem_union.mp hmarked).resolve_right (intrablockBranch_notMem_revisitFlags p)
      obtain ⟨t, hinner, ht⟩ := htarget _ _ hold hmarked
      exact ⟨t, hinner, .revisit ht⟩
    · rw [lookup_revisit_of_ne config s site hup] at hu
      obtain ⟨t, hinner, ht⟩ := htarget u found hu hmarked
      exact ⟨t, hinner, .revisit ht⟩

theorem closed_run (config : Config) (source : Source) (w : Window) :
    Closed config source (run config source w) := by
  refine run_induction ?_ ?_ ?_ ?_
  · constructor
    · intro spot site t h
      rw [lookup_initial] at h
      cases h
    · intro spot site h
      rw [lookup_initial] at h
      cases h
  · intro s spot hs hc hl
    refine closed_record hl (Flags.empty_subset _) (Flags.not_mem_empty _) ?_ ?_
    · intro u site t hu hedge
      refine (hs.fall u site t hu hedge).imp_right fun ht ↦ ?_
      rw [hc] at ht
      exact (Option.some.inj ht).symm
    · intro u site hu hmarked
      obtain ⟨t, hinner, ht⟩ := hs.target u site hu hmarked
      exact ⟨t, hinner, .inl ht⟩
  · intro s p hs hc hp hl
    refine closed_record (s := s.pop) hl (by decide) (by decide) ?_ ?_
    · intro u site t hu hedge
      refine (hs.fall u site t hu hedge).imp_right fun ht ↦ ?_
      rw [hc] at ht
      cases ht
    · intro u site hu hmarked
      obtain ⟨t, hinner, ht⟩ := hs.target u site hu hmarked
      exact ⟨t, hinner, (ht.pop hp).imp_right fun h ↦ ⟨h, by simp⟩⟩
  · intro s p site hs hc hp hl
    refine closed_revisit (s := s.pop) hl ?_ ?_
    · intro u found t hu hedge
      refine (hs.fall u found t hu hedge).resolve_right fun ht ↦ ?_
      rw [hc] at ht
      cases ht
    · intro u found hu hmarked
      obtain ⟨t, hinner, ht⟩ := hs.target u found hu hmarked
      exact ⟨t, hinner, ht.pop hp⟩

theorem eq_none_of_finished {s : Survey w} (hs : s.finished = true) :
    s.cursor = none ∧ ∀ p, p ∉ s.pending := by
  simp only [finished, Bool.and_eq_true, Option.isNone_iff_eq_none, Array.isEmpty_iff] at hs
  refine ⟨hs.1, fun p hp ↦ ?_⟩
  rw [hs.2] at hp
  exact absurd hp (Array.not_mem_empty p)

/-- A survey follows every sequence as far as it goes inside the window. -/
theorem found_of_fallEdge_run {spot t : w.Spot} {site : Site}
    (h : (run config source w).lookup spot = some site)
    (hedge : w.FallEdge config source spot.pc t.pc) :
    ∃ next, (run config source w).lookup t = some next := by
  have hcursor := (eq_none_of_finished (finished_run config source w)).1
  rcases (closed_run config source w).fall spot site t h hedge with hfound | hfollow
  · exact Option.ne_none_iff_exists'.mp hfound
  · rw [hcursor] at hfollow
    cases hfollow

/-- The branches marked as intrablock are those whose target was explored. -/
theorem found_of_intrablockBranch_run {spot : w.Spot} {site : Site}
    (h : (run config source w).lookup spot = some site)
    (hmarked : .intrablockBranch ∈ site.node.flags) :
    ∃ t next, innerTarget? w (config.analyze source spot.pc) = some t ∧
      (run config source w).lookup t = some next ∧ .branchTarget ∈ next.node.flags := by
  have hpending := (eq_none_of_finished (finished_run config source w)).2
  obtain ⟨t, hinner, hfound | ⟨p, hp, -⟩⟩ := (closed_run config source w).target spot site h hmarked
  · obtain ⟨next, hnext, hflag⟩ := hfound
    exact ⟨t, next, hinner, hnext, hflag⟩
  · exact absurd hp (hpending p)

/-! ### A deep stack -/

/-- As many targets wait as sites were found, at most: each site found one. Before a target is taken
there can be one more, the start. -/
structure Roomy (s : Survey w) : Prop where
  size_pending_le : s.pending.size ≤ s.sites.length + 1
  size_pending_le_of_cursor : s.cursor ≠ none → s.pending.size ≤ s.sites.length

/-- Every branch with a target in the window is marked. -/
def AllMarked (config : Config) (source : Source) (s : Survey w) : Prop :=
  ∀ spot site, s.lookup spot = some site →
    innerTarget? w (config.analyze source spot.pc) ≠ none → .intrablockBranch ∈ site.node.flags

theorem roomy_record {s : Survey w} {spot : w.Spot} {reached : Flags}
    (hnew : s.lookup spot = none) (hsize : s.pending.size ≤ s.sites.length) :
    Roomy (record config source s spot reached) := by
  have hlength := length_sites_record config source reached hnew
  have hpending := size_pending_record_le config source s spot reached
  constructor
  · omega
  · intro _
    omega

/-- While a word of the window is not described, a stack that deep is not full. -/
theorem pushed_eq_innerTarget? {s : Survey w} {spot : w.Spot} {a : Analysis}
    (hdepth : w.words ≤ config.maxStackDepth) (hnew : s.lookup spot = none)
    (hsize : s.pending.size ≤ s.sites.length) : pushed config s a = innerTarget? w a := by
  have hlt := length_sites_lt hnew
  rw [pushed, if_pos (by omega)]

theorem allMarked_record {s : Survey w} {spot : w.Spot} {reached : Flags}
    (hdepth : w.words ≤ config.maxStackDepth) (hnew : s.lookup spot = none)
    (hsize : s.pending.size ≤ s.sites.length) (hunmarked : Flag.intrablockBranch ∉ reached)
    (hs : AllMarked config source s) :
    AllMarked config source (record config source s spot reached) := by
  intro u site hu hinner
  by_cases huspot : u = spot
  · subst huspot
    rw [lookup_record_self] at hu
    obtain rfl := Option.some.inj hu
    rw [intrablockBranch_mem_newSite_iff s u reached hunmarked,
      pushed_eq_innerTarget? hdepth hnew hsize]
    exact Option.isSome_iff_ne_none.mpr hinner
  · rw [lookup_record_of_ne config source s reached huspot] at hu
    exact hs u site hu hinner

theorem allMarked_revisit {s : Survey w} {p : Pending w} {site : Site}
    (hold : s.lookup p.target = some site) (hs : AllMarked config source s) :
    AllMarked config source (revisit config s p site) := by
  intro u found hu hinner
  by_cases hup : u = p.target
  · subst hup
    rw [lookup_revisit_self] at hu
    obtain rfl := Option.some.inj hu
    exact Flags.mem_union.mpr (.inl (hs _ _ hold hinner))
  · rw [lookup_revisit_of_ne config s site hup] at hu
    exact hs u found hu hinner

theorem allMarked_run {source : Source} (hdepth : w.words ≤ config.maxStackDepth) :
    AllMarked config source (run config source w) := by
  have hrun : Roomy (run config source w) ∧ AllMarked config source (run config source w) := by
    refine run_induction (motive := fun s ↦ Roomy s ∧ AllMarked config source s) ?_ ?_ ?_ ?_
    · refine ⟨⟨?_, fun h ↦ absurd rfl h⟩, ?_⟩
      · simp [initial]
      · intro spot site h
        rw [lookup_initial] at h
        cases h
    · rintro s spot ⟨hroomy, hmarked⟩ hc hl
      have hsize := hroomy.size_pending_le_of_cursor (by simp [hc])
      exact ⟨roomy_record hl hsize,
        allMarked_record hdepth hl hsize (Flags.not_mem_empty _) hmarked⟩
    · rintro s p ⟨hroomy, hmarked⟩ hc hp hl
      have hpop := size_pending_pop hp
      have hsize : s.pop.pending.size ≤ s.pop.sites.length := by
        rw [sites_pop]
        have hle := hroomy.size_pending_le
        omega
      have hnew : s.pop.lookup p.target = none := hl
      exact ⟨roomy_record hnew hsize, allMarked_record hdepth hnew hsize (by decide) hmarked⟩
    · rintro s p site ⟨hroomy, hmarked⟩ hc hp hl
      have hpop := size_pending_pop hp
      have hold : s.pop.lookup p.target = some site := hl
      have hlength := length_sites_revisit config hold
      refine ⟨⟨?_, fun h ↦ absurd hc h⟩, allMarked_revisit hold hmarked⟩
      have hle := hroomy.size_pending_le
      rw [hlength, sites_pop]
      show s.pop.pending.size ≤ _
      omega
  exact hrun.2

/-- A stack as deep as the window has words takes every target. -/
theorem intrablockBranch_of_target_run {spot : w.Spot} {site : Site}
    (hdepth : w.words ≤ config.maxStackDepth)
    (h : (run config source w).lookup spot = some site)
    (hinner : innerTarget? w (config.analyze source spot.pc) ≠ none) :
    .intrablockBranch ∈ site.node.flags :=
  allMarked_run hdepth spot site h hinner

/-- With a stack as deep as the window has words, a survey finds all that can be reached. -/
theorem exists_found_of_reaches (hdepth : w.words ≤ config.maxStackDepth) {pc : VirtAddr}
    (h : w.Reaches config source pc) :
    ∃ spot : w.Spot, spot.pc = pc ∧
      ∃ site, (run config source w).lookup spot = some site := by
  induction h with
  | refl =>
    obtain ⟨site, hsite, -, -⟩ := startFirst_run config source w
    exact ⟨w.startSpot, rfl, site, hsite⟩
  | @tail pc dest _ hedge ih =>
    obtain ⟨spot, rfl, site, hsite⟩ := ih
    rcases hedge with htarget | hfall
    · have hinner : innerTarget? w (config.analyze source spot.pc) = some ⟨dest, htarget.inside⟩ :=
        innerTarget?_of_targetEdge htarget
      have hmarked := intrablockBranch_of_target_run hdepth hsite (by simp [hinner])
      obtain ⟨t, next, ht, hnext, -⟩ := found_of_intrablockBranch_run hsite hmarked
      rw [hinner] at ht
      obtain rfl := Option.some.inj ht
      exact ⟨_, rfl, next, hnext⟩
    · exact ⟨⟨dest, hfall.inside⟩, rfl, found_of_fallEdge_run hsite hfall⟩

end Survey

end MipsBlocks
