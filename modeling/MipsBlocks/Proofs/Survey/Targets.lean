import MipsBlocks.Proofs.Survey.Order
import MipsBlocks.Proofs.Survey.Pages

/-!
# Branch targets of a survey

A site of a finished survey is a branch target exactly if it is the start or a marked branch leads
to it (`branchTarget_mem_iff_of_lookup_run`). The flag is given when a target is taken from the
stack, and what is on the stack was put there by a marked branch, but for the start
(`Survey.Aimed`).

Two addresses of a range can be in one sequence unless they are apart (`Survey.Apart`), and this
depends on them alone and not on how the survey came to them (`joined_eq_false_iff_of_lookup_run`).
-/

set_option autoImplicit false
set_option relaxedAutoImplicit false

namespace MipsBlocks

namespace Survey

variable {w : Window} {config : Config} {source : Source}

/-- A spot that execution can enter: the start, or the target of a marked branch. -/
def IsEntry (config : Config) (source : Source) (s : Survey w) (t : w.Spot) : Prop :=
  t = w.startSpot ∨ ∃ u, Marks config source s u t

/-- Branch targets and targets that wait are entries. -/
structure Aimed (config : Config) (source : Source) (s : Survey w) : Prop where
  waiting : ∀ p ∈ s.pending, IsEntry config source s p.target
  found : ∀ t site, s.lookup t = some site → .branchTarget ∈ site.node.flags →
    IsEntry config source s t

theorem IsEntry.mono {s s' : Survey w} {t : w.Spot}
    (hmarks : ∀ u, Marks config source s u t → Marks config source s' u t)
    (h : IsEntry config source s t) : IsEntry config source s' t :=
  h.imp_right fun ⟨u, hu⟩ ↦ ⟨u, hmarks u hu⟩

theorem aimed_initial : Aimed config source (initial w) := by
  refine ⟨fun p hp ↦ ?_, fun t site ht ↦ ?_⟩
  · obtain rfl : p = ⟨none, w.startSpot⟩ := by simpa [initial] using hp
    exact .inl rfl
  · rw [lookup_initial] at ht
    cases ht

theorem Aimed.pop {s : Survey w} (hs : Aimed config source s) {p : Pending w}
    (hp : s.pending.back? = some p) : Aimed config source s.pop where
  waiting q hq := hs.waiting q ((mem_pending_iff_of_back? hp).mpr (.inl hq))
  found := hs.found

/-- A new site is a branch target only if it was taken from the stack. -/
theorem branchTarget_notMem_newSite (s : Survey w) (spot : w.Spot) :
    .branchTarget ∉ (newSite config source s spot ∅).node.flags := by
  have hdescribed : Flag.branchTarget ∉ (config.analyze source spot.pc).flags :=
    Analysis.notMem_flags_describe _ _ _ _ (by decide)
  have hpage : Flag.branchTarget ∉ pageFlags config w (config.analyze source spot.pc).pc := by
    unfold pageFlags
    split <;> decide
  rw [flags_newSite, newFlags]
  simp only [Flags.mem_union, hdescribed, hpage, Flags.not_mem_empty, false_or]
  split <;> decide

theorem Aimed.record {s : Survey w} (hs : Aimed config source s) {spot : w.Spot}
    {reached : Flags} (hnew : s.lookup spot = none) (hmarked : Flag.intrablockBranch ∉ reached)
    (hentry : reached = ∅ ∨ IsEntry config source s spot) :
    Aimed config source (record config source s spot reached) := by
  have hmarks (u t : w.Spot) (h : Marks config source s u t) :
      Marks config source (Survey.record config source s spot reached) u t :=
    (marks_record_iff hnew hmarked).mpr (.inl h)
  refine ⟨fun p hp ↦ ?_, fun t site ht hflag ↦ ?_⟩
  · rcases mem_pending_record_iff.mp hp with hold | ⟨t, hpushed, rfl⟩
    · exact (hs.waiting p hold).mono fun u ↦ hmarks u _
    · exact .inr ⟨spot, (marks_record_iff hnew hmarked).mpr (.inr ⟨rfl, hpushed⟩)⟩
  · by_cases htspot : t = spot
    · subst htspot
      rw [lookup_record_self] at ht
      obtain rfl := Option.some.inj ht
      rcases hentry with rfl | hentry
      · exact absurd hflag (branchTarget_notMem_newSite s t)
      · exact hentry.mono fun u ↦ hmarks u _
    · rw [lookup_record_of_ne config source s reached htspot] at ht
      exact (hs.found t site ht hflag).mono fun u ↦ hmarks u _

theorem Aimed.revisit {s : Survey w} (hs : Aimed config source s) {p : Pending w} {site : Site}
    (hold : s.lookup p.target = some site) (hentry : IsEntry config source s p.target) :
    Aimed config source (revisit config s p site) := by
  have hmarks (u t : w.Spot) (h : Marks config source s u t) :
      Marks config source (Survey.revisit config s p site) u t := (marks_revisit_iff hold).mpr h
  refine ⟨fun q hq ↦ (hs.waiting q hq).mono fun u ↦ hmarks u _, fun t found ht hflag ↦ ?_⟩
  by_cases htarget : t = p.target
  · subst htarget
    exact hentry.mono fun u ↦ hmarks u _
  · rw [lookup_revisit_of_ne config s site htarget] at ht
    exact (hs.found t found ht hflag).mono fun u ↦ hmarks u _

theorem aimed_run (config : Config) (source : Source) (w : Window) :
    Aimed config source (run config source w) := by
  refine run_induction aimed_initial ?_ ?_ ?_
  · intro s spot hs _ hl
    exact hs.record hl (Flags.not_mem_empty _) (.inl rfl)
  · intro s p hs _ hp hl
    have hentry : IsEntry config source s.pop p.target :=
      hs.waiting p ((mem_pending_iff_of_back? hp).mpr (.inr rfl))
    exact (hs.pop hp).record (s := s.pop) hl (by decide) (.inr hentry)
  · intro s p site hs _ hp hl
    have hentry : IsEntry config source s.pop p.target :=
      hs.waiting p ((mem_pending_iff_of_back? hp).mpr (.inr rfl))
    exact (hs.pop hp).revisit (s := s.pop) hl hentry

/-- The branch targets of a survey are the start and the targets of the marked branches. -/
theorem branchTarget_mem_iff_of_lookup_run {t : w.Spot} {site : Site}
    (h : (run config source w).lookup t = some site) :
    .branchTarget ∈ site.node.flags ↔ IsEntry config source (run config source w) t := by
  refine ⟨(aimed_run config source w).found t site h, ?_⟩
  rintro (rfl | ⟨u, found, hfound, hmarked, hinner⟩)
  · obtain ⟨first, hfirst, -, hflag⟩ := startFirst_run config source w
    rw [h] at hfirst
    rwa [Option.some.inj hfirst]
  · obtain ⟨t', next, hinner', hnext, hflag⟩ := found_of_intrablockBranch_run hfound hmarked
    rw [hinner] at hinner'
    obtain rfl := Option.some.inj hinner'
    rw [h] at hnext
    rwa [Option.some.inj hnext]

/-! ### Addresses that are apart -/

/-- Two neighbouring addresses of a range cannot be in one sequence: the first instruction ends its
sequence, a marked branch leads to the second one, or the first one is a likely branch with the
second one in its delay slot. -/
def Apart (config : Config) (source : Source) (w : Window) (a b : VirtAddr) : Prop :=
  (config.analyze source a).endsSequence = true ∨
    (∃ u t, Marks config source (run config source w) u t ∧ t.pc = b) ∨
    .likelyBranch ∈ (config.analyze source a).flags ∧ a + 4#64 = b

/-- Assumes: the second site is not the start. -/
theorem joined_eq_false_iff_of_lookup_run {u v : w.Spot} {a b : Site}
    (hu : (run config source w).lookup u = some a) (hv : (run config source w).lookup v = some b)
    (hstart : v ≠ w.startSpot) :
    Sequence.joined a b = false ↔ Apart config source w u.pc v.pc := by
  have ha := describes_of_lookup_run hu
  have hentry : IsEntry config source (run config source w) v ↔
      ∃ u' t, Marks config source (run config source w) u' t ∧ t.pc = v.pc := by
    rw [IsEntry, or_iff_right hstart]
    refine exists_congr fun u' ↦ ⟨fun h ↦ ⟨v, h, rfl⟩, ?_⟩
    rintro ⟨t, h, hpc⟩
    rwa [← Window.Spot.eq_of_pc_eq hpc]
  have hslot : a.node.pc + BitVec.ofNat 64 a.node.length = u.pc + 4#64 := by
    rw [ha.pc_node, ha.length_node]
    rfl
  rw [← Bool.not_eq_true, Sequence.joined_iff, hslot, ha.endsSequence_node,
    ha.mem_flags_iff (by decide), branchTarget_mem_iff_of_lookup_run hv, hentry,
    pc_of_lookup_run hv, Apart]
  rw [not_and_or, not_and_or, Bool.not_eq_false, not_not, Classical.not_imp, not_not]

/-- Which neighbours of a range cannot be in one sequence. Assumes: the list holds sites of the
survey in the order of addresses, and only the first one can be the start. -/
theorem isChain_apart {l : List Site}
    (hmem : ∀ a ∈ l, ∃ spot, (run config source w).lookup spot = some a)
    (hstart : ∀ a ∈ l, ∀ b ∈ l, a.node.pc < b.node.pc → b.node.pc ≠ w.start)
    (hl : l.Pairwise fun a b ↦ a.node.pc < b.node.pc) :
    l.IsChain fun a b ↦
      Sequence.joined a b = false ↔ Apart config source w a.node.pc b.node.pc := by
  refine hl.isChain.imp_of_mem_imp fun a b ha hb hlt ↦ ?_
  obtain ⟨u, hu⟩ := hmem a ha
  obtain ⟨v, hv⟩ := hmem b hb
  have hne : v ≠ w.startSpot := by
    rintro rfl
    exact hstart a ha b hb hlt (pc_of_lookup_run hv)
  rw [pc_of_lookup_run hu, pc_of_lookup_run hv]
  exact joined_eq_false_iff_of_lookup_run hu hv hne

theorem isChain_apart_front (config : Config) (source : Source) (w : Window) :
    (run config source w).front.IsChain fun a b ↦
      Sequence.joined a b = false ↔ Apart config source w a.node.pc b.node.pc := by
  refine isChain_apart (fun a ha ↦ ?_) (fun a ha b _ hlt heq ↦ ?_) (pairwise_front config source w)
  · obtain ⟨spot, hlookup, -⟩ := mem_front_iff.mp ha
    exact ⟨spot, hlookup⟩
  · obtain ⟨spot, hlookup, hle⟩ := mem_front_iff.mp ha
    rw [heq, pc_of_lookup_run hlookup] at hlt
    exact absurd hlt (Nat.not_lt_of_le hle)

theorem isChain_apart_back (config : Config) (source : Source) (w : Window) :
    (run config source w).back.IsChain fun a b ↦
      Sequence.joined a b = false ↔ Apart config source w a.node.pc b.node.pc := by
  refine isChain_apart (fun a ha ↦ ?_) (fun _ _ b hb _ heq ↦ ?_) (pairwise_back config source w)
  · obtain ⟨spot, hlookup, -⟩ := mem_back_iff.mp ha
    exact ⟨spot, hlookup⟩
  · obtain ⟨spot, hlookup, hlt⟩ := mem_back_iff.mp hb
    rw [← pc_of_lookup_run hlookup, heq] at hlt
    exact Nat.lt_irrefl _ hlt

end Survey

end MipsBlocks
