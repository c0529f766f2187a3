import MipsBlocks.Proofs.Survey.Closure

/-!
# What a survey does not see

A survey looks at little of what it describes. It makes nothing of the physical addresses and of the
literal operands, and of the addresses it only sees how they lie in the window and in their pages.
So a survey can be recast (`Recast`): with the code at other addresses (`Placement`), fetched from
elsewhere and with other literals, it takes the same steps (`step_survey`), and so the finished
survey is the recast one (`run_survey`).

The second source must show, in recast form, what the first one shows at the addresses of the sites
that the first survey finds. No other address matters (`run_congr`).
-/

set_option autoImplicit false
set_option relaxedAutoImplicit false

namespace MipsBlocks

/-- A second window in the place of a first one. A survey cannot tell an address from the one it is
moved to. -/
structure Placement (config : Config) (w w' : Window) where
  move : VirtAddr → VirtAddr
  move_add : ∀ pc (d : BitVec 64), move (pc + d) = move pc + d
  injective : Function.Injective move
  start : move w.start = w'.start
  words : w'.words = w.words
  contains_iff : ∀ pc, w'.Contains (move pc) ↔ w.Contains pc
  offset : ∀ pc, w.Contains pc →
    (move pc).toNat - w'.min.toNat = pc.toNat - w.min.toNat
  startsPage : ∀ pc, config.startsPage (move pc) = config.startsPage pc
  page_eq_iff : ∀ a b, config.page (move a) = config.page (move b) ↔ config.page a = config.page b

/-- Every window is in its own place. -/
def Placement.refl (config : Config) (w : Window) : Placement config w w where
  move := id
  move_add := fun _ _ ↦ rfl
  injective := Function.injective_id
  start := rfl
  words := rfl
  contains_iff := fun _ ↦ Iff.rfl
  offset := fun _ _ ↦ rfl
  startsPage := fun _ ↦ rfl
  page_eq_iff := fun _ _ ↦ Iff.rfl

/-- Another form of the analyses of a window: moved, fetched from elsewhere and with other literal
operands. -/
structure Recast (config : Config) (w w' : Window) extends Placement config w w' where
  /-- The new physical address, from the old addresses. -/
  phys : VirtAddr → PhysAddr → PhysAddr := fun _ a ↦ a
  /-- The new literal, from the old physical address and the old literal. -/
  argument : PhysAddr → Option Word → Option Word := fun _ x ↦ x

/-- Nothing is recast. -/
def Recast.refl (config : Config) (w : Window) : Recast config w w where
  toPlacement := .refl config w

namespace Site

/-- The delay slot that a site has whose instruction is `a`. -/
def slotOf (config : Config) (source : Source) (a : Analysis) : Option Analysis :=
  if a.isBranch && 0 < a.delaySlots then
    some (describeSlot config source (a.pc + BitVec.ofNat 64 a.length))
  else none

theorem describe_eq (config : Config) (source : Source) (pc : VirtAddr) (order : Nat) :
    describe config source pc order =
      { node := config.analyze source pc
        slot := slotOf config source (config.analyze source pc)
        order } := rfl

theorem describeSlot_eq (config : Config) (source : Source) (pc : VirtAddr) :
    describeSlot config source pc = (config.analyze source pc).flag {.inDelaySlot} := rfl

/-- A site describes the addresses that the description of its place does. -/
theorem Describes.pcs_eq {config : Config} {source : Source} {pc : VirtAddr} {site : Site}
    (h : Describes config source pc site) (order : Nat) :
    site.pcs = (describe config source pc order).pcs := by
  obtain ⟨flags, -, heq⟩ := h
  rw [heq]
  rfl

end Site

namespace Recast

variable {config : Config} {w w' : Window}

def analysis (r : Recast config w w') (a : Analysis) : Analysis :=
  { a with
    pc := r.move a.pc
    phys := r.phys a.pc a.phys
    argument := r.argument a.phys a.argument
    target := a.target.map r.move }

def site (r : Recast config w w') : Site → Site := Site.map r.analysis

def spot (r : Recast config w w') (s : w.Spot) : w'.Spot where
  pc := r.move s.pc
  inside := (r.contains_iff s.pc).mpr s.inside

def pending (r : Recast config w w') (p : Pending w) : Pending w' where
  source := p.source.map r.move
  target := r.spot p.target

/-- The survey with everything it holds in the other form. -/
def survey (r : Recast config w w') (s : Survey w) : Survey w' where
  cursor := s.cursor.map r.spot
  pending := s.pending.map r.pending
  table := (s.table.map (Option.map r.site)).cast r.words.symm
  trace := s.trace.map r.move

theorem analysis_refl (config : Config) (w : Window) : (refl config w).analysis = id := by
  refine funext fun a ↦ ?_
  rw [analysis, refl, Placement.refl, Option.map_id]
  rfl

/-- The second source shows at the new place of an address, in the new form, what the first one
shows there. -/
def Agrees (r : Recast config w w') (source source' : Source) (pc : VirtAddr) : Prop :=
  config.analyze source' (r.move pc) = r.analysis (config.analyze source pc)

variable (r : Recast config w w')

/-! ### Addresses -/

theorem index_spot (s : w.Spot) : (r.spot s).index.val = s.index.val := by
  show ((r.move s.pc).toNat - w'.min.toNat) / insnWidth = _
  rw [r.offset s.pc s.inside]
  rfl

theorem startSpot : r.spot w.startSpot = w'.startSpot := Window.Spot.eq_of_pc_eq r.start

theorem spot?_move (pc : VirtAddr) : w'.spot? (r.move pc) = (w.spot? pc).map r.spot := by
  by_cases h : w.Contains pc
  · rw [Window.spot?, Window.spot?, dif_pos h, dif_pos ((r.contains_iff pc).mpr h)]
    rfl
  · rw [Window.spot?, Window.spot?, dif_neg h, dif_neg (mt (r.contains_iff pc).mp h)]
    rfl

theorem flag_analysis (a : Analysis) (flags : Flags) :
    r.analysis (a.flag flags) = (r.analysis a).flag flags := rfl

theorem fallthrough_analysis (a : Analysis) :
    (r.analysis a).fallthrough = r.move a.fallthrough :=
  (r.move_add a.pc _).symm

/-! ### Sites -/

/-- Agreement on the delay slot of a branch, if there is one, recasts it. -/
theorem slotOf_analysis {source source' : Source} {a : Analysis}
    (h : ∀ slot ∈ Site.slotOf config source a, r.Agrees source source' slot.pc) :
    Site.slotOf config source' (r.analysis a) = (Site.slotOf config source a).map r.analysis := by
  unfold Site.slotOf at h ⊢
  by_cases howns : (a.isBranch && decide (0 < a.delaySlots)) = true
  · have howns' : ((r.analysis a).isBranch && decide (0 < (r.analysis a).delaySlots)) = true :=
      howns
    rw [if_pos howns] at h ⊢
    rw [if_pos howns', Option.map_some]
    have hagrees := h _ rfl
    rw [Site.pc_describeSlot, Agrees, r.move_add] at hagrees
    have hslot : Site.describeSlot config source' (r.move a.pc + BitVec.ofNat 64 a.length) =
        r.analysis (Site.describeSlot config source (a.pc + BitVec.ofNat 64 a.length)) := by
      rw [Site.describeSlot_eq, Site.describeSlot_eq, hagrees, flag_analysis]
    exact congrArg some hslot
  · have howns' : ¬ ((r.analysis a).isBranch && decide (0 < (r.analysis a).delaySlots)) = true :=
      howns
    rw [if_neg howns, if_neg howns', Option.map_none]

/-- Agreement on the addresses that a site describes recasts the site. -/
theorem describe_move {source source' : Source} {pc : VirtAddr} {order : Nat}
    (h : ∀ a ∈ (Site.describe config source pc order).pcs, r.Agrees source source' a) :
    Site.describe config source' (r.move pc) order =
      r.site (Site.describe config source pc order) := by
  rw [Site.describe_eq] at h
  have hnode : config.analyze source' (r.move pc) = r.analysis (config.analyze source pc) := by
    refine h pc ?_
    rw [Site.pcs, Config.analyze, Analysis.pc_describe]
    exact List.mem_cons_self
  have hslot := r.slotOf_analysis fun slot hslot ↦ h slot.pc
    (List.mem_cons_of_mem _ (List.mem_map_of_mem (Option.mem_toList.mpr hslot)))
  rw [Site.describe_eq, Site.describe_eq, hnode, hslot]
  rfl

end Recast

namespace Survey

variable {config : Config} {w w' : Window} (r : Recast config w w')

/-! ### Tables and targets -/

theorem lookup_survey (s : Survey w) (t : w.Spot) :
    (r.survey s).lookup (r.spot t) = (s.lookup t).map r.site := by
  simp [lookup, Recast.survey, r.index_spot]

theorem finished_survey (s : Survey w) : (r.survey s).finished = s.finished := by
  have hpending : (r.survey s).pending.isEmpty = s.pending.isEmpty := by
    rw [Bool.eq_iff_iff, Array.isEmpty_iff_size_eq_zero, Array.isEmpty_iff_size_eq_zero]
    simp [Recast.survey]
  rw [finished, finished, hpending]
  simp [Recast.survey]

theorem survey_initial : r.survey (initial w) = initial w' := by
  have htable : ((initial w).table.map (Option.map r.site)).cast r.words.symm =
      (initial w').table := by
    refine Vector.ext fun i hi ↦ ?_
    simp [initial]
  have hpending : (initial w).pending.map r.pending = (initial w').pending := by
    simp [initial, Recast.pending, r.startSpot]
  rw [Recast.survey, htable, hpending]
  simp [initial]

theorem survey_pop (s : Survey w) : r.survey s.pop = (r.survey s).pop := by
  simp [pop, Recast.survey]

theorem innerTarget?_analysis (a : Analysis) :
    innerTarget? w' (r.analysis a) = (innerTarget? w a).map r.spot := by
  have hbranch : (r.analysis a).isBranch = a.isBranch := rfl
  have htarget : (r.analysis a).target = a.target.map r.move := rfl
  rw [innerTarget?, innerTarget?, hbranch, htarget]
  split
  · cases a.target with
    | none => rfl
    | some target => exact r.spot?_move target
  · rfl

theorem pushed_analysis (s : Survey w) (a : Analysis) :
    pushed config (r.survey s) (r.analysis a) = (pushed config s a).map r.spot := by
  have hsize : (r.survey s).pending.size = s.pending.size := Array.size_map
  rw [pushed, pushed, hsize, innerTarget?_analysis]
  split <;> rfl

/-- A survey sees of a new address only what the recast one sees of its new place. -/
theorem newFlags_analysis (s : Survey w) (a : Analysis) (reached : Flags) :
    newFlags config (r.survey s) (r.analysis a) reached = newFlags config s a reached := by
  have hstart : r.move a.pc = w'.start ↔ a.pc = w.start := by
    rw [← r.start, r.injective.eq_iff]
  have hpage : pageFlags config w' (r.analysis a).pc = pageFlags config w a.pc := by
    show pageFlags config w' (r.move a.pc) = _
    simp only [pageFlags, hstart, r.startsPage]
  rw [newFlags, newFlags, hpage, pushed_analysis, Option.isSome_map]

theorem revisitFlags_pending (p : Pending w) :
    revisitFlags config (r.pending p) = revisitFlags config p := by
  have hcrosses : (r.pending p).source.any (fun source ↦
        config.page source != config.page (r.pending p).target.pc) =
      p.source.any fun source ↦ config.page source != config.page p.target.pc := by
    cases hsource : p.source with
    | none => simp [Recast.pending, hsource]
    | some source =>
      simp only [Recast.pending, hsource, Option.map_some, Option.any_some]
      rw [Bool.eq_iff_iff, bne_iff_ne, bne_iff_ne]
      exact not_congr (r.page_eq_iff source p.target.pc)
  rw [revisitFlags, revisitFlags, hcrosses]

/-! ### Steps -/

theorem eq_of_fields {s t : Survey w} (hcursor : s.cursor = t.cursor)
    (hpending : s.pending = t.pending) (htable : s.table = t.table) (htrace : s.trace = t.trace) :
    s = t := by
  obtain ⟨_, _, _, _⟩ := s
  obtain ⟨_, _, _, _⟩ := t
  simp_all

/-- Filling an entry of a table and recasting the table can be done in either order. -/
theorem cast_map_set {α β : Type} {n m : Nat} (h : n = m) (f : α → β) (xs : Vector α n) {i : Fin n}
    {j : Fin m} (hij : j.val = i.val) (x : α) :
    ((xs.set i x i.isLt).map f).cast h = ((xs.map f).cast h).set j (f x) j.isLt := by
  subst h
  obtain rfl : j = i := Fin.ext hij
  rw [Vector.map_set]
  rfl

theorem following_survey (s : Survey w) (a : Analysis) :
    following (r.survey s).table (r.analysis a) = (following s.table a).map r.spot := by
  have hends : (r.analysis a).endsSequence = a.endsSequence := rfl
  rw [following, following, hends, r.fallthrough_analysis, r.spot?_move]
  split
  · rfl
  · cases w.spot? a.fallthrough with
    | none => rfl
    | some t =>
      have hnone : ((r.survey s).lookup (r.spot t)).isNone = (s.lookup t).isNone := by
        rw [lookup_survey, Option.isNone_map]
      have hnone' : (r.survey s).table[(r.spot t).index].isNone = s.table[t.index].isNone := hnone
      simp only [Option.map_some, Option.filter_some, hnone']
      split <;> rfl

theorem pcs_site (site : Site) : (r.site site).pcs = site.pcs.map r.move := by
  cases h : site.slot <;> simp [Recast.site, Site.map, Site.pcs, h, Recast.analysis]

section Record

variable {r} {source source' : Source} {s : Survey w} {t : w.Spot} {reached : Flags}
  (h : ∀ a ∈ (Site.describe config source t.pc s.trace.size).pcs, r.Agrees source source' a)

include h

theorem describe_survey : Site.describe config source' (r.spot t).pc (r.survey s).trace.size =
    r.site (Site.describe config source t.pc s.trace.size) := by
  have hsize : (r.survey s).trace.size = s.trace.size := Array.size_map
  rw [hsize]
  exact r.describe_move h

theorem newSite_survey : newSite config source' (r.survey s) (r.spot t) reached =
    r.site (newSite config source s t reached) := by
  rw [newSite, newSite, describe_survey h]
  exact congrArg (Site.flag _) (newFlags_analysis r s (config.analyze source t.pc) reached)

theorem table_record_survey : (record config source' (r.survey s) (r.spot t) reached).table =
    (r.survey (record config source s t reached)).table := by
  rw [table_record, newSite_survey h]
  exact (cast_map_set r.words.symm (Option.map r.site) s.table (r.index_spot t)
    (some (newSite config source s t reached))).symm

theorem pending_record_survey : (record config source' (r.survey s) (r.spot t) reached).pending =
    (record config source s t reached).pending.map r.pending := by
  have hpushed := pushed_analysis r s (Site.describe config source t.pc s.trace.size).node
  rw [pending_record, pending_record, describe_survey h]
  cases htarget : pushed config s (Site.describe config source t.pc s.trace.size).node with
  | none =>
    rw [htarget] at hpushed
    simp only [Recast.site, Site.map, hpushed, Option.map_none]
    rfl
  | some target =>
    rw [htarget] at hpushed
    simp only [Recast.site, Site.map, hpushed, Option.map_some, Array.map_push]
    rfl

/-- A step that describes a site describes the recast site in the recast survey. -/
theorem record_survey : record config source' (r.survey s) (r.spot t) reached =
    r.survey (record config source s t reached) := by
  have htable : (record config source' (r.survey s) (r.spot t) reached).table =
      (r.survey (record config source s t reached)).table := table_record_survey h
  refine eq_of_fields ?_ (pending_record_survey h) htable ?_
  · rw [cursor_record, htable, newSite_survey h]
    exact following_survey r _ _
  · have hold : (r.survey s).trace = s.trace.map r.move := rfl
    have hnew : (r.survey (record config source s t reached)).trace =
        (record config source s t reached).trace.map r.move := rfl
    rw [hnew, trace_record, trace_record, describe_survey h, pcs_site, hold]
    refine Array.toList_inj.mp ?_
    simp

end Record

/-- A step that visits a site again visits the recast site again in the recast survey. -/
theorem revisit_survey (s : Survey w) (p : Pending w) (site : Site) :
    revisit config (r.survey s) (r.pending p) (r.site site) =
      r.survey (revisit config s p site) := by
  refine eq_of_fields rfl rfl ?_ rfl
  rw [table_revisit, revisitFlags_pending]
  exact (cast_map_set r.words.symm (Option.map r.site) s.table (r.index_spot p.target)
    (some (site.flag (revisitFlags config p)))).symm

/-- The recast survey takes the same step. Assumes: the two sources agree on the addresses of the
places where the first survey has a site after the step. -/
theorem step_survey {source source' : Source} {s : Survey w}
    (h : ∀ t, (step config source s).lookup t ≠ none →
      ∀ a ∈ (Site.describe config source t.pc 0).pcs, r.Agrees source source' a) :
    step config source' (r.survey s) = r.survey (step config source s) := by
  cases hcursor : s.cursor with
  | some t =>
    have hcursor' : (r.survey s).cursor = some (r.spot t) := congrArg (Option.map r.spot) hcursor
    rw [step_of_cursor config source hcursor] at h ⊢
    rw [step_of_cursor config source' hcursor']
    exact record_survey (h t (lookup_record_ne_none (.inr rfl)))
  | none =>
    have hcursor' : (r.survey s).cursor = none := congrArg (Option.map r.spot) hcursor
    have hback : (r.survey s).pending.back? = s.pending.back?.map r.pending := Array.back?_map
    cases hpending : s.pending.back? with
    | none =>
      rw [hpending] at hback
      rw [step_of_finished config source hcursor hpending,
        step_of_finished config source' hcursor' hback]
    | some p =>
      rw [hpending] at hback
      have hlookup := lookup_survey r s p.target
      cases hsite : s.lookup p.target with
      | some site =>
        rw [hsite] at hlookup
        rw [step_of_known config source hcursor hpending hsite,
          step_of_known config source' hcursor' hback hlookup, ← survey_pop]
        exact revisit_survey r s.pop p site
      | none =>
        rw [hsite] at hlookup
        rw [step_of_new config source hcursor hpending hsite] at h ⊢
        rw [step_of_new config source' hcursor' hback hlookup, ← survey_pop]
        exact record_survey (s := s.pop) (h p.target (lookup_record_ne_none (.inr rfl)))

/-! ### Runs -/

theorem advance_survey {source source' : Source} (fuel : Nat) {s : Survey w}
    (h : ∀ t, (advance config source fuel s).lookup t ≠ none →
      ∀ a ∈ (Site.describe config source t.pc 0).pcs, r.Agrees source source' a) :
    advance config source' fuel (r.survey s) = r.survey (advance config source fuel s) := by
  induction fuel generalizing s with
  | zero => rfl
  | succ fuel ih =>
    rw [advance] at h
    rw [advance, advance, finished_survey]
    split
    · rfl
    · rename_i hfinished
      rw [if_neg hfinished] at h
      rw [step_survey r fun t ht ↦ h t (lookup_advance_ne_none fuel ht)]
      exact ih h

/-- The finished survey of the recast code is the recast survey. Assumes: the two sources agree on
the addresses of the sites that the first survey finds. -/
theorem run_survey {source source' : Source}
    (h : ∀ t site, (run config source w).lookup t = some site →
      ∀ a ∈ site.pcs, r.Agrees source source' a) :
    run config source' w' = r.survey (run config source w) := by
  have hbudget : budget w' = budget w := by rw [budget, budget, r.words]
  rw [run, run, hbudget, ← survey_initial r]
  refine advance_survey r (budget w) fun t ht a ha ↦ ?_
  obtain ⟨site, hsite⟩ := Option.ne_none_iff_exists'.mp ht
  have hdescribes : Site.Describes config source t.pc site := describes_of_lookup_run hsite
  rw [← hdescribes.pcs_eq] at ha
  exact h t site hsite a ha

/-! ### Nothing recast -/

theorem survey_refl (config : Config) (s : Survey w) : (Recast.refl config w).survey s = s := by
  have hspot : (Recast.refl config w).spot = id := rfl
  have hsite : (Recast.refl config w).site = id := by
    refine funext fun site ↦ ?_
    rw [Recast.site, Recast.analysis_refl, Site.map, Option.map_id]
    rfl
  have hpending : (Recast.refl config w).pending = id := by
    refine funext fun p ↦ ?_
    rw [Recast.pending, hspot, Recast.refl, Placement.refl, Option.map_id]
    rfl
  refine eq_of_fields ?_ ?_ ?_ ?_
  · rw [Recast.survey, hspot, Option.map_id]
    rfl
  · rw [Recast.survey, hpending, Array.map_id]
  · rw [Recast.survey, hsite, Option.map_id, Vector.map_id, Vector.cast_rfl]
  · rw [Recast.survey, Recast.refl, Placement.refl, Array.map_id]

/-- A survey depends on no address but those of the sites that it finds. -/
theorem run_congr {source source' : Source}
    (h : ∀ t site, (run config source w).lookup t = some site →
      ∀ a ∈ site.pcs, config.analyze source' a = config.analyze source a) :
    run config source' w = run config source w := by
  rw [run_survey (.refl config w) fun t site hsite a ha ↦ ?_, survey_refl]
  rw [Recast.Agrees, Recast.analysis_refl]
  exact h t site hsite a ha

end Survey

end MipsBlocks
