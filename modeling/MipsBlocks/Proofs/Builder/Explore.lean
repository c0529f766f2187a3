import MipsBlocks.Proofs.Builder.Describe

/-!
# Exploring in place

The explorer takes the steps of the survey. Its cursor and its stack have the addresses of those of
the survey; its table has the handles of the sites that the survey found, and its pool holds these
sites (`Explorer.Represents`). A step of the explorer has a result that represents the next state of
the survey (`exists_step_eq`), hence so has the whole exploration (`exists_explore_eq`). The loop
comes to an end because the survey does.

Every index is that of an address in the window: an address is only looked up after it was found to
be inside, and the targets that wait were.

Assumes: the configuration is valid, the slots in use are accounted for, and there is room for what
the survey describes.
-/

set_option autoImplicit false
set_option relaxedAutoImplicit false

namespace MipsBlocks

namespace Builder

variable {config : Config} {source : Source} {w : Window} {p₀ : Pool} {used : List Handle}

/-! ### The table -/

/-- The table has an entry for every word, with the handle of the site that the survey found
there. -/
structure Tabulates (p₀ : Pool) (t : Table) (s : Survey w) : Prop where
  size : t.size = w.words
  entry : ∀ spot : w.Spot, t[spot.index.val]? =
    some ((s.lookup spot).bind fun site ↦ (p₀.handlesFor s.trace)[site.order]?)

/-- The pool holds the sites that the survey found, not linked yet. -/
structure Stores (p₀ : Pool) (p : Pool) (s : Survey w) : Prop where
  acquired : p₀.Acquired s.trace p
  cells : ∀ spot site, s.lookup spot = some site →
    ∃ h, p.Cell (p₀.handlesFor s.trace) h site none

theorem Tabulates.lookup_eq {t : Table} {s : Survey w} (ht : Tabulates p₀ t s) (config : Config)
    (source : Source) (spot : w.Spot) :
    lookup (.ofWindow config source w) t spot.pc =
      .ok ((s.lookup spot).bind fun site ↦ (p₀.handlesFor s.trace)[site.order]?) := by
  rw [lookup, index_eq, Checked.ok_bind, entry_eq (ht.entry spot)]

/-- There is a handle exactly where there is a site. -/
theorem Stores.isSome_handle {p : Pool} {s : Survey w} (hs : Stores p₀ p s) (spot : w.Spot) :
    ((s.lookup spot).bind fun site ↦ (p₀.handlesFor s.trace)[site.order]?).isSome =
      (s.lookup spot).isSome := by
  cases hsite : s.lookup spot with
  | none => rfl
  | some site =>
    obtain ⟨h, hcell⟩ := hs.cells spot site hsite
    rw [Option.bind_some, hcell.handle]
    rfl

/-! ### What the survey decides at one address -/

theorem innerTarget_eq (a : Analysis) :
    innerTarget (.ofWindow config source w) a =
      .ok ((Survey.innerTarget? w a).map Window.Spot.pc) := by
  rw [innerTarget, Survey.innerTarget?]
  split
  · cases a.target with
    | none => rfl
    | some target =>
      dsimp only
      rw [contains_eq, Checked.ok_bind, Option.bind_some, Window.spot?]
      by_cases hinside : w.Contains target <;> simp [hinside]
  · rfl

theorem following_eq {t : Table} {p : Pool} {s : Survey w} (ht : Tabulates p₀ t s)
    (hs : Stores p₀ p s) {a : Analysis} (hlength : a.length = insnWidth)
    (hskip : a.skipSlots ≤ 1) :
    following (.ofWindow config source w) t a =
      .ok ((Survey.following s.table a).map Window.Spot.pc) := by
  rw [following, Survey.following]
  split
  · rfl
  · rw [fallthrough_eq hlength hskip, Checked.ok_bind, contains_eq, Checked.ok_bind, Window.spot?]
    by_cases hinside : w.Contains a.fallthrough
    · rw [dif_pos hinside, if_pos (decide_eq_true hinside)]
      have hlookup := ht.lookup_eq config source ⟨a.fallthrough, hinside⟩
      have hsome := hs.isSome_handle ⟨a.fallthrough, hinside⟩
      change lookup _ _ a.fallthrough = _ at hlookup
      rw [hlookup, Checked.ok_bind, Checked.pure_eq, hsome, Option.filter_some, Survey.lookup]
      cases s.table[(⟨a.fallthrough, hinside⟩ : w.Spot).index] <;> rfl
    · rw [dif_neg hinside, if_neg (by simpa using hinside)]
      rfl

theorem pageFlags_eq (valid : config.Valid) (pc : VirtAddr) :
    pageFlags (.ofWindow config source w) ((1#64 <<< config.pageShift) - 1#64) pc =
      Survey.pageFlags config w pc := by
  have hpage : decide (pc.select ((1#64 <<< config.pageShift) - 1#64) = 0#64) =
      config.startsPage pc := by
    rw [Bool.eq_iff_iff, decide_eq_true_eq, select_pageMask_iff valid]
  rw [pageFlags, hpage]
  rfl

/-! ### A new site -/

section Record

variable {t : Table} {p q : Pool} {s : Survey w} {spot : w.Spot} {reached : Flags} {h : Handle}

/-- The explorer is where the survey is. -/
structure Explorer.Represents (p₀ : Pool) (e : Explorer) (s : Survey w) : Prop where
  cursor : e.cursor = s.cursor.map Window.Spot.pc
  pending : e.pending = s.pending.map fun p ↦ (p.source, p.target.pc)
  tabulates : Tabulates p₀ e.table s
  stores : Stores p₀ e.pool s

theorem tabulates_record (ht : Tabulates p₀ t s) (hs : Stores p₀ p s)
    (hh : (p₀.handlesFor (Survey.record config source s spot reached).trace)[s.trace.size]? =
      some h) :
    Tabulates p₀ (t.set spot.index (some h) (by rw [ht.size]; exact spot.index.isLt))
      (Survey.record config source s spot reached) := by
  refine ⟨by rw [Array.size_set, ht.size], fun other ↦ ?_⟩
  by_cases hother : other = spot
  · subst hother
    rw [Array.getElem?_set_self, Survey.lookup_record_self, Option.bind_some]
    exact congrArg some hh.symm
  · have hindex : spot.index.val ≠ other.index.val := fun heq ↦
      hother (Window.Spot.eq_of_index_eq (Fin.ext heq.symm))
    rw [Array.getElem?_set_ne _ hindex, ht.entry,
      Survey.lookup_record_of_ne config source s reached hother]
    cases hsite : s.lookup other with
    | none => rfl
    | some site =>
      obtain ⟨k, hcell⟩ := hs.cells other site hsite
      rw [Option.bind_some, Option.bind_some, hcell.handle, Survey.trace_record,
        p₀.getElem?_handlesFor_append _ _ hcell.handle]

/-- A site that is described in place, and given its flags there, is one more site in the pool. -/
theorem stores_record (config : Config) (source : Source) (reached : Flags)
    (hp₀ : p₀.Accounts used) (hs : Stores p₀ p s)
    (hq : p₀.Acquired (Survey.record config source s spot reached).trace q)
    (hcell : q.Cell (p₀.handlesFor (Survey.record config source s spot reached).trace) h
      (Site.describe config source spot.pc s.trace.size) none)
    (hothers : ∀ k ∈ (p₀.handlesFor s.trace).toList, q.get? k = p.get? k) :
    let flags := Survey.newFlags config s (config.analyze source spot.pc) reached
    Stores p₀ (q.modify h fun d ↦ { d with toAnalysis := d.toAnalysis.flag flags })
      (Survey.record config source s spot reached) := by
  intro flags
  have hnodup := Pool.nodup_handlesFor hp₀ (Survey.record config source s spot reached).trace
  have hrevises := Pool.revises_modify_node (p := q) hnodup hcell.handle
    (Analysis.flag · (Survey.newFlags config s (config.analyze source spot.pc) reached))
  refine ⟨hq.revises hrevises, fun other site hsite ↦ ?_⟩
  by_cases hother : other = spot
  · subst hother
    rw [Survey.lookup_record_self] at hsite
    obtain rfl := Option.some.inj hsite
    exact ⟨h, (List.forall₂_cons.mp hrevises.cells).1.2 h none hcell⟩
  · rw [Survey.lookup_record_of_ne config source s reached hother] at hsite
    obtain ⟨k, hold⟩ := hs.cells other site hsite
    have hkeep (i : Nat) (j : Handle) (hj : (p₀.handlesFor s.trace)[i]? = some j) :
        (p₀.handlesFor (Survey.record config source s spot reached).trace)[i]? = some j :=
      p₀.getElem?_handlesFor_append s.trace _ hj
    refine ⟨k, (hold.congr fun i _ j hj ↦ ?_).mono hkeep⟩
    have hne : j ≠ h := by
      rintro rfl
      have hlt := (Array.getElem?_eq_some_iff.mp hj).1
      rw [p₀.size_handlesFor, eq_of_getElem?_eq_some hnodup (hkeep i j hj) hcell.handle] at hlt
      exact absurd hlt (Nat.lt_irrefl _)
    rw [Pool.get?_modify_of_ne hne,
      hothers j (Array.mem_toList_iff.mpr (Array.mem_of_getElem? hj))]

/-- Changing a descriptor in two ways with the same result. -/
theorem modify_congr {d : Descriptor} {f g : Descriptor → Descriptor} (hd : p.get? h = some d)
    (hfg : f d = g d) : p.modify h f = p.modify h g := by
  refine Pool.eq_of_get? rfl fun k ↦ ?_
  by_cases hk : k = h
  · subst hk
    rw [Pool.get?_modify_self hd, Pool.get?_modify_self hd, hfg]
  · rw [Pool.get?_modify_of_ne hk, Pool.get?_modify_of_ne hk]

theorem pushed_fault (s : Survey w) (pc : VirtAddr) :
    Survey.pushed config s (.fault pc) = none := by
  rw [Survey.pushed, Survey.innerTarget?, Analysis.isBranch_fault, if_neg Bool.false_ne_true,
    ite_self]

/-- What cannot be fetched has the flags of an entered page anyway. -/
theorem flag_newFlags_fault (s : Survey w) (pc : VirtAddr)
    (hreached : reached = ∅ ∨ reached = {.branchTarget}) :
    (Analysis.fault pc).flag (Survey.newFlags config s (.fault pc) reached) =
      (Analysis.fault pc).flag reached := by
  have hpage : Survey.pageFlags config w pc = ∅ ∨
      Survey.pageFlags config w pc = Survey.entryFlags := by
    unfold Survey.pageFlags
    split
    · exact .inr rfl
    · exact .inl rfl
  have hflags : Analysis.faultFlags ∪ (reached ∪ Survey.pageFlags config w pc ∪ ∅) =
      Analysis.faultFlags ∪ reached := by
    rcases hreached with rfl | rfl <;> rcases hpage with hpage | hpage <;> rw [hpage] <;> decide
  rw [Survey.newFlags, pushed_fault, Option.isSome_none, if_neg Bool.false_ne_true]
  exact congrArg (fun flags ↦ { Analysis.fault pc with flags }) hflags

theorem cursor_record_eq (hreached : reached = ∅ ∨ reached = {.branchTarget}) :
    (Survey.record config source s spot reached).cursor =
      Survey.following (Survey.record config source s spot reached).table
        (config.analyze source spot.pc) := by
  have hsubset : reached ⊆ Flags.ofSurvey := by rcases hreached with rfl | rfl <;> decide
  rw [Survey.cursor_record, Survey.following, Survey.following,
    Survey.endsSequence_newSite s spot reached hsubset, Survey.fallthrough_newSite]

/-- The stack after a new site, seen by its addresses. -/
theorem map_pending_record (config : Config) (source : Source) (s : Survey w) (spot : w.Spot)
    (reached : Flags) :
    (Survey.record config source s spot reached).pending.map (fun p ↦ (p.source, p.target.pc)) =
      match (Survey.pushed config s (config.analyze source spot.pc)).map Window.Spot.pc with
      | some target => (s.pending.map fun p ↦ (p.source, p.target.pc)).push (some spot.pc, target)
      | none => s.pending.map fun p ↦ (p.source, p.target.pc) := by
  rw [Survey.pending_record, Site.node_describe]
  cases Survey.pushed config s (config.analyze source spot.pc) with
  | none => rfl
  | some target =>
    rw [Option.map_some]
    dsimp only
    rw [Array.map_push]

/-- A target is put on the stack in the same cases. -/
theorem pushed_eq {e : Explorer}
    (hpending : e.pending = s.pending.map fun p ↦ (p.source, p.target.pc)) (a : Analysis) :
    (if e.pending.size < (Request.ofWindow config source w).config.maxStackDepth then
        (Survey.innerTarget? w a).map Window.Spot.pc else none) =
      (Survey.pushed config s a).map Window.Spot.pc := by
  rw [hpending, Array.size_map]
  change (if s.pending.size < config.maxStackDepth then _ else _) = _
  rw [Survey.pushed]
  split <;> rfl

/-- Visiting a new place records it. -/
theorem exists_visit_eq (valid : config.Valid) (hp₀ : p₀.Accounts used) {e : Explorer}
    (hpending : e.pending = s.pending.map fun p ↦ (p.source, p.target.pc))
    (ht : Tabulates p₀ e.table s) (hs : Stores p₀ e.pool s)
    (hreached : reached = ∅ ∨ reached = {.branchTarget})
    (hroom : (Survey.record config source s spot reached).trace.size + used.length ≤ slotLimit) :
    ∃ h e', visit (.ofWindow config source w) e spot.pc reached = .ok (h, e') ∧
      e'.Represents p₀ (Survey.record config source s spot reached) ∧
      (p₀.handlesFor (Survey.record config source s spot reached).trace)[s.trace.size]? =
        some h := by
  obtain ⟨h, q, hdescribe, hq, hcell, hothers⟩ := describeSite_eq
    (.ofWindow config source w) spot.pc hp₀ hs.acquired rfl hroom
  have hh : (p₀.handlesFor (Survey.record config source s spot reached).trace)[s.trace.size]? =
      some h := hcell.handle
  have htable := tabulates_record ht hs hh
  obtain ⟨d, hget, hnode⟩ : ∃ d : Descriptor, q.get? h = some d ∧
      d.toAnalysis = config.analyze source spot.pc := ⟨_, hcell.get, rfl⟩
  have hindex : spot.index.val < e.table.size := by
    rw [ht.size]
    exact spot.index.isLt
  have hstores := stores_record config source reached hp₀ hs hq hcell hothers
  have hpushed := map_pending_record config source s spot reached
  rw [← hpending] at hpushed
  rw [visit]
  change ∃ h e', (pageMask config >>= _) = _ ∧ _
  rw [pageMask_eq valid, Checked.ok_bind, hdescribe, Checked.ok_bind]
  dsimp only
  rw [index_eq, Checked.ok_bind, setEntry_eq hindex, Checked.ok_bind, read_eq hget,
    Checked.ok_bind, pageFlags_eq valid, hnode]
  -- a fault has no successors, so it is written without looking for any
  by_cases hfault : (config.analyze source spot.pc).isFault = true
  · have hnone : config.analyze source spot.pc = .fault spot.pc :=
      Config.analyze_of_translate_eq_none ((Analysis.isFault_describe_iff _ _ _ _).mp hfault)
    rw [if_pos hfault, write_eq hget, Checked.ok_bind]
    refine ⟨h, _, rfl, ⟨?_, ?_, htable, ?_⟩, hh⟩
    · rw [cursor_record_eq hreached, hnone, Survey.following, Analysis.endsSequence_fault]
      rfl
    · rw [hpushed, hnone, pushed_fault]
      rfl
    · rw [modify_congr hget]
      · exact hstores
      · rw [hnode, hnone, flag_newFlags_fault s spot.pc hreached]
  · have hlength : (config.analyze source spot.pc).length = insnWidth :=
      Analysis.length_describe ..
    have hskip : (config.analyze source spot.pc).skipSlots ≤ 1 :=
      Analysis.skipSlots_describe_le ..
    rw [if_neg hfault, innerTarget_eq, Checked.ok_bind, pushed_eq hpending, Option.isSome_map,
      write_eq hget, Checked.ok_bind, following_eq htable hstores hlength hskip, Checked.ok_bind]
    refine ⟨h, _, rfl, ⟨?_, hpushed.symm, htable, ?_⟩, hh⟩
    · rw [cursor_record_eq hreached]
    · have hpc : (config.analyze source spot.pc).pc = spot.pc := Analysis.pc_describe ..
      rw [Survey.newFlags, hpc] at hstores
      exact hstores

end Record

/-! ### A site again -/

/-- Coming back to a site gives it its flags in place. -/
theorem exists_revisit_eq (valid : config.Valid) (hp₀ : p₀.Accounts used) {e : Explorer}
    {s : Survey w} (he : e.Represents p₀ s) (hnumbered : s.Numbered) {p : Pending w} {site : Site}
    (hsite : s.lookup p.target = some site) {h : Handle}
    (hh : (p₀.handlesFor s.trace)[site.order]? = some h) :
    ∃ e', revisit (.ofWindow config source w) e h p.source p.target.pc = .ok e' ∧
      e'.Represents p₀ (Survey.revisit config s p site) := by
  have hnodup := Pool.nodup_handlesFor hp₀ s.trace
  obtain ⟨k, hcell⟩ := he.stores.cells p.target site hsite
  obtain rfl : h = k := Option.some.inj (hh.symm.trans hcell.handle)
  have hrevises := Pool.revises_modify_node (p := e.pool) hnodup hh
    (Analysis.flag · (Survey.revisitFlags config p))
  have hrevisit : revisit (.ofWindow config source w) e h p.source p.target.pc =
      .ok { e with pool := e.pool.modify h fun d ↦
        { d with toAnalysis := d.toAnalysis.flag (Survey.revisitFlags config p) } } := by
    rw [revisit]
    change (crossesPage config _ _ >>= _) = _
    rw [crossesPage_eq valid, Checked.ok_bind]
    change (write e.pool h _ >>= _) = _
    rw [write_eq hcell.get, Checked.ok_bind]
    rfl
  refine ⟨_, hrevisit, he.cursor, he.pending, ⟨he.tabulates.size, fun other ↦ ?_⟩,
    he.stores.acquired.revises hrevises, fun other found hfound ↦ ?_⟩
  · rw [he.tabulates.entry]
    by_cases hother : other = p.target
    · subst hother
      rw [Survey.lookup_revisit_self, hsite]
      rfl
    · rw [Survey.lookup_revisit_of_ne config s site hother]
      rfl
  · by_cases hother : other = p.target
    · subst hother
      rw [Survey.lookup_revisit_self] at hfound
      obtain rfl := Option.some.inj hfound
      exact ⟨h, (List.forall₂_cons.mp hrevises.cells).1.2 h none hcell⟩
    · rw [Survey.lookup_revisit_of_ne config s site hother] at hfound
      obtain ⟨k, hfoundCell⟩ := he.stores.cells other found hfound
      refine ⟨k, hrevises.cell hnodup ?_ hfoundCell⟩
      rw [List.flatMap_singleton]
      exact hnumbered.disjoint hfound hsite hother

/-! ### Steps -/

theorem Explorer.Represents.pop {e : Explorer} {s : Survey w} (he : e.Represents p₀ s) :
    ({ e with pending := e.pending.pop } : Explorer).Represents p₀ s.pop where
  cursor := he.cursor
  pending := by
    rw [he.pending, Survey.pop]
    exact (Array.map_pop ..).symm
  tabulates := ⟨he.tabulates.size, he.tabulates.entry⟩
  stores := ⟨he.stores.acquired, he.stores.cells⟩

/-- A step of the explorer is a step of the survey. -/
theorem exists_step_eq (valid : config.Valid) (hp₀ : p₀.Accounts used) {e : Explorer}
    {s : Survey w} (hs : Survey.Reached config source s) (he : e.Represents p₀ s)
    (hroom : (Survey.step config source s).trace.size + used.length ≤ slotLimit) :
    ∃ e', step (.ofWindow config source w) e = .ok e' ∧
      e'.Represents p₀ (Survey.step config source s) := by
  have hpop := he.pop
  obtain ⟨pool, table, pending, cursor⟩ := e
  obtain rfl : cursor = s.cursor.map Window.Spot.pc := he.cursor
  obtain rfl : pending = s.pending.map fun p ↦ (p.source, p.target.pc) := he.pending
  rw [step]
  dsimp only at hpop ⊢
  cases hcursor : s.cursor with
  | some spot =>
    rw [Survey.step_of_cursor config source hcursor] at hroom ⊢
    obtain ⟨h, e', hvisit, he', -⟩ := exists_visit_eq valid hp₀ he.pending he.tabulates he.stores
      (.inl rfl) hroom
    refine ⟨e', ?_, he'⟩
    rw [hcursor] at hvisit
    dsimp only [Option.map_some] at hvisit ⊢
    rw [hvisit]
    rfl
  | none =>
    rw [hcursor] at hpop
    dsimp only [Option.map_none] at hpop ⊢
    rw [Array.back?_map]
    cases hback : s.pending.back? with
    | none =>
      rw [Survey.step_of_finished config source hcursor hback]
      rw [hcursor] at he
      exact ⟨_, rfl, he⟩
    | some p =>
      dsimp only [Option.map_some]
      rw [he.tabulates.lookup_eq, Checked.ok_bind]
      cases hlookup : s.lookup p.target with
      | some site =>
        obtain ⟨h, hcell⟩ := he.stores.cells p.target site hlookup
        rw [Survey.step_of_known config source hcursor hback hlookup, Option.bind_some,
          hcell.handle]
        exact exists_revisit_eq valid hp₀ hpop hs.numbered hlookup hcell.handle
      | none =>
        rw [Survey.step_of_new config source hcursor hback hlookup] at hroom ⊢
        obtain ⟨h, e', hvisit, he', -⟩ := exists_visit_eq valid hp₀ hpop.pending hpop.tabulates
          hpop.stores (.inr rfl) hroom
        refine ⟨e', ?_, he'⟩
        rw [Option.bind_none]
        dsimp only
        rw [hvisit]
        rfl

theorem Explorer.Represents.finished_eq {e : Explorer} {s : Survey w}
    (he : e.Represents p₀ s) : (e.cursor.isNone && e.pending.isEmpty) = s.finished := by
  rw [he.cursor, he.pending, Option.isNone_map, Survey.finished, Array.isEmpty, Array.isEmpty,
    Array.size_map]

/-! ### The whole exploration -/

theorem exists_advance_eq (valid : config.Valid) (hp₀ : p₀.Accounts used) {fuel : Nat}
    {e : Explorer} {s : Survey w} (hs : Survey.Reached config source s) (he : e.Represents p₀ s)
    (hfinished : (Survey.advance config source fuel s).finished = true)
    (hroom : (Survey.run config source w).trace.size + used.length ≤ slotLimit) :
    ∃ e', advance (.ofWindow config source w) fuel e = .ok e' ∧
      e'.Represents p₀ (Survey.advance config source fuel s) := by
  induction fuel generalizing e s with
  | zero =>
    have hrest : (e.cursor.isNone && e.pending.isEmpty) = true := he.finished_eq.trans hfinished
    exact ⟨e, by rw [advance, if_pos hrest, Checked.pure_eq], he⟩
  | succ fuel ih =>
    rw [Survey.advance] at hfinished ⊢
    rw [advance, he.finished_eq]
    by_cases hrest : s.finished = true
    · rw [if_pos hrest, if_pos hrest]
      exact ⟨e, rfl, he⟩
    · rw [if_neg hrest] at hfinished
      rw [if_neg hrest, if_neg hrest]
      -- the room is that of the whole run, and a step takes no more than is left of it
      have hle := hs.step.trace_size_le
      obtain ⟨e', hstep, he'⟩ := exists_step_eq valid hp₀ hs he (by omega)
      rw [hstep, Checked.ok_bind]
      exact ih hs.step he' hfinished

/-- A survey that goes on changes no handle. -/
theorem getElem?_handlesFor_step (p₀ : Pool) {s : Survey w} (hs : Survey.Reached config source s)
    {i : Nat} {h : Handle} (hi : (p₀.handlesFor s.trace)[i]? = some h) :
    (p₀.handlesFor (Survey.step config source s).trace)[i]? = some h :=
  Survey.step_cases (motive := fun t ↦ (p₀.handlesFor t.trace)[i]? = some h) hs.cursorFresh
    (fun _ ↦ hi) (fun _ _ _ ↦ p₀.getElem?_handlesFor_append _ _ hi)
    (fun _ _ _ _ ↦ p₀.getElem?_handlesFor_append _ _ hi) fun _ _ _ _ _ ↦ hi

theorem represents_initial (p₀ : Pool) (w : Window) :
    ({ pool := p₀, table := Array.replicate w.words none } : Explorer).Represents p₀
      (Survey.initial w).pop := by
  refine ⟨rfl, by simp [Survey.initial, Survey.pop], ⟨Array.size_replicate, fun spot ↦ ?_⟩,
    p₀.acquired_self, fun spot site hsite ↦ ?_⟩
  · change _ = some (((Survey.initial w).lookup spot).bind _)
    rw [Survey.lookup_initial, Option.bind_none]
    exact Array.getElem?_replicate.trans (if_pos spot.index.isLt)
  · change (Survey.initial w).lookup spot = _ at hsite
    rw [Survey.lookup_initial] at hsite
    cases hsite

/-- The explorer finds in place what the survey finds, the start under the first handle. -/
theorem exists_explore_eq (valid : config.Valid) (hp₀ : p₀.Accounts used)
    (hroom : (Survey.run config source w).trace.size + used.length ≤ slotLimit) :
    ∃ h e, explore (.ofWindow config source w) p₀ = .ok (h, e) ∧
      e.Represents p₀ (Survey.run config source w) ∧
      (p₀.handlesFor (Survey.run config source w).trace)[0]? = some h := by
  have hinitial : Survey.Reached config source (Survey.initial w) := .initial
  have hle := hinitial.step.trace_size_le
  have hstarted : ¬ (Survey.initial w).finished = true := by
    simp [Survey.initial, Survey.finished]
  have hrun : Survey.run config source w = Survey.advance config source (2 * w.words)
      (Survey.step config source (Survey.initial w)) := by
    rw [Survey.run, Survey.budget, Survey.advance, if_neg hstarted]
  have hfinished := Survey.finished_run config source w
  have hstart := represents_initial p₀ w
  rw [hrun] at hfinished
  obtain ⟨h, e, hvisit, he, hh⟩ := exists_visit_eq valid hp₀ hstart.pending hstart.tabulates
    hstart.stores (.inr rfl) (by
      rw [← Survey.step_initial]
      exact Nat.le_trans (Nat.add_le_add_right hle _) hroom)
  rw [← Survey.step_initial] at he hh
  obtain ⟨e', hadvance, he'⟩ := exists_advance_eq valid hp₀ hinitial.step he hfinished hroom
  refine ⟨h, e', ?_, ?_, ?_⟩
  · rw [explore, words_eq, Checked.ok_bind]
    change (visit _ _ w.startSpot.pc _ >>= _) = _
    rw [hvisit, Checked.ok_bind]
    dsimp only
    rw [hadvance]
    rfl
  · rw [hrun]
    exact he'
  · exact hinitial.step.run_induction
      (motive := fun t ↦ (p₀.handlesFor t.trace)[0]? = some h) hh
      fun t ht hkeep ↦ getElem?_handlesFor_step p₀ ht hkeep

end Builder

end MipsBlocks
