import MipsBlocks.Block.Survey
import Mathlib.Data.List.ReduceOption
import Mathlib.Data.List.Perm.Basic

/-!
# Steps of a survey

A step describes a site that is not in the table yet, or gives a site of the table more flags. This
module says what the two do to the table (`lookup_record_self`, `lookup_record_of_ne`,
`lookup_revisit_self`, `lookup_revisit_of_ne`, `sites_record`, `map_sites_revisit`) and derives two
things from it: the budget is enough (`finished_run`), and what the initial state has and all steps
keep is true of the finished survey (`run_induction`). The same holds from any state on that the
survey goes through (`Reached.run_induction`); so a site keeps its flags (`mem_flags_step`).

Scope. A step takes a target from the stack or follows a sequence; the two differ only in the flags
that a new site gets and in the stack it sees, so both go through `record`.
-/

set_option autoImplicit false
set_option relaxedAutoImplicit false

namespace MipsBlocks

/-! ### Tables of optional entries -/

section Entries

variable {α β : Type}

/-- Filling an empty entry adds its contents. -/
theorem perm_reduceOption_set {l : List (Option α)} {i : Nat} (hi : l[i]? = some none) (a : α) :
    (l.set i (some a)).reduceOption.Perm (a :: l.reduceOption) := by
  induction l generalizing i with
  | nil => simp at hi
  | cons b l ih =>
    cases i with
    | zero =>
      obtain rfl : b = none := by simpa using hi
      simp
    | succ i =>
      have htail : (l.set i (some a)).reduceOption.Perm (a :: l.reduceOption) :=
        ih (by simpa using hi)
      cases b with
      | none => simpa using htail
      | some b => simpa using (htail.cons b).trans (List.Perm.swap a b _)

/-- Replacing the contents of an entry changes nothing that the replacement agrees on. -/
theorem map_reduceOption_set {l : List (Option α)} {i : Nat} {a b : α} (hi : l[i]? = some (some b))
    {f : α → β} (hf : f a = f b) :
    (l.set i (some a)).reduceOption.map f = l.reduceOption.map f := by
  induction l generalizing i with
  | nil => simp at hi
  | cons c l ih =>
    cases i with
    | zero =>
      obtain rfl : c = some b := by simpa using hi
      simp [hf]
    | succ i =>
      have htail : (l.set i (some a)).reduceOption.map f = l.reduceOption.map f :=
        ih (by simpa using hi)
      cases c with
      | none => simpa using htail
      | some c => simpa using htail

end Entries

namespace Survey

variable {w : Window}

/-! ### The table -/

/-- The sites of the table in the order of addresses. -/
def sites (s : Survey w) : List Site := s.table.toList.reduceOption

theorem getElem?_table (s : Survey w) (spot : w.Spot) :
    s.table.toList[spot.index.val]? = some (s.lookup spot) := by
  simp [lookup]

theorem length_sites_le (s : Survey w) : s.sites.length ≤ w.words := by
  have h := List.reduceOption_length_le s.table.toList
  simpa [sites] using h

/-- A survey that has not found something everywhere has room for more. -/
theorem length_sites_lt {s : Survey w} {spot : w.Spot} (h : s.lookup spot = none) :
    s.sites.length < w.words := by
  have hnone : none ∈ s.table.toList := by
    rw [← h]
    exact List.mem_of_getElem? (getElem?_table s spot)
  have hlt := List.reduceOption_length_lt_iff.mpr hnone
  simpa [sites] using hlt

theorem sites_initial : (initial w).sites = [] := by
  simp [sites, initial]

/-- The site that `record` puts into the table. -/
def newSite (config : Config) (source : Source) (s : Survey w) (spot : w.Spot) (reached : Flags) :
    Site :=
  let site := Site.describe config source spot.pc s.trace.size
  site.flag (newFlags config s site.node reached)

section Record

variable (config : Config) (source : Source) (s : Survey w) (spot : w.Spot) (reached : Flags)

theorem table_record : (record config source s spot reached).table =
    s.table.set spot.index (some (newSite config source s spot reached)) spot.index.isLt := rfl

theorem cursor_record : (record config source s spot reached).cursor =
    following (record config source s spot reached).table
      (newSite config source s spot reached).node := rfl

theorem pending_record : (record config source s spot reached).pending =
    match pushed config s (Site.describe config source spot.pc s.trace.size).node with
    | some target => s.pending.push ⟨some spot.pc, target⟩
    | none => s.pending := rfl

theorem lookup_record_self : (record config source s spot reached).lookup spot =
    some (newSite config source s spot reached) := by
  rw [lookup, table_record]
  exact Vector.getElem_set_self _

variable {spot} in
theorem lookup_record_of_ne {t : w.Spot} (ht : t ≠ spot) :
    (record config source s spot reached).lookup t = s.lookup t := by
  have hindex : spot.index.val ≠ t.index.val := fun h ↦
    ht (Window.Spot.eq_of_index_eq (Fin.ext h.symm))
  rw [lookup, table_record]
  exact Vector.getElem_set_ne _ _ hindex

variable {s spot} in
/-- Describing a new site adds it and nothing else. -/
theorem sites_record (hnew : s.lookup spot = none) :
    (record config source s spot reached).sites.Perm
      (newSite config source s spot reached :: s.sites) := by
  rw [sites, table_record, Vector.toList_set]
  exact perm_reduceOption_set (by rw [getElem?_table, hnew]) _

variable {s spot} in
theorem length_sites_record (hnew : s.lookup spot = none) :
    (record config source s spot reached).sites.length = s.sites.length + 1 :=
  (sites_record config source reached hnew).length_eq

theorem size_pending_record_le :
    (record config source s spot reached).pending.size ≤ s.pending.size + 1 := by
  rw [pending_record]
  split
  · exact Nat.le_of_eq (Array.size_push _)
  · exact Nat.le_succ _

end Record

section Revisit

variable (config : Config) (s : Survey w) (p : Pending w) (site : Site)

theorem table_revisit : (revisit config s p site).table =
    s.table.set p.target.index (some (site.flag (revisitFlags config p))) p.target.index.isLt := rfl

theorem lookup_revisit_self : (revisit config s p site).lookup p.target =
    some (site.flag (revisitFlags config p)) := by
  rw [lookup, table_revisit]
  exact Vector.getElem_set_self _

variable {p} in
theorem lookup_revisit_of_ne {t : w.Spot} (ht : t ≠ p.target) :
    (revisit config s p site).lookup t = s.lookup t := by
  have hindex : p.target.index.val ≠ t.index.val := fun h ↦
    ht (Window.Spot.eq_of_index_eq (Fin.ext h.symm))
  rw [lookup, table_revisit]
  exact Vector.getElem_set_ne _ _ hindex

variable {s p site} in
/-- Visiting a site again only gives it flags. -/
theorem map_sites_revisit {β : Type} {f : Site → β} (hold : s.lookup p.target = some site)
    (hf : ∀ flags, f (site.flag flags) = f site) :
    (revisit config s p site).sites.map f = s.sites.map f := by
  rw [sites, table_revisit, Vector.toList_set]
  exact map_reduceOption_set (by rw [getElem?_table, hold]) (hf _)

variable {s p site} in
theorem length_sites_revisit (hold : s.lookup p.target = some site) :
    (revisit config s p site).sites.length = s.sites.length := by
  have h := congrArg List.length
    (map_sites_revisit (f := fun _ ↦ ()) config hold fun _ ↦ rfl)
  simpa using h

end Revisit

theorem sites_pop (s : Survey w) : s.pop.sites = s.sites := rfl

/-! ### Runs -/

/-- The place where a sequence goes on has no site yet. -/
def CursorFresh (s : Survey w) : Prop := ∀ spot, s.cursor = some spot → s.lookup spot = none

theorem cursorFresh_record (config : Config) (source : Source) (s : Survey w) (spot : w.Spot)
    (reached : Flags) : CursorFresh (record config source s spot reached) := by
  intro t ht
  rw [cursor_record, following] at ht
  split at ht
  · cases ht
  · exact Option.isNone_iff_eq_none.mp (Option.filter_eq_some_iff.mp ht).2

theorem cursorFresh_revisit {config : Config} {s : Survey w} {p : Pending w} {site : Site}
    (hc : s.cursor = none) : CursorFresh (revisit config s p site) := by
  intro t ht
  rw [revisit, hc] at ht
  cases ht

theorem cursorFresh_initial : CursorFresh (initial w) := by
  intro spot hspot
  cases hspot

/-- The three kinds of steps, and the state where there is none to take. -/
theorem step_cases {config : Config} {source : Source} {motive : Survey w → Prop} {s : Survey w}
    (hfresh : CursorFresh s) (rest : s.finished = true → motive s)
    (follow : ∀ spot, s.cursor = some spot → s.lookup spot = none →
      motive (record config source s spot ∅))
    (explore : ∀ p, s.cursor = none → s.pending.back? = some p → s.lookup p.target = none →
      motive (record config source s.pop p.target {.branchTarget}))
    (again : ∀ p site, s.cursor = none → s.pending.back? = some p →
      s.lookup p.target = some site → motive (revisit config s.pop p site)) :
    motive (step config source s) := by
  cases hc : s.cursor with
  | some spot =>
    rw [step_of_cursor config source hc]
    exact follow spot hc (hfresh spot hc)
  | none =>
    cases hp : s.pending.back? with
    | none =>
      rw [step_of_finished config source hc hp]
      exact rest (by simp_all [finished])
    | some p =>
      cases hl : s.lookup p.target with
      | some site =>
        rw [step_of_known config source hc hp hl]
        exact again p site hc hp hl
      | none =>
        rw [step_of_new config source hc hp hl]
        exact explore p hc hp hl

theorem cursorFresh_step {config : Config} {source : Source} {s : Survey w}
    (hfresh : CursorFresh s) : CursorFresh (step config source s) :=
  step_cases hfresh (fun _ ↦ hfresh) (fun _ _ _ ↦ cursorFresh_record config source _ _ _)
    (fun _ _ _ _ ↦ cursorFresh_record config source _ _ _)
    fun _ _ hc _ _ ↦ cursorFresh_revisit hc

/-- What the initial state has and all steps keep is true of the finished survey. -/
theorem run_induction {config : Config} {source : Source} {motive : Survey w → Prop}
    (start : motive (initial w))
    (follow : ∀ s spot, motive s → s.cursor = some spot → s.lookup spot = none →
      motive (record config source s spot ∅))
    (explore : ∀ s p, motive s → s.cursor = none → s.pending.back? = some p →
      s.lookup p.target = none → motive (record config source s.pop p.target {.branchTarget}))
    (again : ∀ s p site, motive s → s.cursor = none → s.pending.back? = some p →
      s.lookup p.target = some site → motive (revisit config s.pop p site)) :
    motive (run config source w) := by
  have hadvance : ∀ fuel (s : Survey w), motive s → CursorFresh s →
      motive (advance config source fuel s) := by
    intro fuel
    induction fuel with
    | zero => exact fun s hs _ ↦ hs
    | succ fuel ih =>
      intro s hs hfresh
      rw [advance]
      split
      · exact hs
      · refine ih _ ?_ (cursorFresh_step hfresh)
        exact step_cases hfresh (fun _ ↦ hs) (fun spot ↦ follow s spot hs)
          (fun p ↦ explore s p hs) fun p site ↦ again s p site hs
  exact hadvance _ _ start cursorFresh_initial

/-! ### The budget -/

/-- The steps that a survey can still take: each fills an entry of the table, which can put one
target on the stack, or takes a target away. -/
def remaining (s : Survey w) : Nat := 2 * (w.words - s.sites.length) + s.pending.size

theorem remaining_initial : (initial w).remaining = budget w := by
  rw [remaining, sites_initial]
  simp [budget, initial]

theorem remaining_record_lt (config : Config) (source : Source) {s : Survey w} {spot : w.Spot}
    (reached : Flags) (hnew : s.lookup spot = none) :
    (record config source s spot reached).remaining < s.remaining := by
  have hlength := length_sites_record config source reached hnew
  have hle := length_sites_le (record config source s spot reached)
  have hpending := size_pending_record_le config source s spot reached
  simp only [remaining]
  omega

theorem size_pending_pop {s : Survey w} {p : Pending w} (hp : s.pending.back? = some p) :
    s.pop.pending.size + 1 = s.pending.size := by
  obtain ⟨ys, hys⟩ := Array.back?_eq_some_iff.mp hp
  simp [pop, hys]

theorem remaining_pop_lt {s : Survey w} {p : Pending w} (hp : s.pending.back? = some p) :
    s.pop.remaining < s.remaining := by
  have hsize := size_pending_pop hp
  simp only [remaining, sites_pop]
  omega

theorem remaining_step_lt (config : Config) (source : Source) {s : Survey w}
    (hfresh : CursorFresh s) (hs : s.finished = false) :
    (step config source s).remaining < s.remaining := by
  refine step_cases (motive := fun t ↦ t.remaining < s.remaining) hfresh ?_ ?_ ?_ ?_
  · intro hfinished
    rw [hs] at hfinished
    cases hfinished
  · intro spot _ hnew
    exact remaining_record_lt config source ∅ hnew
  · intro p _ hp hl
    have hnew : s.pop.lookup p.target = none := hl
    exact Nat.lt_trans (remaining_record_lt config source _ hnew) (remaining_pop_lt hp)
  · intro p site _ hp hl
    have hlength := length_sites_revisit config (s := s.pop) hl
    have hpop := remaining_pop_lt hp
    simp only [remaining, hlength] at hpop ⊢
    exact hpop

theorem finished_advance {config : Config} {source : Source} {fuel : Nat} {s : Survey w}
    (hfresh : CursorFresh s) (hfuel : s.remaining ≤ fuel) :
    (advance config source fuel s).finished = true := by
  induction fuel generalizing s with
  | zero =>
    by_contra hs
    have hlt := remaining_step_lt config source hfresh (Bool.not_eq_true _ ▸ hs)
    omega
  | succ fuel ih =>
    rw [advance]
    split
    · assumption
    · rename_i hs
      have hlt := remaining_step_lt config source hfresh (Bool.not_eq_true _ ▸ hs)
      exact ih (cursorFresh_step hfresh) (by omega)

/-- The budget is enough for every source: a survey ends because nothing is left to follow. -/
theorem finished_run (config : Config) (source : Source) (w : Window) :
    (run config source w).finished = true :=
  finished_advance cursorFresh_initial (Nat.le_of_eq remaining_initial)

/-- Nothing more happens to a finished survey. -/
theorem step_eq_self {config : Config} {source : Source} {s : Survey w}
    (hs : s.finished = true) : step config source s = s := by
  obtain ⟨hcursor, hpending⟩ := Bool.and_eq_true_iff.mp hs
  refine step_of_finished config source (Option.isNone_iff_eq_none.mp hcursor) ?_
  simpa using hpending

/-! ### The states of a survey -/

/-- The states that a survey goes through. -/
inductive Reached (config : Config) (source : Source) : Survey w → Prop
  | initial : Reached config source (initial w)
  | step {s : Survey w} (h : Reached config source s) : Reached config source (step config source s)

namespace Reached

variable {config : Config} {source : Source} {s : Survey w}

theorem cursorFresh (hs : Reached config source s) : CursorFresh s := by
  induction hs with
  | initial => exact cursorFresh_initial
  | step _ ih => exact cursorFresh_step ih

/-- Every state goes on to the finished survey. -/
theorem exists_run_eq_advance (hs : Reached config source s) :
    ∃ fuel, run config source w = advance config source fuel s := by
  induction hs with
  | initial => exact ⟨budget w, rfl⟩
  | @step s hs ih =>
    obtain ⟨fuel, hfuel⟩ := ih
    by_cases hfinished : s.finished = true
    · exact ⟨fuel, by rw [step_eq_self hfinished, hfuel]⟩
    · cases fuel with
      | zero =>
        have hrun := finished_run config source w
        rw [hfuel] at hrun
        exact absurd hrun hfinished
      | succ fuel => exact ⟨fuel, by rw [hfuel, advance, if_neg hfinished]⟩

/-- No state has described more addresses than the finished survey. -/
theorem trace_size_le (hs : Reached config source s) :
    s.trace.size ≤ (run config source w).trace.size := by
  obtain ⟨fuel, hfuel⟩ := hs.exists_run_eq_advance
  rw [hfuel]
  exact trace_size_le_advance config source fuel s

/-- What is true in some state and kept by all steps is true of the finished survey. -/
theorem run_induction {motive : Survey w → Prop} (hs : Reached config source s)
    (start : motive s)
    (next : ∀ t, Reached config source t → motive t → motive (Survey.step config source t)) :
    motive (run config source w) := by
  obtain ⟨fuel, hfuel⟩ := hs.exists_run_eq_advance
  rw [hfuel]
  clear hfuel
  induction fuel generalizing s with
  | zero => exact start
  | succ fuel ih =>
    rw [advance]
    split
    · exact start
    · exact ih hs.step (next s hs start)

end Reached

/-- A step takes no flag away. -/
theorem mem_flags_step {config : Config} {source : Source} {s : Survey w} (hfresh : CursorFresh s)
    {t : w.Spot} {f : Flag} (h : ∃ site, s.lookup t = some site ∧ f ∈ site.node.flags) :
    ∃ site, (step config source s).lookup t = some site ∧ f ∈ site.node.flags := by
  obtain ⟨site, hsite, hflag⟩ := h
  have hold (spot : w.Spot) (reached : Flags) (u : Survey w) (hu : u.table = s.table)
      (hnew : s.lookup spot = none) :
      (record config source u spot reached).lookup t = some site := by
    have hne : t ≠ spot := by
      intro heq
      rw [heq, hnew] at hsite
      cases hsite
    rw [lookup_record_of_ne config source u reached hne, lookup, hu]
    exact hsite
  refine step_cases (motive := fun r ↦ ∃ site, r.lookup t = some site ∧ f ∈ site.node.flags) hfresh
    (fun _ ↦ ⟨site, hsite, hflag⟩) (fun spot _ hl ↦ ⟨site, hold spot ∅ s rfl hl, hflag⟩)
    (fun p _ _ hl ↦ ⟨site, hold p.target _ s.pop rfl hl, hflag⟩) fun p found _ _ hl ↦ ?_
  by_cases htarget : t = p.target
  · subst htarget
    obtain rfl : site = found := Option.some.inj (hsite.symm.trans hl)
    exact ⟨_, lookup_revisit_self config s.pop p site, Flags.mem_union.mpr (.inl hflag)⟩
  · exact ⟨site, by rw [lookup_revisit_of_ne config s.pop found htarget]; exact hsite, hflag⟩

end Survey

end MipsBlocks
