import MipsBlocks.Block.Site

/-!
# Surveys

A survey finds the sites of a window that are reachable from its start. It follows the code from one
address until the sequence ends, the window is left or a site is met again; branch targets in the
window wait on a stack until then. The stack has a limit, and a target that finds it full is not
explored.

A survey is a state machine: `step` describes the site at the cursor or takes the next target from
the stack, and `Survey.run` repeats it. Each step fills an entry of the table or takes a target
away, and only filling an entry adds a target, so `budget` steps are enough.

The flags that depend on how a site was reached are set here: `branchTarget` for the start and for
the targets taken from the stack, `intrablockBranch` for the branches whose target was put there,
and `validateTlb` where a page may be entered.
-/

set_option autoImplicit false
set_option relaxedAutoImplicit false

namespace MipsBlocks

/-- A branch target that waits to be explored. -/
structure Pending (w : Window) where
  /-- The branch; the start of the window has none. -/
  source : Option VirtAddr
  target : w.Spot

structure Survey (w : Window) where
  /-- Where the sequence being followed goes on. -/
  cursor : Option w.Spot
  /-- The targets that wait, the next one last. -/
  pending : Array (Pending w)
  /-- The site found at each word of the window. -/
  table : Vector (Option Site) w.words
  /-- The addresses described so far, in order. -/
  trace : Array VirtAddr

namespace Survey

variable {w : Window}

/-- The start of the window waits, and nothing is known. -/
def initial (w : Window) : Survey w where
  cursor := none
  pending := #[⟨none, w.startSpot⟩]
  table := Vector.replicate w.words none
  trace := #[]

/-- The site found at a spot. -/
def lookup (s : Survey w) (spot : w.Spot) : Option Site := s.table[spot.index]

/-- A survey is finished when there is nothing to follow and nothing waits. -/
def finished (s : Survey w) : Bool := s.cursor.isNone && s.pending.isEmpty

/-- The flags of a place where a cached translation is checked again. -/
def entryFlags : Flags := {.validateTlb, .canCauseException}

/-- The target of a branch that lies in the window. -/
def innerTarget? (w : Window) (a : Analysis) : Option w.Spot :=
  if a.isBranch then a.target.bind w.spot? else none

/-- The flags that `pc` gets because a page may be entered there. -/
def pageFlags (config : Config) (w : Window) (pc : VirtAddr) : Flags :=
  if config.checksPages && (pc = w.start || config.startsPage pc) then entryFlags else ∅

/-- Where a sequence goes on after a site, if it does and the place is new. -/
def following (table : Vector (Option Site) w.words) (a : Analysis) : Option w.Spot :=
  if a.endsSequence then none
  else (w.spot? a.fallthrough).filter fun spot ↦ table[spot.index].isNone

/-- The target that a branch puts on the stack, which must not be full. -/
def pushed (config : Config) (s : Survey w) (a : Analysis) : Option w.Spot :=
  if s.pending.size < config.maxStackDepth then innerTarget? w a else none

/-- The flags of a new site: those for how it was `reached`, and what the survey makes of it. -/
def newFlags (config : Config) (s : Survey w) (a : Analysis) (reached : Flags) : Flags :=
  reached ∪ pageFlags config w a.pc ∪
    if (pushed config s a).isSome then {.intrablockBranch} else ∅

/-- Describes the site at a spot, which has the flags `reached` for how it was reached. -/
def record (config : Config) (source : Source) (s : Survey w) (spot : w.Spot) (reached : Flags) :
    Survey w :=
  let site := Site.describe config source spot.pc s.trace.size
  let target := pushed config s site.node
  let site := site.flag (newFlags config s site.node reached)
  match s with
  | { pending, table, trace, .. } =>
    let table := table.set spot.index (some site)
    { cursor := following table site.node
      pending := match target with
        | some target => pending.push ⟨some spot.pc, target⟩
        | none => pending
      table
      trace := trace ++ site.pcs }

/-- The flags of a known site that a branch leads to. -/
def revisitFlags (config : Config) (p : Pending w) : Flags :=
  let crosses := p.source.any fun source ↦ config.page source != config.page p.target.pc
  if config.checksPages && crosses then insert .branchTarget entryFlags else {.branchTarget}

/-- Notes that a known site is also a branch target. -/
def revisit (config : Config) (s : Survey w) (p : Pending w) (site : Site) : Survey w :=
  { s with
    table := s.table.set p.target.index (some (site.flag (revisitFlags config p))) }

/-- The survey without the next target of the stack. -/
def pop (s : Survey w) : Survey w := { s with pending := s.pending.pop }

/-- Describes the site at the cursor, or else takes a target from the stack. -/
def step (config : Config) (source : Source) (s : Survey w) : Survey w :=
  match s.cursor with
  | some spot => record config source s spot ∅
  | none =>
    match s.pending.back? with
    | none => s
    | some p =>
      match s.lookup p.target with
      | some site => revisit config s.pop p site
      | none => record config source s.pop p.target {.branchTarget}

theorem step_of_cursor (config : Config) (source : Source) {s : Survey w} {spot : w.Spot}
    (hc : s.cursor = some spot) : step config source s = record config source s spot ∅ := by
  rw [step, hc]

theorem step_of_finished (config : Config) (source : Source) {s : Survey w}
    (hc : s.cursor = none) (hp : s.pending.back? = none) : step config source s = s := by
  simp [step, hc, hp]

theorem step_of_known (config : Config) (source : Source) {s : Survey w} {p : Pending w}
    {site : Site} (hc : s.cursor = none) (hp : s.pending.back? = some p)
    (hl : s.lookup p.target = some site) :
    step config source s = revisit config s.pop p site := by
  simp [step, hc, hp, hl]

theorem step_of_new (config : Config) (source : Source) {s : Survey w} {p : Pending w}
    (hc : s.cursor = none) (hp : s.pending.back? = some p) (hl : s.lookup p.target = none) :
    step config source s = record config source s.pop p.target {.branchTarget} := by
  simp [step, hc, hp, hl]

/-- Repeats `step`, at most `fuel` times. -/
def advance (config : Config) (source : Source) : Nat → Survey w → Survey w
  | 0, s => s
  | fuel + 1, s => if s.finished then s else advance config source fuel (step config source s)

/-- The number of steps that are enough: every word is described once, and every target taken. -/
def budget (w : Window) : Nat := 2 * w.words + 1

/-- The finished survey of a window. -/
def run (config : Config) (source : Source) (w : Window) : Survey w :=
  advance config source (budget w) (initial w)

/-! ### The trace -/

theorem trace_record (config : Config) (source : Source) (s : Survey w) (spot : w.Spot)
    (reached : Flags) : (record config source s spot reached).trace =
      s.trace ++ (Site.describe config source spot.pc s.trace.size).pcs := rfl

theorem trace_size_lt_record (config : Config) (source : Source) (s : Survey w) (spot : w.Spot)
    (reached : Flags) : s.trace.size < (record config source s spot reached).trace.size := by
  rw [trace_record, Site.pcs, ← Array.length_toList, ← Array.length_toList,
    Array.toList_appendList, List.length_append, List.length_cons]
  omega

theorem trace_revisit (config : Config) (s : Survey w) (p : Pending w) (site : Site) :
    (revisit config s p site).trace = s.trace := rfl

theorem trace_pop (s : Survey w) : s.pop.trace = s.trace := rfl

theorem trace_size_le_step (config : Config) (source : Source) (s : Survey w) :
    s.trace.size ≤ (step config source s).trace.size := by
  cases hc : s.cursor with
  | some spot =>
    rw [step_of_cursor config source hc]
    exact Nat.le_of_lt (trace_size_lt_record config source s spot ∅)
  | none =>
    cases hp : s.pending.back? with
    | none => exact Nat.le_of_eq (by rw [step_of_finished config source hc hp])
    | some p =>
      cases hl : s.lookup p.target with
      | some site =>
        exact Nat.le_of_eq (by rw [step_of_known config source hc hp hl, trace_revisit, trace_pop])
      | none =>
        have key := trace_size_lt_record config source s.pop p.target {.branchTarget}
        rw [trace_pop] at key
        rw [step_of_new config source hc hp hl]
        exact Nat.le_of_lt key

theorem trace_size_le_advance (config : Config) (source : Source) (fuel : Nat) (s : Survey w) :
    s.trace.size ≤ (advance config source fuel s).trace.size := by
  induction fuel generalizing s with
  | zero => exact Nat.le_refl _
  | succ fuel ih =>
    rw [advance]
    split
    · exact Nat.le_refl _
    · exact Nat.le_trans (trace_size_le_step config source s) (ih _)

theorem lookup_initial (spot : w.Spot) : (initial w).lookup spot = none := by
  simp [lookup, initial]

theorem step_initial (config : Config) (source : Source) (w : Window) :
    step config source (initial w) =
      record config source (initial w).pop w.startSpot {.branchTarget} := by
  have hp : (initial w).pending.back? = some ⟨none, w.startSpot⟩ := by simp [initial]
  rw [step_of_new config source rfl hp (lookup_initial _)]

/-- The start is described whatever the source. -/
theorem trace_size_run_pos (config : Config) (source : Source) (w : Window) :
    0 < (run config source w).trace.size := by
  rw [run, budget, advance, if_neg (by simp [initial, finished])]
  refine Nat.lt_of_lt_of_le ?_ (trace_size_le_advance ..)
  rw [step_initial]
  exact trace_size_lt_record config source (initial w).pop w.startSpot _

/-! ### Ranges -/

/-- The number of words before the start. -/
def split (_ : Survey w) : Nat := w.startSpot.index

/-- The sites from the start on, in the order of addresses. -/
def front (s : Survey w) : List Site := (s.table.toList.drop s.split).reduceOption

/-- The sites before the start, in the order of addresses. -/
def back (s : Survey w) : List Site := (s.table.toList.take s.split).reduceOption

end Survey

end MipsBlocks
