import MipsBlocks.Block.Sequence
import MipsBlocks.Block.Survey

/-!
# Outlines

The outline of a block is the list of its sequences in the order of the finished chain: the range
from the start of the window on, then the range before the start. Falling off the end of the first
range leaves the block, unless the first range is the whole window and its last site falls through
past the end of the window; falling off the second range comes back to the start of the block.
-/

set_option autoImplicit false
set_option relaxedAutoImplicit false

namespace MipsBlocks

/-- What happens when execution falls off the last site of a range. -/
inductive RangeExit where
  | redispatch
  | returnToStart
  deriving DecidableEq

namespace RangeExit

def flag : RangeExit → Flag
  | redispatch => .redispatch
  | returnToStart => .returnToStart

end RangeExit

namespace Outline

/-- The exit of the range that begins at the start of the window. -/
def frontExit (w : Window) (last : Analysis) : RangeExit :=
  if w.start = w.min ∧ w.max ≤ last.fallthrough then .returnToStart else .redispatch

/-- The sites of a range with the exit of the last one; a site that asks for a fresh lookup by
itself keeps to that. -/
def close (exit : Analysis → RangeExit) (sites : List Site) : List Site :=
  match sites.getLast? with
  | some last =>
    let flags : Flags :=
      if .redispatch ∈ last.node.flags then {.endSequence}
      else {.endSequence, (exit last.node).flag}
    sites.dropLast ++ [last.flag flags]
  | none => []

/-- The sequences of a range. -/
def range (limit : Nat) (exit : Analysis → RangeExit) (sites : List Site) : List Sequence :=
  (Sequence.cut limit (close exit sites)).map fun s ↦ s.delimit.require

/-- The sequences of a surveyed window. -/
def ofSurvey {w : Window} (config : Config) (s : Survey w) : List Sequence :=
  range config.maxSequence (frontExit w) s.front ++
    range config.maxSequence (fun _ ↦ .returnToStart) s.back

end Outline

/-- What a block will be, before it is given descriptors. -/
structure Outline where
  /-- The addresses described, in the order in which they were. -/
  trace : Array VirtAddr
  trace_size_pos : 0 < trace.size
  sequences : List Sequence

namespace Outline

/-- The outline of the code in a window. -/
def describe (config : Config) (source : Source) (w : Window) : Outline :=
  let survey := Survey.run config source w
  { trace := survey.trace
    trace_size_pos := Survey.trace_size_run_pos config source w
    sequences := ofSurvey config survey }

/-- The sites in the order of the finished chain. -/
def sites (o : Outline) : List Site := o.sequences.flatten

end Outline

end MipsBlocks
