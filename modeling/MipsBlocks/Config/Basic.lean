import MipsBlocks.Error
import MipsBlocks.Flavor
import MipsBlocks.Instruction.Word
import MipsBlocks.Window

/-!
# Configurations

What a frontend can be told: the processor model, the window around a start address, the limits of
the analysis, the size of a page and the space that instructions come from. `Config.Valid` states
what a frontend asks of a configuration. `Config.defect?` finds the first defect, in the order of
`ConfigDefect`, and finds none exactly for a valid configuration (`defect?_eq_none_iff`).
-/

set_option autoImplicit false
set_option relaxedAutoImplicit false

namespace MipsBlocks

structure Config where
  flavor : Flavor := .r4600
  /-- The bytes before a start address that belong to its window. -/
  windowStart : Nat := 128
  /-- The bytes from a start address on that belong to its window. -/
  windowEnd : Nat := 512
  /-- The largest number of instructions in one sequence. -/
  maxSequence : Nat := 64
  /-- How many branch targets may wait to be explored. -/
  maxStackDepth : Nat := 100
  /-- The binary logarithm of the page size; 0 turns the checks of translations off. -/
  pageShift : Nat := 12
  /-- The space that instructions are fetched from. -/
  addressSpace : AddressSpace := .program
  deriving DecidableEq

/-- The fields of a configuration. -/
inductive ConfigField where
  | flavor
  | windowStart
  | windowEnd
  | maxSequence
  | maxStackDepth
  | pageShift
  | addressSpace
  deriving DecidableEq

namespace ConfigField

def all : List ConfigField :=
  [flavor, windowStart, windowEnd, maxSequence, maxStackDepth, pageShift, addressSpace]

def name : ConfigField → String
  | flavor => "flavor"
  | windowStart => "window_start"
  | windowEnd => "window_end"
  | maxSequence => "max_sequence"
  | maxStackDepth => "max_stack_depth"
  | pageShift => "page_shift"
  | addressSpace => "address_space"

/-- The field with a name. -/
def ofName? (name : String) : Option ConfigField := all.find? (·.name = name)

theorem ofName?_name (f : ConfigField) : ofName? f.name = some f := by cases f <;> decide

end ConfigField

/-- The largest logarithm of a page size. -/
def maxPageShift : Nat := 32

/-- What is wrong with a configuration; the first defect counts. -/
inductive ConfigDefect where
  | zeroSequence
  | zeroStackDepth
  | pageTooLarge (shift : Nat)
  | startUnaligned (bytes : Nat)
  | endUnaligned (bytes : Nat)
  | windowSize (bytes : Nat)
  deriving DecidableEq

namespace ConfigDefect

/-- The field that a defect is reported for. -/
def field : ConfigDefect → ConfigField
  | zeroSequence => .maxSequence
  | zeroStackDepth => .maxStackDepth
  | pageTooLarge _ => .pageShift
  | startUnaligned _ => .windowStart
  | endUnaligned _ => .windowEnd
  | windowSize _ => .windowEnd

private def unaligned (bytes : Nat) : String :=
  toString bytes ++ " is not a multiple of the " ++ toString insnWidth ++ "-byte instruction width"

def message : ConfigDefect → String
  | zeroSequence => "must be non-zero"
  | zeroStackDepth => "must be non-zero"
  | pageTooLarge shift =>
    toString shift ++ " exceeds the " ++ toString maxPageShift ++ "-bit page size limit"
  | startUnaligned bytes => unaligned bytes
  | endUnaligned bytes => unaligned bytes
  | windowSize bytes =>
    "window of " ++ toString bytes ++ " bytes must be within 1..=" ++ toString maxWindowBytes

def toError (d : ConfigDefect) : Error := .core (.invalidConfig d.field.name d.message)

end ConfigDefect

namespace Config

/-- The size of the window around a start address. -/
def windowBytes (c : Config) : Nat := c.windowStart + c.windowEnd

/-- What a frontend asks of its configuration. -/
structure Valid (c : Config) : Prop where
  maxSequence_ne_zero : c.maxSequence ≠ 0
  maxStackDepth_ne_zero : c.maxStackDepth ≠ 0
  pageShift_le : c.pageShift ≤ maxPageShift
  windowStart_aligned : c.windowStart % insnWidth = 0
  windowEnd_aligned : c.windowEnd % insnWidth = 0
  windowBytes_ne_zero : c.windowBytes ≠ 0
  windowBytes_le : c.windowBytes ≤ maxWindowBytes

/-- The first defect of a configuration. -/
def defect? (c : Config) : Option ConfigDefect :=
  if c.maxSequence = 0 then some .zeroSequence
  else if c.maxStackDepth = 0 then some .zeroStackDepth
  else if maxPageShift < c.pageShift then some (.pageTooLarge c.pageShift)
  else if c.windowStart % insnWidth ≠ 0 then some (.startUnaligned c.windowStart)
  else if c.windowEnd % insnWidth ≠ 0 then some (.endUnaligned c.windowEnd)
  else if c.windowBytes = 0 ∨ maxWindowBytes < c.windowBytes then some (.windowSize c.windowBytes)
  else none

theorem defect?_eq_none_iff {c : Config} : c.defect? = none ↔ c.Valid := by
  unfold defect?
  constructor
  · intro h
    repeat' split at h
    all_goals cases h
    constructor <;> omega
  · rintro ⟨_, _, _, _, _, _, _⟩
    repeat' split
    all_goals first | rfl | omega

instance (c : Config) : Decidable c.Valid := decidable_of_iff _ defect?_eq_none_iff

theorem valid_default : Valid {} := by decide

/-- Refuses a configuration with a defect. -/
def check (c : Config) : Except ConfigDefect { c : Config // c.Valid } :=
  match h : c.defect? with
  | none => .ok ⟨c, defect?_eq_none_iff.1 h⟩
  | some d => .error d

/-- Reports the first defect of a configuration. -/
def validate (c : Config) : Except Error { c : Config // c.Valid } :=
  c.check.mapError ConfigDefect.toError

/-- Whether translations are checked when a page is entered. -/
def checksPages (c : Config) : Bool := c.pageShift ≠ 0

/-- The number of the page that holds an address. -/
def page (c : Config) (a : VirtAddr) : Nat := a.toNat >>> c.pageShift

/-- Whether an address is the first of its page. -/
def startsPage (c : Config) (a : VirtAddr) : Bool := a.toNat % (1 <<< c.pageShift) = 0

end Config

end MipsBlocks
