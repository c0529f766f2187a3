import MipsBlocks.Instruction.Decode
import MipsBlocks.Instruction.Effect
import MipsBlocks.Source

/-!
# Analysis of one address

`Analysis.describe` describes the instruction at one address by itself: the words fetched there and
the effect of the instruction they encode, or a stand-in (`Analysis.fault`) when the address cannot
be fetched. The stand-in generates no code and hands over to the real fault when it is reached.
-/

set_option autoImplicit false
set_option relaxedAutoImplicit false

namespace MipsBlocks

/-- What is known of the instruction at one address. -/
structure Analysis where
  pc : VirtAddr
  phys : PhysAddr
  /-- The word of the operation channel. -/
  opcode : Word := 0#32
  /-- The word of the argument channel, for instructions with literal operand data. -/
  argument : Option Word := none
  /-- The length in bytes. -/
  length : Nat := 0
  delaySlots : Nat := 0
  /-- The slots that are skipped when a likely branch is not taken. -/
  skipSlots : Nat := 0
  flags : Flags := ∅
  /-- The static branch target. -/
  target : Option VirtAddr := none
  cycles : Nat := 0
  reads : RegSet := ∅
  writes : RegSet := ∅
  /-- The written registers that may still be read before they are written again. -/
  required : RegSet := ∅
  deriving DecidableEq

namespace Analysis

/-- Nothing known yet about `pc`. -/
def fresh (pc : VirtAddr) : Analysis where
  pc := pc
  phys := pc.toPhys

def isBranch (a : Analysis) : Bool := a.flags.isBranch

def endsSequence (a : Analysis) : Bool := .endSequence ∈ a.flags

/-- Whether the address could not be fetched. -/
def isFault (a : Analysis) : Bool := .compilerPageFault ∈ a.flags

/-- The address where execution continues when no branch is taken. -/
def fallthrough (a : Analysis) : VirtAddr :=
  a.pc + BitVec.ofNat 64 (a.length * (1 + a.skipSlots))

/-- The analysis with more flags. -/
def flag (a : Analysis) (flags : Flags) : Analysis := { a with flags := a.flags ∪ flags }

/-- The flags of an address that cannot be fetched. -/
def faultFlags : Flags :=
  {.canCauseException, .endSequence, .redispatch, .validateTlb, .compilerPageFault, .virtualNoop}

/-- The stand-in for an address that cannot be fetched. -/
def fault (pc : VirtAddr) : Analysis :=
  { fresh pc with length := insnWidth, flags := faultFlags }

/-- The analysis of a word fetched at an address, with the argument it may need. -/
def ofEffect (pc : VirtAddr) (phys : PhysAddr) (opcode argument : Word) (e : Effect) :
    Analysis where
  pc := pc
  phys := phys
  opcode := opcode
  argument := if e.literal then some argument else none
  length := insnWidth
  delaySlots := e.delaySlots
  skipSlots := e.skipSlots
  flags := e.flags
  target := e.target
  cycles := e.cycles
  reads := e.reads.withoutZero
  writes := e.writes.withoutZero

/-- The effect of a word at an address on a processor model. -/
def effect (flavor : Flavor) (pc : VirtAddr) (w : Word) : Effect :=
  match Insn.decode? flavor w with
  | some insn => insn.effect pc
  | none => .invalid

/-- The analysis of the instruction at `pc`, fetched from `phys`. -/
def decoded (flavor : Flavor) (source : Source) (pc : VirtAddr) (phys : PhysAddr) : Analysis :=
  let opcode := source.fetchOpcode phys
  ofEffect pc phys opcode (source.fetchArgument phys) (effect flavor pc opcode)

/-- The analysis of the instruction at `pc`. -/
def describe (flavor : Flavor) (space : AddressSpace) (source : Source) (pc : VirtAddr) :
    Analysis :=
  match source.translate space pc with
  | some phys => decoded flavor source pc phys
  | none => fault pc

end Analysis

end MipsBlocks
