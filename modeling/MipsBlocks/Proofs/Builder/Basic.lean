import MipsBlocks.Frontend
import MipsBlocks.Proofs.Effects

/-!
# The builder that works in place

`Frontend.describeBlock` works out the outline of a block first and installs it in the pool then.
The builder of this module does both at once, as a machine does: it acquires a descriptor for every
address it describes and changes it there, keeps a table with one handle for each word of the window
and a stack of targets, and links the chain while it walks over the table. Every operation that has
no result on some operands is checked. Reading or writing a slot that the pool does not have, an
entry that the table does not have, a sum, difference or shift that does not fit its word and an
assertion that does not hold stop the builder with a `Breach`.

`Builder.describeBlock` is the description of three addresses, `Builder.chain` follows the links of
a block and `Builder.releaseBlock` gives its descriptors back. Nothing here knows that the addresses
form a window: the bounds are those that the caller gave.

A description is added to what the descriptor holds (`Builder.analyze`), field by field, so it is
that of its address only where the slot was emptied when it was acquired.

Scope. The fields of a word that select an entry of a table or a bit of a register set cannot be out
of range, because they are no wider than that (`Word.primary`, `Reg`). The memory that the host has
for the table and the stack is not modelled.
-/

set_option autoImplicit false
set_option relaxedAutoImplicit false

namespace MipsBlocks

/-- Why the builder stops. -/
inductive Breach where
  /-- A sum, difference or shift of words has no result. -/
  | overflow (o : Overflow)
  /-- A product of words does not fit. -/
  | product
  /-- The table has no such entry. -/
  | table
  /-- The pool has no such slot. -/
  | arena
  /-- A new slot would have a number that is no word. -/
  | full
  | assertion
  /-- A loop takes more steps than there is work. -/
  | endless
  deriving DecidableEq

/-- A result that is there unless there is a breach. -/
abbrev Checked (α : Type) : Type := Except Breach α

namespace Checked

/-- The result of an operation on words. -/
def ofWord {α : Type} (x : Except Overflow α) : Checked α := x.mapError .overflow

@[simp] theorem ofWord_ok {α : Type} (a : α) : ofWord (.ok a) = .ok a := rfl

@[simp] theorem pure_eq {α : Type} (a : α) : (pure a : Checked α) = .ok a := rfl

@[simp] theorem ok_bind {α β : Type} (a : α) (f : α → Checked β) :
    ((.ok a : Checked α) >>= f) = f a := rfl

end Checked

namespace Builder

/-! ### The pool -/

/-- The number of slots that words can tell apart. -/
def slotLimit : Nat := 0x100000000

def read (p : Pool) (h : Handle) : Checked Descriptor :=
  match p.get? h with
  | some d => .ok d
  | none => .error .arena

/-- Changes a descriptor where it is. -/
def write (p : Pool) (h : Handle) (f : Descriptor → Descriptor) : Checked Pool :=
  if h.index < p.slots.size then .ok (p.modify h f) else .error .arena

/-- Takes a slot; a free one must be there to be emptied, a new one must have a number. -/
def acquire (p : Pool) (pc : VirtAddr) : Checked (Handle × Pool) :=
  match p.free with
  | h :: _ => if h.index < p.slots.size then .ok (p.acquire pc) else .error .arena
  | [] => if p.slots.size < slotLimit then .ok (p.acquire pc) else .error .full

def release (p : Pool) (h : Handle) : Checked Pool :=
  if h.index < p.slots.size then .ok (p.release h) else .error .arena

/-! ### The table -/

/-- The handle found at each word between the bounds. -/
abbrev Table : Type := Array (Option Handle)

def entry (t : Table) (i : Nat) : Checked (Option Handle) :=
  match t[i]? with
  | some e => .ok e
  | none => .error .table

def setEntry (t : Table) (i : Nat) (e : Option Handle) : Checked Table :=
  if h : i < t.size then .ok (t.set i e) else .error .table

/-! ### Words -/

/-- What a description is asked for. -/
structure Request where
  config : Config
  source : Source
  start : VirtAddr
  min : VirtAddr
  max : VirtAddr

section Words

variable (r : Request)

/-- Whether `pc` is the address of an instruction between the bounds. The difference is only taken
of addresses in order. -/
def contains (pc : VirtAddr) : Checked Bool :=
  if r.min ≤ pc ∧ pc < r.max then do
    let offset ← Checked.ofWord (pc.sub? r.min)
    pure (offset % insnWidth = 0)
  else pure false

/-- The place of `pc` in the table. -/
def index (pc : VirtAddr) : Checked Nat := do
  let offset ← Checked.ofWord (pc.sub? r.min)
  pure (offset / insnWidth)

/-- The number of entries that the table needs. -/
def words : Checked Nat := do
  let size ← Checked.ofWord (r.max.sub? r.min)
  pure (size / insnWidth)

/-- What the table has for `pc`. -/
def lookup (t : Table) (pc : VirtAddr) : Checked (Option Handle) := do
  let i ← index r pc
  entry t i

/-- The word that selects the place inside a page. -/
def pageMask (config : Config) : Checked (BitVec 64) :=
  if config.pageShift < 64 then
    if 1 ≤ (1#64 <<< config.pageShift).toNat then .ok ((1#64 <<< config.pageShift) - 1#64)
    else .error (.overflow .subtract)
  else .error (.overflow .shiftLeft)

/-- Whether a branch leads to another page. -/
def crossesPage (config : Config) (source : Option VirtAddr) (target : VirtAddr) : Checked Bool :=
  match source with
  | some pc =>
    if config.checksPages then
      if config.pageShift < 64 then .ok ((pc.bits ^^^ target.bits) >>> config.pageShift != 0#64)
      else .error (.overflow .shiftRight)
    else .ok false
  | none => .ok false

/-- The address where execution continues when no branch is taken. -/
def fallthrough (a : Analysis) : Checked VirtAddr :=
  if a.length * (1 + a.skipSlots) < 0x10000000000000000 then .ok a.fallthrough
  else .error .product

end Words

/-! ### Describing -/

section Describe

variable (r : Request)

/-- Puts down that the address cannot be fetched. Registers, targets and slots stay as they are. -/
def putFault (a : Analysis) : Analysis :=
  { a with
    opcode := 0#32
    argument := none
    length := insnWidth
    flags := Analysis.faultFlags
    cycles := 0 }

/-- Adds the effect of an instruction: flags and registers join those that are there, only a branch
sets a target and delay slots, and only a likely one sets the slots to skip. -/
def putEffect (argument : Word) (e : Effect) (a : Analysis) : Analysis :=
  { a with
    argument := if e.literal then some argument else a.argument
    delaySlots := if e.flags.isBranch then e.delaySlots else a.delaySlots
    skipSlots := if 0 < e.skipSlots then e.skipSlots else a.skipSlots
    flags := a.flags ∪ e.flags
    target := if e.flags.isBranch then e.target else a.target
    cycles := e.cycles
    reads := a.reads ∪ e.reads
    writes := a.writes ∪ e.writes }

/-- Takes back whatever is there for an encoding that is no instruction. -/
def putInvalid (a : Analysis) : Analysis :=
  { a with
    argument := none
    delaySlots := 0
    skipSlots := 0
    flags := Effect.invalid.flags
    target := none
    reads := ∅
    writes := ∅ }

/-- Drops the register that always holds zero. -/
def dropZero (a : Analysis) : Analysis :=
  { a with reads := a.reads.withoutZero, writes := a.writes.withoutZero }

/-- Adds what the word at the physical address means. The cycles of an instruction must fit their
word. -/
def decode (a : Analysis) : Checked Analysis :=
  let opcode := r.source.fetchOpcode a.phys
  let a := { a with opcode, length := insnWidth, cycles := 1 }
  match Insn.decode? r.config.flavor opcode with
  | some insn =>
    let e := insn.effect a.pc
    if e.cycles < 0x100000000 then
      pure (dropZero (putEffect (r.source.fetchArgument a.phys) e a))
    else .error (.overflow .add)
  | none => pure (dropZero (putInvalid a))

/-- Adds what is known of the address `pc` by itself to an analysis. -/
def analyze (pc : VirtAddr) (a : Analysis) : Checked Analysis :=
  match r.source.translate r.config.addressSpace pc with
  | some phys => decode r { a with phys }
  | none => pure (putFault a)

/-- Acquires a descriptor for `pc` and describes the address there. -/
def describeAt (p : Pool) (pc : VirtAddr) : Checked (Handle × Pool) := do
  let (h, p) ← acquire p pc
  let d ← read p h
  let a ← analyze r pc d.toAnalysis
  let p ← write p h fun d ↦ { d with toAnalysis := a }
  pure (h, p)

/-- Describes the delay slot at `pc` of the branch under `owner`. -/
def describeSlot (p : Pool) (owner : Handle) (pc : VirtAddr) : Checked (Handle × Pool) := do
  let (h, p) ← describeAt r p pc
  let p ← write p h fun d ↦
    { d with toAnalysis := d.toAnalysis.flag {.inDelaySlot}, owner := some owner }
  pure (h, p)

/-- Describes the address `pc`, and the delay slot of a branch there. -/
def describeSite (p : Pool) (pc : VirtAddr) : Checked (Handle × Pool) := do
  let (h, p) ← describeAt r p pc
  let d ← read p h
  if d.isBranch && 0 < d.delaySlots then do
    let (k, p) ← describeSlot r p h (d.pc + BitVec.ofNat 64 d.length)
    let p ← write p h fun d ↦ { d with delaySlot := some k }
    pure (h, p)
  else pure (h, p)

end Describe

/-! ### Exploring -/

structure Explorer where
  pool : Pool
  table : Table
  /-- The targets that wait with the branches that lead there, the next one last. -/
  pending : Array (Option VirtAddr × VirtAddr) := #[]
  /-- Where the sequence being followed goes on. -/
  cursor : Option VirtAddr := none

section Explore

variable (r : Request)

/-- The target of a branch, if it lies between the bounds. -/
def innerTarget (a : Analysis) : Checked (Option VirtAddr) :=
  if a.isBranch then
    match a.target with
    | some target => do
      let inside ← contains r target
      pure (if inside then some target else none)
    | none => pure none
  else pure none

/-- Where a sequence goes on after an instruction, if it does and the place is new. -/
def following (t : Table) (a : Analysis) : Checked (Option VirtAddr) :=
  if a.endsSequence then pure none
  else do
    let pc ← fallthrough a
    let inside ← contains r pc
    if inside then do
      let known ← lookup r t pc
      pure (if known.isSome then none else some pc)
    else pure none

/-- The flags that `pc` gets because a page may be entered there. -/
def pageFlags (mask : BitVec 64) (pc : VirtAddr) : Flags :=
  if r.config.checksPages && (pc = r.start || pc.select mask = 0#64) then Survey.entryFlags else ∅

/-- Describes the address `pc`, which has the flags `reached` for how it was reached. What cannot be
fetched gets no other flags. -/
def visit (e : Explorer) (pc : VirtAddr) (reached : Flags) : Checked (Handle × Explorer) := do
  let mask ← pageMask r.config
  let (h, pool) ← describeSite r e.pool pc
  let i ← index r pc
  let table ← setEntry e.table i (some h)
  let d ← read pool h
  if d.isFault then do
    let pool ← write pool h fun d ↦ { d with toAnalysis := d.toAnalysis.flag reached }
    pure (h, { e with pool, table, cursor := none })
  else do
    let inner ← innerTarget r d.toAnalysis
    let target := if e.pending.size < r.config.maxStackDepth then inner else none
    let marked : Flags := if target.isSome then {.intrablockBranch} else ∅
    let pool ← write pool h fun d ↦
      { d with toAnalysis := d.toAnalysis.flag (reached ∪ pageFlags r mask pc ∪ marked) }
    let cursor ← following r table d.toAnalysis
    let pending := match target with
      | some target => e.pending.push (some pc, target)
      | none => e.pending
    pure (h, { pool, table, pending, cursor })

/-- Notes that a branch leads to a descriptor that is there already. -/
def revisit (e : Explorer) (h : Handle) (source : Option VirtAddr) (target : VirtAddr) :
    Checked Explorer := do
  let crosses ← crossesPage r.config source target
  let flags : Flags := if crosses then insert .branchTarget Survey.entryFlags else {.branchTarget}
  let pool ← write e.pool h fun d ↦ { d with toAnalysis := d.toAnalysis.flag flags }
  pure { e with pool }

/-- Goes on where the sequence does, or else with the next target. -/
def step (e : Explorer) : Checked Explorer :=
  match e.cursor with
  | some pc => do
    let (_, e) ← visit r e pc ∅
    pure e
  | none =>
    match e.pending.back? with
    | none => pure e
    | some (source, target) => do
      let e := { e with pending := e.pending.pop }
      let known ← lookup r e.table target
      match known with
      | some h => revisit r e h source target
      | none => do
        let (_, e) ← visit r e target {.branchTarget}
        pure e

/-- Repeats `step` until nothing is left. -/
def advance : Nat → Explorer → Checked Explorer
  | fuel, e =>
    if e.cursor.isNone && e.pending.isEmpty then pure e
    else match fuel with
      | 0 => .error .endless
      | fuel + 1 => do advance fuel (← step r e)

/-- Describes what can be reached from the start, whose handle comes first. -/
def explore (p : Pool) : Checked (Handle × Explorer) := do
  let n ← words r
  let (h, e) ← visit r { pool := p, table := Array.replicate n none } r.start {.branchTarget}
  let e ← advance r (2 * n) e
  pure (h, e)

end Explore

/-! ### Required registers -/

/-- The required registers of a descriptor, where `live` may be read after it, and the registers
that may be read before it. -/
def requireOne (p : Pool) (h : Handle) (live : RegSet) : Checked (RegSet × Pool) := do
  let d ← read p h
  let p ← write p h fun d ↦ { d with toAnalysis := (d.toAnalysis.require live).1 }
  pure ((d.toAnalysis.require live).2, p)

/-- The same for a descriptor with its delay slot, which comes after the branch. -/
def requireSite (p : Pool) (h : Handle) (live : RegSet) : Checked (RegSet × Pool) := do
  let d ← read p h
  match d.delaySlot with
  | some k => do
    let (live, p) ← requireOne p k live
    requireOne p h live
  | none => requireOne p h live

/-- The same for a sequence, backwards. -/
def requireAll (p : Pool) : List Handle → Checked (RegSet × Pool)
  | [] => pure (.all, p)
  | h :: hs => do
    let (live, p) ← requireAll p hs
    requireSite p h live

/-! ### Linking -/

structure Linker where
  pool : Pool
  table : Table
  head : Option Handle := none
  tail : Option Handle := none
  /-- The handles of the sequence that has not ended yet. -/
  sequence : List Handle := []

namespace Linker

/-- What the next one of some entries has. -/
def next (l : Linker) : List Nat → Checked (Option Descriptor)
  | [] => pure none
  | i :: _ => do
    match ← entry l.table i with
    | none => pure none
    | some h => do
      let d ← read l.pool h
      pure (some d)

/-- Puts a descriptor at the end of the chain. -/
def append (l : Linker) (h : Handle) : Checked Linker :=
  match l.tail with
  | some tail => do
    let pool ← write l.pool tail fun d ↦ { d with next := some h }
    pure { l with pool, tail := some h }
  | none => pure { l with head := some h, tail := some h }

/-- Moves a descriptor from its entry, which is emptied, to the end of the chain. -/
def move (l : Linker) (i : Nat) (h : Handle) : Checked Linker := do
  let l ← l.append h
  let table ← setEntry l.table i none
  pure { l with table }

/-- Puts a descriptor at the end of the sequence, and computes the required registers of the
sequence if it ends there. -/
def extend (l : Linker) (h : Handle) : Checked Linker := do
  let d ← read l.pool h
  if d.endsSequence then do
    let (_, pool) ← requireAll l.pool (l.sequence ++ [h])
    pure { l with pool, sequence := [] }
  else pure { l with sequence := l.sequence ++ [h] }

end Linker

/-- What happens at the end of a range of the table. -/
inductive RangeEnd where
  /-- Falling off leaves the block, unless the range is all there is. -/
  | dispatch
  /-- Falling off comes back to the start. -/
  | wrap
  deriving DecidableEq

section Link

variable (r : Request)

/-- Whether the delay slot of a likely branch has an entry of its own before `stop`. -/
def slotDescribed (t : Table) (stop : Nat) (a : Analysis) : Checked Bool :=
  if .likelyBranch ∈ a.flags then do
    let pc := a.pc + BitVec.ofNat 64 a.length
    let inside ← contains r pc
    if inside then do
      let i ← index r pc
      if i < stop then do
        let known ← entry t i
        pure known.isSome
      else pure false
    else pure false
  else pure false

/-- How a range is left after its last instruction. -/
def exitOf (rangeEnd : RangeEnd) (a : Analysis) : Checked RangeExit :=
  match rangeEnd with
  | .wrap => pure .returnToStart
  | .dispatch =>
    if r.start = r.min then do
      let pc ← fallthrough a
      pure (if r.max ≤ pc then .returnToStart else .redispatch)
    else pure .redispatch

/-- The flags that an instruction gets for its position in a sequence and before `next`. -/
def endFlags (rangeEnd : RangeEnd) (t : Table) (stop position : Nat) (a : Analysis)
    (next : Option Descriptor) : Checked Flags := do
  let apart ← slotDescribed r t stop a
  let entered : Flags := if position = 0 then {.branchTarget} else ∅
  let seam : Flags :=
    if apart || next.any fun d ↦ .branchTarget ∈ d.flags then {.endSequence} else ∅
  let full : Flags := if r.config.maxSequence ≤ position + 1 then {.endSequence} else ∅
  match next with
  | some _ => pure (entered ∪ seam ∪ full)
  | none =>
    if .redispatch ∈ a.flags then pure (entered ∪ seam ∪ {.endSequence} ∪ full)
    else do
      let exit ← exitOf r rangeEnd a
      pure (entered ∪ seam ∪ {.endSequence, exit.flag} ∪ full)

/-- Links the descriptor of an entry; `rest` are the entries after it. -/
def linkEntry (rangeEnd : RangeEnd) (stop : Nat) (l : Linker) (i : Nat) (rest : List Nat) :
    Checked Linker := do
  match ← entry l.table i with
  | none => pure l
  | some h => do
    let next ← l.next rest
    let d ← read l.pool h
    let flags ← endFlags r rangeEnd l.table stop l.sequence.length d.toAnalysis next
    let pool ← write l.pool h fun d ↦ { d with toAnalysis := d.toAnalysis.flag flags }
    let l ← Linker.extend { l with pool } h
    l.move i h

/-- Links the descriptors of some entries in order. -/
def linkEntries (rangeEnd : RangeEnd) (stop : Nat) : Linker → List Nat → Checked Linker
  | l, [] => pure l
  | l, i :: rest => do linkEntries rangeEnd stop (← linkEntry r rangeEnd stop l i rest) rest

end Link

/-- The entries from `start` on that have a handle, among the next `n` ones. -/
def occupied (t : Table) (start : Nat) : Nat → Checked (List Nat)
  | 0 => pure []
  | n + 1 => do
    let known ← entry t start
    let more ← occupied t (start + 1) n
    pure (if known.isSome then start :: more else more)

section Build

variable (r : Request)

/-- Links what the table has from `start` to `stop`. -/
def linkRange (rangeEnd : RangeEnd) (start stop : Nat) (l : Linker) : Checked Linker := do
  let entries ← occupied l.table start (stop - start)
  linkEntries r rangeEnd stop { l with sequence := [] } entries

/-- Describes and links a block in the pool. The chain must begin with the start. -/
def build (p : Pool) : Checked (Handle × Pool) := do
  let (h, e) ← explore r p
  let split ← index r r.start
  let l ← linkRange r .dispatch split e.table.size { pool := e.pool, table := e.table }
  let l ← linkRange r .wrap 0 split l
  if l.head = some h then pure (h, l.pool) else .error .assertion

end Build

/-! ### Blocks -/

/-- What is wrong with three addresses that make no window. The size is only taken of bounds in
order. -/
def defect? (start min max : VirtAddr) : Checked (Option WindowDefect) :=
  if max ≤ min then pure (some .empty)
  else if start < min ∨ max ≤ start then pure (some .startOutside)
  else if ¬ start.IsAligned then pure (some .startUnaligned)
  else if ¬ min.IsAligned then pure (some .minUnaligned)
  else if ¬ max.IsAligned then pure (some .maxUnaligned)
  else do
    let size ← Checked.ofWord (max.sub? min)
    pure (if maxWindowBytes < size then some .tooLarge else none)

/-- Describes the code that can be reached from `start` between `min` and `max`. -/
def describeBlock (f : Frontend) (source : Source) (start min max : VirtAddr) :
    Checked (Except Error (Block × Frontend)) := do
  match ← defect? start min max with
  | some defect => pure (.error (defect.toError start min max))
  | none => do
    let (h, pool) ← build ⟨f.config, source, start, min, max⟩ f.pool
    pure (.ok (⟨h⟩, { f with pool }))

/-- Follows the links from `cursor` on. -/
def follow (p : Pool) : Nat → Option Handle → Checked (List (Handle × Descriptor))
  | _, none => pure []
  | 0, some _ => .error .endless
  | fuel + 1, some h => do
    let d ← read p h
    let rest ← follow p fuel d.next
    pure ((h, d) :: rest)

/-- The chain of a block. -/
def chain (f : Frontend) (b : Block) : Checked (List (Handle × Descriptor)) :=
  follow f.pool f.pool.slots.size (some b.head)

/-- Gives back a delay slot, which must not have one itself. -/
def releaseSlot (p : Pool) : Option Handle → Checked Pool
  | none => pure p
  | some k => do
    let d ← read p k
    if d.delaySlot.isNone then release p k else .error .assertion

/-- Gives back the descriptors that the links lead to from `cursor` on, each after its delay
slot. -/
def releaseFrom : Nat → Pool → Option Handle → Checked Pool
  | _, p, none => pure p
  | 0, _, some _ => .error .endless
  | fuel + 1, p, some h => do
    let d ← read p h
    let p ← releaseSlot p d.delaySlot
    let p ← release p h
    releaseFrom fuel p d.next

/-- Gives all descriptors of a block back. -/
def releaseBlock (f : Frontend) (b : Block) : Checked Frontend := do
  let pool ← releaseFrom f.pool.slots.size f.pool (some b.head)
  pure { f with pool }

end Builder

end MipsBlocks
