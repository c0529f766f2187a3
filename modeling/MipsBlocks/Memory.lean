import MipsBlocks.Source
import Std.Data.HashMap

/-!
# Guest memory

A concrete source of instructions: words stored at virtual addresses, with one word everywhere else,
ranges that are not mapped, and a constant distance between virtual and physical addresses. Where no
argument word is stored, the argument channel holds the same word as the operation channel.
-/

set_option autoImplicit false
set_option relaxedAutoImplicit false

namespace MipsBlocks

structure Memory where
  /-- The stored words of the operation channel, by virtual address. -/
  words : Std.HashMap Nat Word := {}
  /-- The stored words of the argument channel, by virtual address. -/
  arguments : Std.HashMap Nat Word := {}
  /-- The word wherever none is stored. -/
  fill : Word := 0#32
  /-- The ranges that are not mapped, without their upper ends. -/
  unmapped : List (VirtAddr × VirtAddr) := []
  /-- What a physical address has more than its virtual one. -/
  offset : BitVec 64 := 0#64
  /-- The only space with translations; all have them if there is none. -/
  space : Option AddressSpace := none

namespace Memory

/-- Stores words one after the other; later ones replace earlier ones. -/
def store (table : Std.HashMap Nat Word) (base : VirtAddr) (words : List Word) :
    Std.HashMap Nat Word :=
  (words.foldl (fun (table, place) word ↦ (table.insert place.toNat word, place + 4#64))
    (table, base)).1

def write (m : Memory) (base : VirtAddr) (words : List Word) : Memory :=
  { m with words := store m.words base words }

def writeArguments (m : Memory) (base : VirtAddr) (words : List Word) : Memory :=
  { m with arguments := store m.arguments base words }

def isUnmapped (m : Memory) (a : VirtAddr) : Bool :=
  m.unmapped.any fun (low, high) ↦ low ≤ a && a < high

def translate (m : Memory) (space : AddressSpace) (a : VirtAddr) : Option PhysAddr :=
  if m.space.any (· ≠ space) || m.isUnmapped a then none else some ⟨a.bits + m.offset⟩

/-- The virtual address of a physical one. -/
def virtual (m : Memory) (a : PhysAddr) : VirtAddr := ⟨a.bits - m.offset⟩

def fetchOpcode (m : Memory) (a : PhysAddr) : Word := m.words.getD (m.virtual a).toNat m.fill

def fetchArgument (m : Memory) (a : PhysAddr) : Word :=
  m.arguments.getD (m.virtual a).toNat (m.fetchOpcode a)

def toSource (m : Memory) : Source where
  translate := m.translate
  fetchOpcode := m.fetchOpcode
  fetchArgument := m.fetchArgument

end Memory

end MipsBlocks
