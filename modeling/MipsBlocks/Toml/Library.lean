import MipsBlocks.Toml.Format

/-!
# Libraries

Texts are read by a library that is not part of the frontend. A `Library` reads a text as a list of
keys with values (`parse`), natural numbers and names as values (`number`, `choice`), and a record
from the keys that are the names of its fields (`record`). What the fields of a record are and how
each of them is read is its `RecordShape`, which comes from the user of the library.

`Library.Lawful` is what users rely on: lines of distinct keys are read as these keys with their
values, in some order, and a record is made of its fields that are there, if they can be read. It
says nothing of other documents, nor of what is refused and with which message.
-/

set_option autoImplicit false
set_option relaxedAutoImplicit false

namespace MipsBlocks

namespace Toml

/-- Why a text is refused, and where, if that is known. -/
structure Refusal where
  message : String
  span : Option Span := none
  deriving DecidableEq

/-- The natural numbers below `size`, with the name of the range. -/
structure NatRange where
  name : String
  size : Nat

namespace NatRange

def byte : NatRange := ⟨"u8", UInt8.size⟩
def word : NatRange := ⟨"u32", UInt32.size⟩
def doubleWord : NatRange := ⟨"usize", UInt64.size⟩

end NatRange

/-- How a record is made of fields with names, each of which may be missing. -/
structure RecordShape (Value Field Record : Type) where
  fields : List Field
  name : Field → String
  mem_fields : ∀ f, f ∈ fields
  name_injective : ∀ f g, name f = name g → f = g
  /-- What a field holds. -/
  Content : Field → Type
  /-- The content of a field with a value. -/
  read : (f : Field) → Value → Except Refusal (Content f)
  /-- The record with the contents of the fields that are there. -/
  make : ((f : Field) → Option (Content f)) → Record

structure Library where
  Value : Type
  /-- The integer or the string that a value is. -/
  scalar? : Value → Option Scalar
  /-- The keys and values of a document. -/
  parse : String → Except Refusal (List (String × Value))
  /-- The number of a range that a value is. -/
  number : NatRange → Value → Except Refusal Nat
  /-- The one of some choices with names that a value names. -/
  choice : {α : Type} → List α → (α → String) → Value → Except Refusal α
  /-- The record that keys and values give. -/
  record : {Field Record : Type} → [DecidableEq Field] →
    RecordShape Value Field Record → List (String × Value) → Except Refusal Record

namespace Library

/-- The record that a text gives. -/
def read (lib : Library) {Field Record : Type} [DecidableEq Field]
    (shape : RecordShape lib.Value Field Record) (text : String) : Except Refusal Record := do
  lib.record shape (← lib.parse text)

/-- What is relied on of a library. -/
structure Lawful (lib : Library) : Prop where
  /-- A document of lines has their keys and values; it is not known in which order. -/
  parse_writeLines : ∀ (ended : Bool) (lines : List Line), (∀ l ∈ lines, l.Valid) →
    (lines.map (·.key)).Nodup → ∃ entries,
      lib.parse (String.ofList (writeLines ended lines)) = .ok entries ∧
        (entries.map fun e ↦ (e.1, lib.scalar? e.2)).Perm
          (lines.map fun l ↦ (l.key, some l.value))
  /-- An integer of a range is read as the number that it is. -/
  number_integer : ∀ (r : NatRange) (v : lib.Value) (n : Nat),
    lib.scalar? v = some (.integer n) → n < r.size → lib.number r v = .ok n
  /-- A name is read as the choice that it names. -/
  choice_string : ∀ {α : Type} (choices : List α) (name : α → String) (v : lib.Value) (a : α),
    lib.scalar? v = some (.string (name a)) → choices.find? (name · = name a) = some a →
      lib.choice choices name v = .ok a
  /-- A record is made of the fields whose names are keys, if the contents of all of these can be
  read; keys that are no names are passed over. -/
  record_of_read : ∀ {Field Record : Type} [DecidableEq Field]
    (shape : RecordShape lib.Value Field Record) (entries : List (String × lib.Value))
    (given : (f : Field) → Option (shape.Content f)), (entries.map (·.1)).Nodup →
      (∀ f, (entries.lookup (shape.name f)).mapM (shape.read f) = .ok (given f)) →
        lib.record shape entries = .ok (shape.make given)

end Library

end Toml

end MipsBlocks
