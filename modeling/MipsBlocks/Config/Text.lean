import MipsBlocks.Config.Basic
import MipsBlocks.Toml.Library

/-!
# Configurations as text

A configuration text is a document whose entries give the fields of a configuration; a field that is
not there has its default, and other entries are ignored. `Config.shape` tells a library what the
fields are called and what they hold. `Config.ofText` is the configuration that a library reads from
a text, if it is valid: a text that the library refuses is reported with the library's message, and
a configuration that is not valid with its first defect.
-/

set_option autoImplicit false
set_option relaxedAutoImplicit false

namespace MipsBlocks

open Toml (Library Refusal RecordShape Span)

namespace ConfigField

/-- What a field holds. -/
def Content : ConfigField → Type
  | flavor => Flavor
  | windowStart => Nat
  | windowEnd => Nat
  | maxSequence => Nat
  | maxStackDepth => Nat
  | pageShift => Nat
  | addressSpace => AddressSpace

/-- The content of a field with a value. -/
def read (lib : Library) : (f : ConfigField) → lib.Value → Except Refusal f.Content
  | flavor => lib.choice Flavor.all Flavor.name
  | windowStart => lib.number .word
  | windowEnd => lib.number .word
  | maxSequence => lib.number .word
  | maxStackDepth => lib.number .doubleWord
  | pageShift => lib.number .byte
  | addressSpace => lib.choice AddressSpace.all AddressSpace.name

theorem mem_all (f : ConfigField) : f ∈ all := by cases f <;> decide

theorem name_injective (f g : ConfigField) (h : f.name = g.name) : f = g := by
  rw [← Option.some.injEq, ← ofName?_name, h, ofName?_name]

end ConfigField

namespace Config

/-- The configuration with the given fields; the others have their defaults. -/
def withDefaults (given : (f : ConfigField) → Option f.Content) : Config :=
  let default : Config := {}
  { flavor := (given .flavor).getD default.flavor
    windowStart := (given .windowStart).getD default.windowStart
    windowEnd := (given .windowEnd).getD default.windowEnd
    maxSequence := (given .maxSequence).getD default.maxSequence
    maxStackDepth := (given .maxStackDepth).getD default.maxStackDepth
    pageShift := (given .pageShift).getD default.pageShift
    addressSpace := (given .addressSpace).getD default.addressSpace }

/-- A configuration as a record. -/
def shape (lib : Library) : RecordShape lib.Value ConfigField Config where
  fields := ConfigField.all
  name := ConfigField.name
  mem_fields := ConfigField.mem_all
  name_injective := ConfigField.name_injective
  Content := ConfigField.Content
  read := ConfigField.read lib
  make := withDefaults

end Config

/-- The error for a text that is refused. -/
def Toml.Refusal.toError (r : Refusal) : Error := .core (.config r.message (r.span.map Span.text))

/-- The valid configuration that a library reads from a text. -/
def Config.ofText (lib : Library) (text : String) : Except Error { c : Config // c.Valid } := do
  let c ← (lib.read (shape lib) text).mapError Refusal.toError
  c.validate

end MipsBlocks
