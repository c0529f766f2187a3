import MipsBlocks.Decimal.Positional
import MipsBlocks.Text.Quoted
import MipsBlocks.Toml.Document
import MipsBlocks.Toml.Library

/-!
# A library that reads documents

`Toml.reader` reads a text as the document that it is (`parse?`) and the fields of a record in the
order of the document. The first value that does not fit its field is refused, with its place; keys
that are the names of no fields are passed over whatever their values are.

A value that has to be one of some names may also be a table with that name as its only key and an
empty table as its value.
-/

set_option autoImplicit false
set_option relaxedAutoImplicit false

namespace MipsBlocks

namespace Toml

/-! ### Values that do not fit -/

/-- Why a value does not fit its field. -/
inductive Misfit where
  /-- An integer out of range; `expected` names the range. -/
  | outOfRange (n : Int) (expected : String)
  /-- A value that is no integer, described by `found`. -/
  | notInteger (found expected : String)
  /-- A name that is none of `expected`. -/
  | unknownName (name : String) (expected : List String)
  /-- Neither a string nor a table. -/
  | notName
  /-- A table without keys instead of a name. -/
  | noKey
  /-- A table with several keys instead of a name. -/
  | severalKeys
  /-- The value of the key is a table or an array that is not empty. -/
  | notEmpty
  /-- The value of the key is an array of tables. -/
  | notEmptyArray
  /-- The value of the key is no table but is described by `found`. -/
  | notTable (found : String)
  deriving DecidableEq

namespace Misfit

/-- A text between backquotes. -/
private def code (text : String) : String := "`" ++ text ++ "`"

def message : Misfit → String
  | outOfRange n expected =>
    "invalid value: integer " ++ code (toString n) ++ ", expected " ++ expected
  | notInteger found expected => "invalid type: " ++ found ++ ", expected " ++ expected
  | unknownName name expected =>
    "unknown variant " ++ code name ++ ", expected one of " ++
      ", ".intercalate (expected.map code)
  | notName => "wanted string or table"
  | noKey => "wanted exactly 1 element, found 0 elements"
  | severalKeys => "wanted exactly 1 element, more than 1 element"
  | notEmpty => "expected empty table"
  | notEmptyArray => "expected empty array"
  | notTable found => "expected table, found " ++ found

end Misfit

/-- A misfit with its place; without one the value of the field is meant. -/
structure LocatedMisfit where
  misfit : Misfit
  span : Option Span := none
  deriving DecidableEq

namespace LocatedMisfit

/-- The place is that of the misfit itself, or of the value of the field, or of its key. -/
def within (m : LocatedMisfit) (key : Key) (node : Node) : LocatedMisfit :=
  { m with span := (m.span.or node.span?).or (some key.span) }

def refusal (m : LocatedMisfit) : Refusal := ⟨m.misfit.message, m.span⟩

end LocatedMisfit

/-! ### Reading values -/

/-- What a value that is no integer is called. -/
def describeNode : Node → String
  | .string _ text => "string " ++ quoted text
  | .integer _ n => "integer `" ++ toString n ++ "`"
  | .float _ x => "floating point `" ++ x.text ++ "`"
  | .bool _ b => "boolean `" ++ toString b ++ "`"
  | .dateTime _ => "map"
  | .array .. => "sequence"
  | .table .. => "map"
  | .tables _ => "sequence"

/-- The number of a range that a value is. -/
def readNat (r : NatRange) : Node → Except LocatedMisfit Nat
  | .integer _ n =>
    if 0 ≤ n ∧ n < r.size then .ok n.toNat else .error { misfit := .outOfRange n r.name }
  | node => .error { misfit := .notInteger (describeNode node) r.name }

/-- Checks the value of the only key of a table that stands for a name: it must be empty. -/
def checkEmpty : Node → Except LocatedMisfit Unit
  | .table _ span entries =>
    if entries.isEmpty then .ok () else .error { misfit := .notEmpty, span }
  | .array span items =>
    if items.isEmpty then .ok () else .error { misfit := .notEmpty, span := some span }
  | .tables elements => .error { misfit := .notEmptyArray, span := Node.span? (.tables elements) }
  | .string span _ => .error { misfit := .notTable "string", span := some span }
  | .integer span _ => .error { misfit := .notTable "integer", span := some span }
  | .float span _ => .error { misfit := .notTable "float", span := some span }
  | .bool span _ => .error { misfit := .notTable "boolean", span := some span }
  | .dateTime span => .error { misfit := .notTable "datetime", span := some span }

/-- The one of the `choices`, which have names, that a value names. -/
def readName {α : Type} (choices : List α) (name : α → String) :
    Node → Except LocatedMisfit α
  | .string _ text => choose text none
  | .table _ span entries =>
    match entries with
    | [] => .error { misfit := .noKey, span }
    | [(key, node)] => do
      let choice ← choose key.text (some key.span)
      checkEmpty node
      return choice
    | _ => .error { misfit := .severalKeys, span }
  | _ => .error { misfit := .notName }
where
  /-- The choice with a name. -/
  choose (text : String) (span : Option Span) : Except LocatedMisfit α :=
    match choices.find? (name · = text) with
    | some choice => .ok choice
    | none => .error { misfit := .unknownName text (choices.map name), span }

/-! ### Reading records -/

/-- What a value is read as; what does not fit is located with the help of its key. -/
def readEntry {α : Type} (read : Node → Except LocatedMisfit α) (entry : Key × Node) :
    Except Refusal α :=
  (read entry.2).mapError fun m ↦ (m.within entry.1 entry.2).refusal

namespace RecordShape

variable {Value Field Record : Type} (shape : RecordShape Value Field Record)

/-- The field with a name. -/
def field? (name : String) : Option Field := shape.fields.find? (shape.name · = name)

variable [DecidableEq Field]

/-- The contents of the fields so far, and that of one more. -/
def give (given : (f : Field) → Option (shape.Content f)) (f : Field) (x : shape.Content f) :
    (g : Field) → Option (shape.Content g) :=
  fun g ↦ if h : f = g then some (h ▸ x) else given g

/-- The contents of the fields so far, and that of the field whose name is a key. -/
def readField (given : (f : Field) → Option (shape.Content f)) (entry : String × Value) :
    Except Refusal ((f : Field) → Option (shape.Content f)) :=
  match shape.field? entry.1 with
  | some f => return shape.give given f (← shape.read f entry.2)
  | none => .ok given

/-- The record that keys and values give, which are read in order. -/
def readAll (entries : List (String × Value)) : Except Refusal Record :=
  (entries.foldlM shape.readField fun _ ↦ none).map shape.make

end RecordShape

/-! ### The library -/

/-- The integer or the string that a value is. -/
def Node.scalar? : Node → Option Scalar
  | .integer _ n => some (.integer n)
  | .string _ text => some (.string text)
  | _ => none

/-- The library; `unreadable` is what is said of a text that is no document. -/
def reader (unreadable : Refusal) : Library where
  Value := Key × Node
  scalar? entry := entry.2.scalar?
  parse text :=
    match parse? text with
    | some entries => .ok (entries.map fun entry ↦ (entry.1.text, entry))
    | none => .error unreadable
  number r := readEntry (readNat r)
  choice choices name := readEntry (readName choices name)
  record shape := shape.readAll

end Toml

end MipsBlocks
