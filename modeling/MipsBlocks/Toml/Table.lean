import MipsBlocks.Decimal.Binary
import MipsBlocks.Toml.Cursor

/-!
# Tables

A table is a list of entries in the order in which their keys first appeared. `Entries.alter`
changes the value of one key, and `Entries.descend` does so at the end of a path of keys, making the
tables on the way that are not there yet.

What a path may enter depends on how it is written (`Descent`). A dotted key stays within the tables
that dotted keys make: it may pass through a table that only the header of an inner table implies,
or through the last table of an array, but it cannot add entries to them, and it never enters a
table that has a header of its own. A header may enter every table but those between braces.
-/

set_option autoImplicit false
set_option relaxedAutoImplicit false

namespace MipsBlocks

namespace Toml

/-- A part of a key, with its place. -/
structure Key where
  text : String
  span : Span
  deriving DecidableEq

/-- How a table came to be. -/
inductive Origin where
  /-- By a dotted key. -/
  | dotted
  /-- By the header of a table inside it. -/
  | implied
  /-- By a header of its own. -/
  | header
  /-- Between braces. -/
  | braces
  deriving DecidableEq

inductive Node where
  | string (span : Span) (text : String)
  | integer (span : Span) (n : Int)
  | float (span : Span) (x : Binary64)
  | bool (span : Span) (b : Bool)
  | dateTime (span : Span)
  | array (span : Span) (items : List Node)
  /-- A table; those made by dotted keys and those only implied have no place. -/
  | table (origin : Origin) (span : Option Span) (entries : List (Key × Node))
  /-- An array of tables made by headers. -/
  | tables (elements : List (Span × List (Key × Node)))

/-- The entries of a table in order. -/
abbrev Entries := List (Key × Node)

/-- The place of a value. -/
def Node.span? : Node → Option Span
  | string span _ => some span
  | integer span _ => some span
  | float span _ => some span
  | bool span _ => some span
  | dateTime span => some span
  | array span _ => some span
  | table _ span _ => span
  | tables elements =>
    match elements.head?, elements.getLast? with
    | some (first, _), some (last, _) => some ⟨first.first, last.last⟩
    | _, _ => none

namespace Entries

/-- The value of a key. -/
def lookup (key : String) (entries : Entries) : Option Node :=
  (entries.find? (·.1.text = key)).map (·.2)

/-- The entries without a key. -/
def erase (key : String) (entries : Entries) : Entries := entries.filter (·.1.text ≠ key)

/-- Replaces the value of a key, or adds the key at the end. -/
def alter (key : Key) (f : Option Node → Option Node) : Entries → Option Entries
  | [] => (f none).map fun node ↦ [(key, node)]
  | (k, node) :: entries =>
    if k.text = key.text then (f (some node)).map fun node ↦ (k, node) :: entries
    else (alter key f entries).map ((k, node) :: ·)

/-- Adds a key that is not there yet. -/
def insertNew (key : Key) (node : Node) (entries : Entries) : Option Entries :=
  entries.alter key fun
    | none => some node
    | some _ => none

end Entries

/-- How a path of keys is written. -/
inductive Descent where
  /-- In front of the last part of a dotted key. -/
  | dotted
  /-- In front of the last part of a header. -/
  | header
  deriving DecidableEq

namespace Descent

/-- The origin of the tables made on the way. -/
def origin : Descent → Origin
  | dotted => .dotted
  | header => .implied

/-- Whether a path may enter a table, as the `last` one or to go further. -/
def enters (d : Descent) (last : Bool) (o : Origin) : Bool :=
  match d, o with
  | dotted, .dotted => true
  | dotted, .implied => !last
  | dotted, _ => false
  | header, .braces => false
  | header, _ => true

/-- Whether a path may enter the last table of an array. -/
def entersArray (d : Descent) (last : Bool) : Bool :=
  match d with
  | dotted => !last
  | header => true

end Descent

namespace Entries

/-- Changes the entries at the end of a path. -/
def descend (d : Descent) : List Key → (Entries → Option Entries) → Entries → Option Entries
  | [], f, entries => f entries
  | key :: path, f, entries =>
    entries.alter key fun
      | none => (descend d path f []).map (.table d.origin none)
      | some (.table origin span inner) =>
        if d.enters path.isEmpty origin then (descend d path f inner).map (.table origin span)
        else none
      | some (.tables elements) =>
        match elements.getLast? with
        | some (span, inner) =>
          if d.entersArray path.isEmpty then
            (descend d path f inner).map fun inner ↦
              .tables (elements.dropLast ++ [(span, inner)])
          else none
        | none => none
      | some _ => none

/-- Adds a value under a dotted key. -/
def assign (path : List Key) (key : Key) (node : Node) (entries : Entries) : Option Entries :=
  entries.descend .dotted path (insertNew key node)

end Entries

end Toml

end MipsBlocks
