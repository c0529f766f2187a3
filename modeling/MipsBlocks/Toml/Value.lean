import MipsBlocks.Toml.DateTime
import MipsBlocks.Toml.Table

/-!
# Keys and values

A value is a string, a number, a boolean, a date or time, an array or a table between braces. Arrays
may spread over lines and end with a comma; a table between braces may not. Arrays and tables
between braces nest up to `maxNesting` deep, and a dotted key has at most as many parts.
-/

set_option autoImplicit false
set_option relaxedAutoImplicit false

namespace MipsBlocks

namespace Toml

/-- How deep arrays and tables between braces may nest. -/
def maxNesting : Nat := 79

/-! ### Keys -/

/-- A part of a key. -/
def key? (c : Cursor) : Option (Key × Cursor) :=
  match c.rest with
  | '"' :: _ | '\'' :: _ =>
    (lineString? c).map fun (text, d) ↦ (⟨String.ofList text, c.spanTo d⟩, d)
  | _ =>
    match c.run isBareKeyChar with
    | ([], _) => none
    | (text, d) => some (⟨String.ofList text, c.spanTo d⟩, d)

/-- The parts of a key, with blanks around each; `fuel` bounds their number. -/
def keyPath? : Nat → Cursor → Option (List Key × Cursor)
  | 0, _ => none
  | fuel + 1, c => do
    let (key, c) ← key? c.skipBlanks
    let c := c.skipBlanks
    match c.rest with
    | '.' :: _ =>
      let (path, c) ← keyPath? fuel (c.drop 1)
      return (key :: path, c)
    | _ => return ([key], c)

/-- A key with its parts; the last one is told apart. -/
structure DottedKey where
  path : List Key
  last : Key

/-- The key with the given parts. -/
def DottedKey.ofParts? (parts : List Key) : Option DottedKey :=
  parts.getLast?.map fun last ↦ ⟨parts.dropLast, last⟩

/-- A dotted key. -/
def dottedKey? (c : Cursor) : Option (DottedKey × Cursor) := do
  let (parts, c) ← keyPath? maxNesting c
  return (← DottedKey.ofParts? parts, c)

/-! ### Values -/

/-- A value that is neither an array nor a table. -/
def scalar? (c : Cursor) : Option (Node × Cursor) :=
  match c.rest with
  | '"' :: _ | '\'' :: _ =>
    (string? c).map fun (text, d) ↦ (.string (c.spanTo d) (String.ofList text), d)
  | 't' :: _ => (c.expect? ['t', 'r', 'u', 'e']).map fun d ↦ (.bool (c.spanTo d) true, d)
  | 'f' :: _ => (c.expect? ['f', 'a', 'l', 's', 'e']).map fun d ↦ (.bool (c.spanTo d) false, d)
  | _ =>
    match dateTime? c with
    | some d => some (.dateTime (c.spanTo d), d)
    | none =>
      match float? c with
      | some (x, d) => some (.float (c.spanTo d) x, d)
      | none => (integer? c).map fun (n, d) ↦ (.integer (c.spanTo d) n, d)

/-- The rest of an array after the items `done` in reverse order; `fuel` bounds their number. -/
def items? (value? : Cursor → Option (Node × Cursor)) :
    Nat → List Node → Cursor → Option (List Node × Cursor)
  | 0, _, _ => none
  | fuel + 1, done, c => do
    let c ← c.skipLines? (c.rest.length + 1)
    match c.rest with
    | ']' :: _ => return (done.reverse, c.drop 1)
    | _ =>
      let (item, c) ← value? c
      let c ← c.skipLines? (c.rest.length + 1)
      match c.rest with
      | ',' :: _ => items? value? fuel (item :: done) (c.drop 1)
      | ']' :: _ => return ((item :: done).reverse, c.drop 1)
      | _ => none

/-- A key and its value. -/
def keyValue? (value? : Cursor → Option (Node × Cursor)) (c : Cursor) :
    Option (DottedKey × Node × Cursor) := do
  let (key, c) ← dottedKey? c
  let c ← c.expect? ['=']
  let (node, c) ← value? c.skipBlanks
  return (key, node, c)

/-- The rest of a table between braces that has `entries` so far; `fuel` bounds their number. -/
def fields? (value? : Cursor → Option (Node × Cursor)) :
    Nat → Entries → Cursor → Option (Entries × Cursor)
  | 0, _, _ => none
  | fuel + 1, entries, c => do
    let (key, node, c) ← keyValue? value? c
    let entries ← entries.assign key.path key.last node
    let c := c.skipBlanks
    match c.rest with
    | ',' :: _ => fields? value? fuel entries (c.drop 1)
    | '}' :: _ => return (entries, c.drop 1)
    | _ => none

/-- A value in which arrays and tables between braces nest at most `nesting` deep. -/
def value? : Nat → Cursor → Option (Node × Cursor)
  | 0, c => scalar? c
  | nesting + 1, c =>
    match c.rest with
    | '[' :: rest =>
      (items? (value? nesting) (rest.length + 1) [] (c.drop 1)).map fun (items, d) ↦
        (.array (c.spanTo d) items, d)
    | '{' :: rest =>
      let opened := (c.drop 1).skipBlanks
      match opened.rest with
      | '}' :: _ => let d := opened.drop 1; some (.table .braces (c.spanTo d) [], d)
      | _ =>
        (fields? (value? nesting) (rest.length + 1) [] opened).map fun (entries, d) ↦
          (.table .braces (c.spanTo d) entries, d)
    | _ => scalar? c

end Toml

end MipsBlocks
