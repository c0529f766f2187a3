import MipsBlocks.Toml.Value

/-!
# Documents

A document is a list of lines: key-value pairs, headers of tables, and headers of elements of arrays
of tables (`Statement.ofText?`). The pairs before the first header belong to the document itself and
the others to the header before them, so a document is a list of sections (`Section.ofStatements`).
Each section is placed into the document in turn (`Section.place`): a table with a header must be
new, or only implied by the tables inside it, in which case it moves to the end.
-/

set_option autoImplicit false
set_option relaxedAutoImplicit false

namespace MipsBlocks

namespace Toml

/-! ### Lines -/

/-- A line of a document. -/
inductive Statement where
  | pair (key : DottedKey) (node : Node)
  /-- The header of a table. -/
  | table (key : DottedKey) (span : Span)
  /-- The header of an element of an array of tables. -/
  | element (key : DottedKey) (span : Span)

namespace Statement

/-- A header between `opening` and `closing` brackets. -/
def header? (opening closing : List Char) (make : DottedKey → Span → Statement) (c : Cursor) :
    Option (Statement × Cursor) := do
  let d ← c.expect? opening
  let (key, d) ← dottedKey? d
  let d ← d.expect? closing
  return (make key (c.spanTo d), ← d.lineEnd?)

/-- A line that is not blank. -/
def read? (c : Cursor) : Option (Statement × Cursor) :=
  match c.rest with
  | '[' :: '[' :: _ => header? ['[', '['] [']', ']'] element c
  | '[' :: _ => header? ['['] [']'] table c
  | _ => do
    let (key, node, c) ← keyValue? (value? maxNesting) c
    return (pair key node, ← c.lineEnd?)

/-- The lines of a text after those in `done`, in reverse order; `fuel` bounds their number. -/
def readAll? : Nat → List Statement → Cursor → Option (List Statement)
  | 0, _, _ => none
  | fuel + 1, done, c =>
    let c := c.skipBlanks
    match c.rest with
    | [] => some done.reverse
    | '#' :: _ | '\n' :: _ | '\r' :: _ => c.lineEnd?.bind (readAll? fuel done)
    | _ => (read? c).bind fun (statement, c) ↦ readAll? fuel (statement :: done) c

/-- The mark that may stand in front of a text. -/
def byteOrderMark : Char := '\ufeff'

/-- The lines of a text. -/
def ofText? (text : List Char) : Option (List Statement) :=
  let c := Cursor.start text
  let c := (c.expect? [byteOrderMark]).getD c
  readAll? (text.length + 1) [] c

end Statement

/-! ### Sections -/

/-- What a section of a document is placed at. -/
inductive Heading where
  /-- The document itself. -/
  | document
  | table (key : DottedKey) (span : Span)
  | element (key : DottedKey) (span : Span)

/-- A heading with the key-value pairs that belong to it. -/
structure Section where
  heading : Heading
  pairs : List (DottedKey × Node) := []

namespace Section

/-- The sections of a list of lines, the first one being that of the document itself. -/
def ofStatements (statements : List Statement) : List Section :=
  let (done, current) := statements.foldl step ([], ⟨.document, []⟩)
  (finish current :: done).reverse
where
  /-- Pairs are collected in reverse order. -/
  finish (s : Section) : Section := { s with pairs := s.pairs.reverse }
  step : List Section × Section → Statement → List Section × Section
    | (done, current), .pair key node =>
      (done, { current with pairs := (key, node) :: current.pairs })
    | (done, current), .table key span => (finish current :: done, ⟨.table key span, []⟩)
    | (done, current), .element key span => (finish current :: done, ⟨.element key span, []⟩)

/-- Adds the pairs of a section to entries. -/
def fill (s : Section) (entries : Entries) : Option Entries :=
  s.pairs.foldlM (fun entries (key, node) ↦ entries.assign key.path key.last node) entries

/-- The place of a section: from its header to the end of its last value. -/
def spanFrom (s : Section) (header : Span) : Span :=
  match (s.pairs.getLast?.bind fun (_, node) ↦ node.span?) with
  | some value => ⟨header.first, value.last⟩
  | none => header

/-- Places a section into a document. -/
def place (document : Entries) (s : Section) : Option Entries :=
  match s.heading with
  | .document => s.fill document
  | .table key span =>
    document.descend .header key.path fun entries ↦ do
      let inner ← match entries.lookup key.last.text with
        | none => some []
        | some (.table .implied _ inner) => some inner
        | some _ => none
      let inner ← s.fill inner
      return entries.erase key.last.text ++
        [(key.last, .table .header (s.spanFrom span) inner)]
  | .element key span =>
    document.descend .header key.path fun entries ↦ do
      let inner ← s.fill []
      entries.alter key.last fun
        | none => some (.tables [(s.spanFrom span, inner)])
        | some (.tables elements) => some (.tables (elements ++ [(s.spanFrom span, inner)]))
        | some _ => none

end Section

/-- The entries of the document that a text writes. -/
def parse? (text : String) : Option Entries := do
  let statements ← Statement.ofText? text.toList
  (Section.ofStatements statements).foldlM Section.place []

end Toml

end MipsBlocks
