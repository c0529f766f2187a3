import MipsBlocks.Toml.Format

/-!
# Places in a text

A `Cursor` is what is left of a text together with the number of bytes before it. A reader takes a
cursor and gives what it read and the cursor behind it, or nothing when the text is not of the form
it reads; `split` and `run` move a cursor over a number of characters and over the longest run of a
class of characters.
-/

set_option autoImplicit false
set_option relaxedAutoImplicit false

namespace MipsBlocks

namespace Toml

/-- The number of bytes of a text. -/
def byteSize (text : List Char) : Nat := text.foldl (fun n c ↦ n + c.utf8Size) 0

structure Cursor where
  /-- What is left of the text. -/
  rest : List Char
  /-- The number of bytes before it. -/
  pos : Nat
  deriving DecidableEq

namespace Cursor

/-- The start of a text. -/
def start (text : List Char) : Cursor := ⟨text, 0⟩

/-- The bytes between two cursors. -/
def spanTo (c d : Cursor) : Span := ⟨c.pos, d.pos⟩

/-- The next `n` characters. -/
def split (c : Cursor) (n : Nat) : List Char × Cursor :=
  let taken := c.rest.take n
  (taken, ⟨c.rest.drop n, c.pos + byteSize taken⟩)

/-- The cursor behind the next `n` characters. -/
def drop (c : Cursor) (n : Nat) : Cursor := (c.split n).2

/-- The longest run of characters of a class. -/
def run (c : Cursor) (p : Char → Bool) : List Char × Cursor :=
  let taken := c.rest.takeWhile p
  (taken, ⟨c.rest.dropWhile p, c.pos + byteSize taken⟩)

/-- The cursor behind the longest run of characters of a class. -/
def skip (c : Cursor) (p : Char → Bool) : Cursor := (c.run p).2

/-- The cursor behind the given characters. -/
def expect? (c : Cursor) (text : List Char) : Option Cursor :=
  if text.isPrefixOf c.rest then some (c.drop text.length) else none

/-! ### Blanks, comments and the ends of lines -/

def isBlank (c : Char) : Bool := c = ' ' || c = '\t'

/-- Whether a character can stand in a comment. -/
def isComment (c : Char) : Bool := isTextChar c

/-- The cursor behind blanks. -/
def skipBlanks (c : Cursor) : Cursor := c.skip isBlank

/-- The cursor behind the end of a line. -/
def newline? (c : Cursor) : Option Cursor :=
  match c.rest with
  | '\n' :: _ => some (c.drop 1)
  | '\r' :: '\n' :: _ => some (c.drop 2)
  | _ => none

/-- The cursor behind a comment, if there is one. -/
def skipComment (c : Cursor) : Cursor :=
  match c.rest with
  | '#' :: _ => c.skip isComment
  | _ => c

/-- The cursor behind the blanks and the comment that end a line. -/
def lineEnd? (c : Cursor) : Option Cursor :=
  let c := c.skipBlanks.skipComment
  match c.rest with
  | [] => some c
  | _ => c.newline?

/-- The cursor behind blanks, comments and ends of lines; `fuel` bounds the number of lines. -/
def skipLines? : Nat → Cursor → Option Cursor
  | 0, c => some c
  | fuel + 1, c =>
    let c := c.skipBlanks
    match c.rest with
    | '#' :: _ | '\n' :: _ | '\r' :: _ => c.skipComment.newline?.bind (skipLines? fuel)
    | _ => some c

end Cursor

end Toml

end MipsBlocks
