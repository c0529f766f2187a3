import MipsBlocks.Block.Site

/-!
# Sequences

The sites of a range of addresses are cut into native code sequences, each of which is entered at
its first site and left at its last one. There is a cut after a site that ends its sequence anyway,
before a branch target, and after a likely branch whose delay slot is also a site of its own
(`joined`); what is left in one piece is cut again where it is longer than the limit
(`inPieces`). `delimit` marks the two ends of a sequence.

`require` computes, backwards over a sequence, which written registers may be read before they are
written again. All registers may be read after the last site, and at a branch all of them are.
-/

set_option autoImplicit false
set_option relaxedAutoImplicit false

namespace MipsBlocks

/-- The sites of one native code sequence, in order. -/
abbrev Sequence := List Site

namespace Sequence

/-- Whether a site and the next one of its range can be in one sequence. -/
def joined (a b : Site) : Bool :=
  !(a.node.endsSequence || .branchTarget ∈ b.node.flags ||
    (.likelyBranch ∈ a.node.flags &&
      a.node.pc + BitVec.ofNat 64 a.node.length = b.node.pc))

/-- The pieces of a sequence, all but the last one `limit` long. -/
def inPieces (limit : Nat) (s : Sequence) : List Sequence :=
  go s []
where
  /-- Cuts `limit` sites off as long as there are any. -/
  go (rest : Sequence) (done : List Sequence) : List Sequence :=
    match rest with
    | [] => done.reverse
    | a :: rest => go (rest.drop (limit - 1)) ((a :: rest.take (limit - 1)) :: done)
  termination_by rest.length
  decreasing_by simp only [List.length_cons, List.length_drop]; omega

/-- The sites of a range, cut into sequences of at most `limit` sites. -/
def cut (limit : Nat) (sites : List Site) : List Sequence :=
  (sites.splitBy joined).flatMap (inPieces limit)

/-- Gives the last site more flags. -/
def flagLast (flags : Flags) (s : Sequence) : Sequence :=
  match s.getLast? with
  | some last => s.dropLast ++ [last.flag flags]
  | none => []

/-- Gives the first site more flags. -/
def flagFirst (flags : Flags) : Sequence → Sequence
  | first :: rest => first.flag flags :: rest
  | [] => []

/-- Marks the entry and the end of a sequence. -/
def delimit (s : Sequence) : Sequence := flagFirst {.branchTarget} (flagLast {.endSequence} s)

end Sequence

/-! ### Required registers -/

/-- The required registers of an instruction, where `live` may be read after it, and the registers
that may be read before it. -/
def Analysis.require (a : Analysis) (live : RegSet) : Analysis × RegSet :=
  let live := if a.isBranch then .all else live
  ({ a with required := a.writes ∩ live }, live.replace a.writes a.reads)

/-- The required registers of a site; its delay slot comes after the branch. -/
def Site.require (s : Site) (live : RegSet) : Site × RegSet :=
  match s.slot with
  | some slot =>
    let (slot, live) := slot.require live
    let (node, live) := s.node.require live
    ({ s with node, slot := some slot }, live)
  | none =>
    let (node, live) := s.node.require live
    ({ s with node }, live)

/-- The required registers of a sequence. -/
def Sequence.require (s : Sequence) : Sequence :=
  (s.foldr (fun site (done, live) ↦
    let (site, live) := site.require live
    (site :: done, live)) ([], RegSet.all)).1

end MipsBlocks
