import MipsBlocks.Block.Outline
import MipsBlocks.Pool

/-!
# The frontend

A frontend keeps a valid configuration and a pool. `Frontend.describeBlock` describes the code of a
window: the outline of the block is worked out first and then installed in the pool, one descriptor
for every analysis, acquired in the order in which the analyses were made and linked in the order of
the chain. `Frontend.chain` follows the links of a block and `Frontend.releaseBlock` gives all its
descriptors back.

An address that cannot be fetched is described by a stand-in; only three addresses that make no
window are an error.
-/

set_option autoImplicit false
set_option relaxedAutoImplicit false

namespace MipsBlocks

/-! ### Chains in a pool -/

namespace Pool

/-- Links a site into the pool: its descriptors are those with its number, and `next` follows it in
the chain. -/
def install (p : Pool) (handles : Array Handle) (site : Site) (next : Option Handle) : Pool :=
  match handles[site.order]?, site.slot with
  | some h, none => p.put h { site.node with next }
  | some h, some slot =>
    let k := handles[site.order + 1]?
    let p := p.put h { site.node with next, delaySlot := k }
    match k with
    | some k => p.put k { slot with owner := some h }
    | none => p
  | none, _ => p

/-- Links all sites of a chain, from the last one to the first. -/
def installAll (p : Pool) (handles : Array Handle) (sites : List Site) : Pool :=
  (sites.foldr (fun site (p, next) ↦ (p.install handles site next, handles[site.order]?))
    (p, none)).1

/-- The descriptors from `cursor` on, at most `fuel` of them, after those in `done`. -/
def follow (p : Pool) (fuel : Nat) (cursor : Option Handle) (done : Array (Handle × Descriptor)) :
    Array (Handle × Descriptor) :=
  match fuel, cursor with
  | fuel + 1, some h =>
    match p.get? h with
    | some d => follow p fuel d.next (done.push (h, d))
    | none => done
  | _, _ => done

/-- Gives back a descriptor after its delay slot. -/
def releaseSite (p : Pool) (h : Handle) (d : Descriptor) : Pool :=
  match d.delaySlot with
  | some slot => (p.release slot).release h
  | none => p.release h

end Pool

/-! ### Frontends -/

/-- A described block, known by the first descriptor of its chain. -/
structure Block where
  head : Handle
  deriving DecidableEq

structure Frontend where
  config : Config
  valid : config.Valid
  pool : Pool := {}

namespace Frontend

/-- A frontend with an empty pool. -/
def create (config : Config) : Except Error Frontend :=
  config.validate.map fun ⟨config, valid⟩ ↦ { config, valid }

/-- Gives the analyses of an outline their descriptors. The first analysis is that of the start. -/
def install (f : Frontend) (o : Outline) : Block × Frontend :=
  match f with
  | ⟨config, valid, pool⟩ =>
    let acquired := pool.acquireAll o.trace
    have nonempty : 0 < acquired.1.size := by
      rw [Pool.size_acquireAll]
      exact o.trace_size_pos
    (⟨acquired.1[0]⟩, ⟨config, valid, acquired.2.installAll acquired.1 o.sites⟩)

/-- Describes the code of a window. -/
def describeWindow (f : Frontend) (source : Source) (w : Window) : Block × Frontend :=
  f.install (Outline.describe f.config source w)

/-- Describes the code that can be reached from `start` between `min` and `max`. -/
def describeBlock (f : Frontend) (source : Source) (start min max : VirtAddr) :
    Except Error (Block × Frontend) :=
  match Window.check start min max with
  | .ok w => .ok (f.describeWindow source w)
  | .error defect => .error (defect.toError start min max)

/-- Describes the code around `start`, in a window of the configured size that stops at the ends of
the address space. -/
def describeCode (f : Frontend) (source : Source) (start : VirtAddr) :
    Except Error (Block × Frontend) :=
  f.describeBlock source start (start.saturatingSub f.config.windowStart)
    (start.saturatingAdd f.config.windowEnd).alignDown

/-- The chain of a block: its descriptors in order, without the delay slots. -/
def chain (f : Frontend) (b : Block) : List (Handle × Descriptor) :=
  (f.pool.follow f.pool.slots.size (some b.head) #[]).toList

/-- Gives all descriptors of a block back. -/
def releaseBlock (f : Frontend) (b : Block) : Frontend :=
  { f with pool := (f.chain b).foldl (fun p (h, d) ↦ p.releaseSite h d) f.pool }

def descriptor? (f : Frontend) (h : Handle) : Option Descriptor := f.pool.get? h

def poolStats (f : Frontend) : PoolStats := f.pool.stats

end Frontend

end MipsBlocks
