import MipsBlocks.Instruction.Assembler
import MipsBlocks.Proofs.Frontend.Block
import Mathlib.Data.List.Pairwise

/-!
# Sessions

A session is a frontend with the blocks that were described and not yet released. `Session.run`
starts with an empty pool and makes calls one after the other (`Session.Op`); a call that fails
changes nothing, and a block that was released is held no more, so it is released at most once.

In every state that a session can reach the held blocks own the slots in use, each slot once
(`Session.Sound`, `sound_run`). A call leaves the held blocks as they are (`carries_step`), and the
pool has as many slots as were ever in use together (`allocated_step`, `isPeak_run`).
-/

set_option autoImplicit false
set_option relaxedAutoImplicit false

namespace MipsBlocks

namespace Frontend

/-- A block has the same chain and the same descriptors in both frontends. -/
structure Keeps (f f' : Frontend) (b : Block) : Prop where
  chain : f'.chain b = f.chain b
  descriptor : ∀ h ∈ f.owned b, f'.descriptor? h = f.descriptor? h

variable {f f' : Frontend} {b : Block}

theorem Keeps.owned (h : f.Keeps f' b) : f'.owned b = f.owned b := by
  rw [Frontend.owned, Frontend.owned, h.chain]

theorem size_follow_le (p : Pool) (fuel : Nat) (cursor : Option Handle)
    (done : Array (Handle × Descriptor)) :
    (p.follow fuel cursor done).size ≤ done.size + fuel := by
  induction fuel generalizing cursor done with
  | zero => exact Nat.le_refl _
  | succ fuel ih =>
    cases cursor with
    | none => simp [Pool.follow]
    | some h =>
      rw [Pool.follow]
      cases p.get? h with
      | none => exact Nat.le_add_right _ _
      | some d =>
        refine Nat.le_trans (ih _ _) ?_
        rw [Array.size_push]
        omega

theorem length_chain_le (f : Frontend) (b : Block) :
    (f.chain b).length ≤ f.pool.slots.size := by
  have hsize := size_follow_le f.pool f.pool.slots.size (some b.head) #[]
  rw [chain, Array.length_toList]
  simpa using hsize

theorem mem_owned {e : Handle × Descriptor} (he : e ∈ f.chain b) : e.1 ∈ f.owned b :=
  List.mem_flatMap.mpr ⟨e, he, List.mem_append.mpr (.inr (List.mem_singleton.mpr rfl))⟩

/-- A block is kept where its slots are, in a pool that does not shrink. -/
theorem Complete.keeps (hb : f.Complete b)
    (hget : ∀ h ∈ f.owned b, f'.pool.get? h = f.pool.get? h)
    (hsize : f.pool.slots.size ≤ f'.pool.slots.size) : f'.Complete b ∧ f.Keeps f' b := by
  have hchain : f'.pool.Chain (some b.head) (f.chain b) :=
    Pool.Chain.congr hb fun e he ↦ hget _ (mem_owned he)
  have heq := chain_eq hchain (Nat.le_trans (f.length_chain_le b) hsize)
  refine ⟨?_, heq, hget⟩
  rw [Complete, heq]
  exact hchain

/-! ### Releasing a block -/

theorem releaseSite_eq (p : Pool) (e : Handle × Descriptor) :
    p.releaseSite e.1 e.2 = (handlesOf e).foldl Pool.release p := by
  rw [Pool.releaseSite, handlesOf]
  cases e.2.delaySlot <;> rfl

theorem pool_releaseBlock (f : Frontend) (b : Block) :
    (f.releaseBlock b).pool = (f.owned b).foldl Pool.release f.pool := by
  rw [owned, List.foldl_flatMap]
  show (f.chain b).foldl (fun p e ↦ p.releaseSite e.1 e.2) f.pool = _
  simp only [releaseSite_eq]

theorem slots_releaseBlock (f : Frontend) (b : Block) :
    (f.releaseBlock b).pool.slots = f.pool.slots := by
  have hrelease : ∀ (hs : List Handle) (p : Pool), (hs.foldl Pool.release p).slots = p.slots := by
    intro hs
    induction hs with
    | nil => exact fun _ ↦ rfl
    | cons h hs ih => exact fun p ↦ ih (p.release h)
  rw [pool_releaseBlock, hrelease]

end Frontend

/-! ### Calls -/

/-- A frontend with the blocks that are held, the newest one first. -/
structure Session where
  frontend : Frontend
  held : List Block := []

namespace Session

/-- A call of a session. -/
inductive Op where
  | describeBlock (source : Source) (start min max : VirtAddr)
  | describeCode (source : Source) (start : VirtAddr)
  /-- Releases the held block at a place; there may be none. -/
  | release (place : Nat)

/-- The session after a block was described, or was not. -/
def hold (s : Session) : Except Error (Block × Frontend) → Session
  | .ok (b, frontend) => ⟨frontend, b :: s.held⟩
  | .error _ => s

/-- The session after a call. -/
def step (s : Session) : Op → Session
  | .describeBlock source start min max => s.hold (s.frontend.describeBlock source start min max)
  | .describeCode source start => s.hold (s.frontend.describeCode source start)
  | .release place =>
    match s.held[place]? with
    | some b => ⟨s.frontend.releaseBlock b, s.held.eraseIdx place⟩
    | none => s

/-- The session after some calls, from an empty pool on. -/
def run (config : Config) (valid : config.Valid) (ops : List Op) : Session :=
  ops.foldl step ⟨{ config, valid }, []⟩

/-- The handles of all held blocks. -/
def used (s : Session) : List Handle := s.held.flatMap s.frontend.owned

/-- The held blocks are complete and own the slots in use. -/
structure Sound (s : Session) : Prop where
  complete : ∀ b ∈ s.held, s.frontend.Complete b
  accounts : s.frontend.pool.Accounts s.used

variable {s : Session}

/-- What one call does to a session whose held blocks own the slots in use. -/
structure Carries (s t : Session) : Prop where
  sound : t.Sound
  keeps : ∀ b ∈ s.held, s.frontend.Keeps t.frontend b
  config : t.frontend.config = s.frontend.config
  size : t.frontend.pool.slots.size = max s.frontend.pool.slots.size t.used.length

theorem carries_refl (hs : s.Sound) : s.Carries s := by
  refine ⟨hs, fun b _ ↦ ⟨rfl, fun _ _ ↦ rfl⟩, rfl, ?_⟩
  have hsize := hs.accounts.size_slots
  omega

/-- Describing a window adds its block to the held ones. -/
theorem carries_hold (hs : s.Sound) {b : Block} {f : Frontend} {sites : List Site}
    (h : s.frontend.Adds f b s.used sites) : s.Carries (s.hold (.ok (b, f))) := by
  have hgrows : s.frontend.pool.slots.size ≤ f.pool.slots.size := by
    rw [h.size]
    exact Nat.le_max_left _ _
  have happart := List.nodup_append.mp (h.accounts.nodup.of_append_left)
  have hkeeps : ∀ a ∈ s.held, f.Complete a ∧ s.frontend.Keeps f a := by
    intro a ha
    refine (hs.complete a ha).keeps (fun k hk ↦ h.get k fun hmem ↦ ?_) hgrows
    exact happart.2.2 k hmem k (List.mem_flatMap.mpr ⟨a, ha, hk⟩) rfl
  have hused : (s.hold (.ok (b, f))).used = f.owned b ++ s.used := by
    show (b :: s.held).flatMap f.owned = _
    rw [List.flatMap_cons]
    congr 1
    exact List.flatMap_congr fun a ha ↦ (hkeeps a ha).2.owned
  refine ⟨⟨?_, ?_⟩, fun a ha ↦ (hkeeps a ha).2, h.config, ?_⟩
  · intro a ha
    rcases List.mem_cons.mp ha with rfl | ha
    · exact h.complete
    · exact (hkeeps a ha).1
  · rw [hused]
    exact h.accounts
  · rw [hused, List.length_append]
    exact h.size

/-- A description of three addresses fails, or describes their window. -/
theorem describeBlock_cases (f : Frontend) (source : Source) (start min max : VirtAddr) :
    (∃ e, f.describeBlock source start min max = .error e) ∨
      ∃ w : Window, w.start = start ∧ w.min = min ∧ w.max = max ∧
        f.describeBlock source start min max = .ok (f.describeWindow source w) := by
  rw [Frontend.describeBlock]
  cases hcheck : Window.check start min max with
  | error defect => exact .inl ⟨_, rfl⟩
  | ok w =>
    obtain ⟨hstart, hmin, hmax⟩ := Window.check_eq_ok hcheck
    exact .inr ⟨w, hstart, hmin, hmax, rfl⟩

/-- Whether three addresses are described depends on them alone. -/
theorem describeBlock_eq_ok_iff {f : Frontend} {source : Source} {start min max : VirtAddr}
    {r : Block × Frontend} : f.describeBlock source start min max = .ok r ↔
      ∃ w, Window.check start min max = .ok w ∧ f.describeWindow source w = r := by
  rw [Frontend.describeBlock]
  cases Window.check start min max <;> simp

theorem carries_describeBlock (hs : s.Sound) (source : Source) (start min max : VirtAddr) :
    s.Carries (s.hold (s.frontend.describeBlock source start min max)) := by
  rcases describeBlock_cases s.frontend source start min max with ⟨e, he⟩ | ⟨w, -, -, -, hw⟩
  · rw [he]
    exact carries_refl hs
  · rw [hw]
    exact carries_hold hs (Frontend.adds_describeWindow hs.accounts source w)

/-- Releasing a block gives its slots back. -/
theorem carries_release (hs : s.Sound) {place : Nat} {b : Block} (hb : s.held[place]? = some b) :
    s.Carries ⟨s.frontend.releaseBlock b, s.held.eraseIdx place⟩ := by
  have hslots := Frontend.slots_releaseBlock s.frontend b
  have hkeeps : ∀ a ∈ s.held, (s.frontend.releaseBlock b).Complete a ∧
      s.frontend.Keeps (s.frontend.releaseBlock b) a := fun a ha ↦
    (hs.complete a ha).keeps (fun k _ ↦ by rw [Pool.get?, hslots, Pool.get?])
      (Nat.le_of_eq (by rw [hslots]))
  have hperm : s.held.Perm (b :: s.held.eraseIdx place) := by
    obtain ⟨hlt, heq⟩ := List.getElem?_eq_some_iff.mp hb
    rw [← heq]
    exact (List.getElem_cons_eraseIdx_perm hlt).symm
  have hused : s.used.Perm (s.frontend.owned b ++
      (s.held.eraseIdx place).flatMap s.frontend.owned) := by
    rw [← List.flatMap_cons]
    exact hperm.flatMap_right _
  have hheld : ∀ a ∈ s.held.eraseIdx place, a ∈ s.held := fun a ha ↦ List.mem_of_mem_eraseIdx ha
  have hafter : (⟨s.frontend.releaseBlock b, s.held.eraseIdx place⟩ : Session).used =
      (s.held.eraseIdx place).flatMap s.frontend.owned :=
    List.flatMap_congr fun a ha ↦ (hkeeps a (hheld a ha)).2.owned
  refine ⟨⟨fun a ha ↦ (hkeeps a (hheld a ha)).1, ?_⟩, fun a ha ↦ (hkeeps a ha).2, rfl, ?_⟩
  · rw [hafter]
    show ((s.frontend.releaseBlock b).pool).Accounts _
    rw [Frontend.pool_releaseBlock]
    exact Pool.accounts_releaseAll (hs.accounts.perm hused)
  · have hsize := hs.accounts.size_slots
    have hlength := hused.length_eq
    rw [hafter]
    show (s.frontend.releaseBlock b).pool.slots.size = _
    rw [hslots]
    rw [List.length_append] at hlength
    omega

theorem carries_step (hs : s.Sound) (op : Op) : s.Carries (s.step op) := by
  cases op with
  | describeBlock source start min max => exact carries_describeBlock hs source start min max
  | describeCode source start => exact carries_describeBlock hs source start _ _
  | release place =>
    rw [step]
    split
    · rename_i b hb
      exact carries_release hs hb
    · exact carries_refl hs

/-! ### Runs -/

theorem run_append (config : Config) (valid : config.Valid) (ops : List Op) (op : Op) :
    run config valid (ops ++ [op]) = (run config valid ops).step op := by
  rw [run, List.foldl_append]
  rfl

theorem sound_start (config : Config) (valid : config.Valid) :
    (run config valid []).Sound where
  complete := fun b hb ↦ by cases hb
  accounts := Pool.accounts_empty

/-- In every state of a session the held blocks own the slots in use. -/
theorem sound_run (config : Config) (valid : config.Valid) (ops : List Op) :
    (run config valid ops).Sound := by
  induction ops using List.reverseRecOn with
  | nil => exact sound_start config valid
  | append_singleton ops op ih =>
    rw [run_append]
    exact (carries_step ih op).sound

theorem config_run (config : Config) (valid : config.Valid) (ops : List Op) :
    (run config valid ops).frontend.config = config := by
  induction ops using List.reverseRecOn with
  | nil => rfl
  | append_singleton ops op ih =>
    rw [run_append, (carries_step (sound_run config valid ops) op).config, ih]

/-- A description that succeeds in a session describes a window and adds its block. -/
theorem exists_window_of_describeBlock {config : Config} {valid : config.Valid} {ops : List Op}
    {source : Source} {start min max : VirtAddr} {b : Block} {f : Frontend}
    (h : (run config valid ops).frontend.describeBlock source start min max = .ok (b, f)) :
    ∃ w : Window, w.start = start ∧ w.min = min ∧ w.max = max ∧
      (run config valid ops).frontend.Adds f b (run config valid ops).used
        (Outline.describe config source w).sites := by
  rcases describeBlock_cases (run config valid ops).frontend source start min max with
    ⟨e, he⟩ | ⟨w, hstart, hmin, hmax, hw⟩
  · rw [he] at h
    cases h
  · rw [hw] at h
    have hadds := Frontend.adds_describeWindow (sound_run config valid ops).accounts source w
    rw [Except.ok.inj h, config_run] at hadds
    exact ⟨w, hstart, hmin, hmax, hadds⟩

theorem live_eq (hs : s.Sound) : s.frontend.poolStats.live = s.used.length :=
  hs.accounts.live_stats

end Session

/-! ### A listing -/

namespace Source

/-- Words one after the other from `base` on, where nothing else is mapped. -/
def listing (base : VirtAddr) (words : List Word) : Source where
  translate := fun _ pc ↦
    if base ≤ pc ∧ pc.toNat < base.toNat + 4 * words.length then some ⟨pc.bits⟩ else none
  fetchOpcode := fun a ↦ words.getD ((a.bits.toNat - base.toNat) / 4) Assembler.nop

open Assembler in
/-- A loop that is entered at its third word, in the delay slot of a likely branch that goes past
it. -/
def loop : Source := listing ⟨0x1000⟩
  [addu 8 8 9, beql 8 0 1, addiu 9 9 1, bne 8 9 0xfffc, addu 9 8 8, addu 9 8 0]

end Source

end MipsBlocks
