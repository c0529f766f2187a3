import MipsBlocks.Proofs.Builder.Describe
import Mathlib.Data.Finset.Card
import Mathlib.Order.Bounds.Basic

/-!
# The pool as an allocator

What a pool does next can be told from what was done with it before. `Pool.run` makes calls on an
empty pool and records what they gave, the newest event first (`Pool.History`). The record alone
says which handles are in use (`History.live`), which ones were given back and not taken up since,
in which order (`History.waiting`), which ones were ever given out (`History.Taken`) and what every
slot holds (`History.contents`). Neither slots nor a stack of free handles occur in these.

A pool reflects its history (`Pool.Reflects`), and every call that gives back only what is in use
keeps it so (`reflects_step`). The main statement is `allocates_run`: after any such calls the pool
hands out slots, holds descriptors and counts as an allocator with that history does
(`Pool.Allocates`). That includes the operations that check the slot they need: they have no breach
on such a pool, as long as there is a number for a new slot.
-/

set_option autoImplicit false
set_option relaxedAutoImplicit false

namespace MipsBlocks

namespace Pool

/-! ### Histories -/

/-- A call on a pool. -/
inductive Call
  | acquire (pc : VirtAddr)
  | release (h : Handle)
  /-- Changes the descriptor in a slot, be it in use or not. -/
  | write (h : Handle) (f : Descriptor → Descriptor)

/-- A call with the handle that it was about. -/
inductive Event
  | acquired (h : Handle) (pc : VirtAddr)
  | released (h : Handle)
  | written (h : Handle) (f : Descriptor → Descriptor)

/-- What was done with a pool, the newest event first. -/
abbrev History : Type := List Event

/-- The slot whose contents may differ after an event. -/
def Event.changed? : Event → Option Handle
  | .acquired h _ => some h
  | .released _ => none
  | .written h _ => some h

namespace History

/-- The handles that were acquired and not released since. -/
def live : History → Finset Handle
  | [] => ∅
  | .acquired h _ :: es => insert h (live es)
  | .released h :: es => (live es).erase h
  | .written _ _ :: es => live es

/-- The handles that were released and not acquired since, the one released last first. -/
def waiting : History → List Handle
  | [] => []
  | .acquired h _ :: es => (waiting es).filter (· ≠ h)
  | .released h :: es => h :: waiting es
  | .written _ _ :: es => waiting es

/-- A handle was acquired at some time. -/
def Taken (es : History) (h : Handle) : Prop := ∃ pc, .acquired h pc ∈ es

/-- What was written to a slot since it was acquired last, over an empty descriptor. -/
def contents : History → Handle → Option Descriptor
  | [], _ => none
  | .acquired h pc :: es, k => if k = h then some (.fresh pc) else contents es k
  | .released _ :: es, k => contents es k
  | .written h f :: es, k => if k = h then (contents es k).map f else contents es k

/-- An event may come after a history: only a handle in use is released. -/
def Allows (es : History) : Event → Prop
  | .released h => h ∈ es.live
  | .acquired _ _ | .written _ _ => True

/-- Only handles in use were ever released. -/
def Lawful : History → Prop
  | [] => True
  | e :: es => Allows es e ∧ Lawful es

instance (es : History) (e : Event) : Decidable (es.Allows e) :=
  match e with
  | .released h => inferInstanceAs (Decidable (h ∈ es.live))
  | .acquired _ _ | .written _ _ => isTrue trivial

instance decidableLawful : (es : History) → Decidable es.Lawful
  | [] => isTrue trivial
  | e :: es =>
    have := decidableLawful es
    inferInstanceAs (Decidable (Allows es e ∧ Lawful es))

variable {es : History}

theorem taken_acquired_iff {h k : Handle} {pc : VirtAddr} :
    Taken (.acquired h pc :: es) k ↔ k = h ∨ es.Taken k := by
  simp only [Taken, List.mem_cons, Event.acquired.injEq, exists_or, exists_and_left, exists_eq,
    and_true]

theorem taken_released_iff {h k : Handle} : Taken (.released h :: es) k ↔ es.Taken k := by
  simp only [Taken, List.mem_cons, reduceCtorEq, false_or]

theorem taken_written_iff {h k : Handle} {f : Descriptor → Descriptor} :
    Taken (.written h f :: es) k ↔ es.Taken k := by
  simp only [Taken, List.mem_cons, reduceCtorEq, false_or]

theorem contents_cons_of_notMem_changed? {e : Event} {h : Handle} (he : h ∉ e.changed?) :
    contents (e :: es) h = es.contents h := by
  cases e with
  | acquired k pc => exact if_neg fun heq ↦ he (congrArg some heq.symm)
  | released k => rfl
  | written k f => exact if_neg fun heq ↦ he (congrArg some heq.symm)

/-- A slot holds what it held before the events that did not change it. -/
theorem contents_append {newer older : History} {h : Handle}
    (hnewer : ∀ e ∈ newer, h ∉ e.changed?) : contents (newer ++ older) h = older.contents h := by
  induction newer with
  | nil => rfl
  | cons e newer ih =>
    rw [List.cons_append, contents_cons_of_notMem_changed? (hnewer e List.mem_cons_self)]
    exact ih fun e' he' ↦ hnewer e' (List.mem_cons_of_mem e he')

end History

/-! ### Calls -/

/-- The event of a call, and the pool after it. -/
def step (p : Pool) : Call → Event × Pool
  | .acquire pc => (.acquired (p.acquire pc).1 pc, (p.acquire pc).2)
  | .release h => (.released h, p.release h)
  | .write h f => (.written h f, p.modify h f)

/-- The history of some calls on an empty pool, and the pool after them. -/
def run (calls : List Call) : History × Pool :=
  calls.foldl (fun (es, p) call ↦ ((p.step call).1 :: es, (p.step call).2)) ([], empty)

theorem run_append (calls : List Call) (call : Call) :
    run (calls ++ [call]) =
      (((run calls).2.step call).1 :: (run calls).1, ((run calls).2.step call).2) := by
  rw [run, List.foldl_append]
  rfl

/-- A call changes nothing but the slot that its event names. -/
theorem get?_step (p : Pool) (call : Call) {k : Handle} (hk : k ∉ (p.step call).1.changed?) :
    (p.step call).2.get? k = p.get? k := by
  cases call with
  | acquire pc => exact get?_acquire_of_ne fun heq ↦ hk (congrArg some heq.symm)
  | release h => exact get?_release p h k
  | write h f => exact get?_modify_of_ne (fun heq ↦ hk (congrArg some heq.symm)) f

/-! ### What an allocator does -/

/-- The handles that are given out next. -/
structure Assigns (es : History) (p : Pool) : Prop where
  /-- The slot released last is taken up first. -/
  reuses : ∀ h ∈ es.waiting.head?, ∀ pc, (p.acquire pc).1 = h
  /-- Where no slot waits, the next number in order is given out. -/
  numbers : es.waiting = [] → ∀ pc, IsLeast {i | ¬ es.Taken ⟨i⟩} (p.acquire pc).1.index
  apart : ∀ pc, (p.acquire pc).1 ∉ es.live

/-- The contents of the slots, in use or not. -/
structure Remembers (es : History) (p : Pool) : Prop where
  contents : ∀ h, p.get? h = es.contents h
  /-- A slot holds what it held before the events that did not change it. -/
  keeps : ∀ newer older, es = newer ++ older → ∀ h, (∀ e ∈ newer, h ∉ e.changed?) →
    p.get? h = older.contents h
  /-- Nothing is left of what an acquired slot held before. -/
  empties : ∀ pc, (p.acquire pc).2.get? (p.acquire pc).1 = some (.fresh pc)
  frame : ∀ call, ∀ k ∉ (p.step call).1.changed?, (p.step call).2.get? k = p.get? k

/-- The numbers of slots. -/
structure Counts (es : History) (p : Pool) : Prop where
  free_le : p.stats.free ≤ p.stats.allocated
  live_eq : p.stats.live = p.stats.allocated - p.stats.free
  live : p.stats.live = es.live.card
  free : p.stats.free = es.waiting.length
  allocated : IsLeast {i | ¬ es.Taken ⟨i⟩} p.stats.allocated

/-- The calls that have a result, where each checks the slot that it needs. -/
structure Completes (es : History) (p : Pool) : Prop where
  acquire : p.stats.allocated < Builder.slotLimit → ∀ pc,
    Builder.acquire p pc = .ok (p.acquire pc)
  release : ∀ h ∈ es.live, Builder.release p h = .ok (p.release h)
  write : ∀ h, es.Taken h → ∀ f, Builder.write p h f = .ok (p.modify h f)

/-- A pool does what an allocator with this history does. -/
structure Allocates (es : History) (p : Pool) : Prop where
  assigns : p.Assigns es
  remembers : p.Remembers es
  counts : p.Counts es
  completes : p.Completes es

/-! ### A pool and its history -/

/-- What a pool holds is what its history says. -/
structure Reflects (es : History) (p : Pool) : Prop where
  accounts : p.Accounts es.live.toList
  free : p.free = es.waiting
  size : ∀ h, es.Taken h ↔ h.index < p.slots.size
  contents : ∀ h, p.get? h = es.contents h

variable {es : History} {p : Pool}

theorem reflects_empty : Reflects [] empty where
  accounts := by
    rw [show History.live [] = ∅ from rfl, Finset.toList_empty]
    exact accounts_empty
  free := rfl
  size := fun h ↦ by simp [History.Taken, empty]
  contents := fun h ↦ by simp [History.contents, get?, empty]

theorem reflects_acquire (hp : Reflects es p) (pc : VirtAddr) :
    Reflects (.acquired (p.acquire pc).1 pc :: es) (p.acquire pc).2 where
  accounts := by
    have hnotMem : (p.acquire pc).1 ∉ es.live := fun hlive ↦
      acquire_notMem hp.accounts pc (Finset.mem_toList.mpr hlive)
    exact (accounts_acquire hp.accounts pc).perm (Finset.toList_insert hnotMem).symm
  free := by
    rw [free_acquire hp.accounts, hp.free]
    rfl
  size := fun h ↦ by
    rw [History.taken_acquired_iff, hp.size, index_lt_size_acquire_iff hp.accounts]
  contents := fun h ↦ by
    rw [History.contents]
    split
    · rename_i heq
      rw [heq, get?_acquire hp.accounts.index_lt_of_mem_free]
    · rename_i hne
      rw [get?_acquire_of_ne hne, hp.contents]

theorem reflects_release (hp : Reflects es p) {h : Handle} (hlive : h ∈ es.live) :
    Reflects (.released h :: es) (p.release h) where
  accounts := by
    have hperm := Finset.toList_insert (Finset.notMem_erase h es.live)
    rw [Finset.insert_erase hlive] at hperm
    exact accounts_release (hp.accounts.perm hperm)
  free := congrArg (h :: ·) hp.free
  size := fun k ↦ History.taken_released_iff.trans (hp.size k)
  contents := hp.contents

theorem reflects_write (hp : Reflects es p) (h : Handle) (f : Descriptor → Descriptor) :
    Reflects (.written h f :: es) (p.modify h f) where
  accounts := accounts_modify hp.accounts h f
  free := hp.free
  size := fun k ↦ by rw [History.taken_written_iff, hp.size, size_modify]
  contents := fun k ↦ by
    rw [History.contents]
    split
    · rename_i heq
      rw [heq, get?_modify, hp.contents]
    · rename_i hne
      rw [get?_modify_of_ne hne, hp.contents]

/-- Every call keeps a pool in agreement with its history, if it releases only what is in use. -/
theorem reflects_step (hp : Reflects es p) (call : Call) (hcall : es.Allows (p.step call).1) :
    Reflects ((p.step call).1 :: es) (p.step call).2 := by
  cases call with
  | acquire pc => exact reflects_acquire hp pc
  | release h => exact reflects_release hp hcall
  | write h f => exact reflects_write hp h f

theorem reflects_run (calls : List Call) (h : (run calls).1.Lawful) :
    Reflects (run calls).1 (run calls).2 := by
  -- From the last call on, since its event is the newest one of the history.
  induction calls using List.reverseRecOn with
  | nil => exact reflects_empty
  | append_singleton calls call ih =>
    rw [run_append] at h ⊢
    exact reflects_step (ih h.2) call h.1

namespace Reflects

theorem isLeast (hp : Reflects es p) : IsLeast {i | ¬ es.Taken ⟨i⟩} p.slots.size := by
  refine ⟨fun htaken ↦ ?_, fun i hi ↦ ?_⟩
  · exact Nat.lt_irrefl _ ((hp.size _).mp htaken)
  · exact Nat.le_of_not_lt fun hlt ↦ hi ((hp.size _).mpr hlt)

theorem assigns (hp : Reflects es p) : p.Assigns es where
  reuses := fun h hh pc ↦ by
    rw [← hp.free] at hh
    exact acquire_of_mem_head? hh pc
  numbers := fun hwaiting pc ↦ by
    rw [acquire_of_free_eq_nil (hp.free.trans hwaiting)]
    exact hp.isLeast
  apart := fun pc hlive ↦ acquire_notMem hp.accounts pc (Finset.mem_toList.mpr hlive)

theorem remembers (hp : Reflects es p) : p.Remembers es where
  contents := hp.contents
  keeps := fun newer older hes h hnewer ↦ by
    rw [hp.contents, hes, History.contents_append hnewer]
  empties := fun pc ↦ get?_acquire hp.accounts.index_lt_of_mem_free
  frame := fun call _ hk ↦ p.get?_step call hk

theorem counts (hp : Reflects es p) : p.Counts es where
  free_le := by
    have hsize := hp.accounts.size_slots
    show p.free.length ≤ p.slots.size
    omega
  live_eq := rfl
  live := by rw [hp.accounts.live_stats, Finset.length_toList]
  free := congrArg List.length hp.free
  allocated := hp.isLeast

theorem completes (hp : Reflects es p) : p.Completes es where
  acquire := fun hroom ↦
    Builder.acquire_eq_ok hp.accounts.index_lt_of_mem_free fun _ ↦ hroom
  release := fun _ hlive ↦ if_pos (hp.accounts.index_lt (Finset.mem_toList.mpr hlive))
  write := fun h htaken _ ↦ if_pos ((hp.size h).mp htaken)

end Reflects

/-- After any calls that release only handles in use, a pool does what an allocator with that
history does. -/
theorem allocates_run (calls : List Call) (h : (run calls).1.Lawful) :
    (run calls).2.Allocates (run calls).1 :=
  have hp := reflects_run calls h
  ⟨hp.assigns, hp.remembers, hp.counts, hp.completes⟩

/-- Of two slots that were given back, the later one is taken up again, empty, and the earlier one
keeps what was written to it. -/
theorem allocates_reused :
    let calls : List Call := [.acquire ⟨0x1000⟩, .acquire ⟨0x1004⟩, .acquire ⟨0x1008⟩,
      .write ⟨1⟩ fun d ↦ { d with cycles := 67 }, .release ⟨0⟩, .release ⟨1⟩,
      .write ⟨0⟩ fun d ↦ { d with next := some ⟨2⟩ }, .acquire ⟨0x2000⟩]
    (run calls).1.Lawful ∧ (run calls).2.Allocates (run calls).1 ∧
      (run calls).2.stats = ⟨3, 1, 2⟩ ∧ (run calls).2.get? ⟨1⟩ = some (.fresh ⟨0x2000⟩) ∧
      ((run calls).2.get? ⟨0⟩).map (·.next) = some (some ⟨2⟩) := by
  intro calls
  have hlawful : (run calls).1.Lawful := by decide
  exact ⟨hlawful, allocates_run calls hlawful, by decide, by decide, by decide⟩

end Pool

end MipsBlocks
