import MipsBlocks.Pool
import Mathlib.Data.List.Nodup
import Mathlib.Data.List.Perm.Basic

/-!
# The accounts of a pool

Every slot of a pool is either in use, once, or free, once (`Pool.Accounts`). Acquiring moves a slot
from one side to the other or makes one where none is free (`accounts_acquireAll`), and then there
are as many slots as were ever in use together (`size_acquireAll_eq_max`); releasing moves it back
(`accounts_release`). So slots that are acquired are new to everybody who holds others, and what is
in those stays there (`get?_acquireAll`).
-/

set_option autoImplicit false
set_option relaxedAutoImplicit false

namespace MipsBlocks

theorem Handle.mk_injective : Function.Injective Handle.mk := fun _ _ h ↦ congrArg Handle.index h

namespace Pool

/-- The handles of all slots. -/
def handles (p : Pool) : List Handle := (List.range p.slots.size).map Handle.mk

/-- The slots in use and the free ones are all slots, each of them once. -/
def Accounts (p : Pool) (used : List Handle) : Prop := (used ++ p.free).Perm p.handles

variable {p : Pool} {used : List Handle}

theorem mem_handles {h : Handle} : h ∈ p.handles ↔ h.index < p.slots.size := by
  rw [handles, List.mem_map]
  constructor
  · rintro ⟨i, hi, rfl⟩
    exact List.mem_range.mp hi
  · intro h
    exact ⟨_, List.mem_range.mpr h, rfl⟩

theorem nodup_handles (p : Pool) : p.handles.Nodup :=
  List.nodup_range.map Handle.mk_injective

theorem length_handles (p : Pool) : p.handles.length = p.slots.size := by
  rw [handles, List.length_map, List.length_range]

theorem accounts_empty : empty.Accounts [] := List.Perm.nil

namespace Accounts

theorem nodup (hp : p.Accounts used) : (used ++ p.free).Nodup :=
  hp.nodup_iff.mpr p.nodup_handles

theorem size_slots (hp : p.Accounts used) : p.slots.size = p.free.length + used.length := by
  have hlength := hp.length_eq
  rw [List.length_append, length_handles] at hlength
  omega

theorem live_stats (hp : p.Accounts used) : p.stats.live = used.length := by
  have hsize := hp.size_slots
  show p.slots.size - p.free.length = used.length
  omega

theorem index_lt (hp : p.Accounts used) {h : Handle} (hh : h ∈ used) :
    h.index < p.slots.size :=
  mem_handles.mp (hp.mem_iff.mp (List.mem_append.mpr (.inl hh)))

theorem index_lt_of_mem_free (hp : p.Accounts used) (h : Handle) (hh : h ∈ p.free) :
    h.index < p.slots.size :=
  mem_handles.mp (hp.mem_iff.mp (List.mem_append.mpr (.inr hh)))

theorem perm (hp : p.Accounts used) {others : List Handle} (h : used.Perm others) :
    p.Accounts others :=
  (h.symm.append_right p.free).trans hp

end Accounts

/-! ### Acquiring -/

theorem accounts_acquire (hp : p.Accounts used) (pc : VirtAddr) :
    (p.acquire pc).2.Accounts ((p.acquire pc).1 :: used) := by
  obtain ⟨slots, free⟩ := p
  cases free with
  | nil =>
    rw [Accounts, List.append_nil] at hp
    rw [Accounts]
    simp only [acquire, handles, Array.size_push, List.range_succ, List.map_append, List.map_cons,
      List.map_nil, List.append_nil]
    exact (hp.cons _).trans (List.perm_append_singleton _ _).symm
  | cons h free =>
    rw [Accounts] at hp ⊢
    simp only [acquire, handles, Array.size_setIfInBounds]
    exact List.perm_middle.symm.trans hp

/-- No slot in use is acquired. -/
theorem acquire_notMem (hp : p.Accounts used) (pc : VirtAddr) : (p.acquire pc).1 ∉ used :=
  fun hmem ↦ (List.nodup_cons.mp (accounts_acquire hp pc).nodup).1
    (List.mem_append.mpr (.inl hmem))

theorem acquire_of_mem_head? {h : Handle} (hh : h ∈ p.free.head?) (pc : VirtAddr) :
    (p.acquire pc).1 = h := by
  obtain ⟨slots, free⟩ := p
  cases free with
  | nil => cases hh
  | cons k free => exact Option.some.inj hh

theorem acquire_of_free_eq_nil (hp : p.free = []) (pc : VirtAddr) :
    (p.acquire pc).1 = ⟨p.slots.size⟩ := by
  obtain ⟨slots, free⟩ := p
  obtain rfl : free = [] := hp
  rfl

/-- The free slots but for the acquired one stay free, in their order. -/
theorem free_acquire (hp : p.Accounts used) (pc : VirtAddr) :
    (p.acquire pc).2.free = p.free.filter (· ≠ (p.acquire pc).1) := by
  have hnodup := hp.nodup.of_append_right
  obtain ⟨slots, free⟩ := p
  cases free with
  | nil => rfl
  | cons h free =>
    have hnotMem : h ∉ free := (List.nodup_cons.mp hnodup).1
    show free = (h :: free).filter (· ≠ h)
    rw [List.filter_cons_of_neg (by simp), List.filter_eq_self.mpr]
    intro k hk
    exact decide_eq_true fun heq ↦ hnotMem (heq ▸ hk)

/-- The slots after acquiring one are those before and the acquired one. -/
theorem index_lt_size_acquire_iff (hp : p.Accounts used) {pc : VirtAddr} {k : Handle} :
    k.index < (p.acquire pc).2.slots.size ↔ k = (p.acquire pc).1 ∨ k.index < p.slots.size := by
  have hfree := hp.index_lt_of_mem_free
  obtain ⟨slots, free⟩ := p
  obtain ⟨i⟩ := k
  cases free with
  | nil =>
    show i < (slots.push _).size ↔ Handle.mk i = ⟨slots.size⟩ ∨ i < slots.size
    rw [Array.size_push, Handle.mk.injEq]
    omega
  | cons h free =>
    have hindex : h.index < slots.size := hfree h List.mem_cons_self
    show i < (slots.setIfInBounds h.index _).size ↔ Handle.mk i = h ∨ i < slots.size
    rw [Array.size_setIfInBounds]
    refine ⟨.inr, ?_⟩
    rintro (rfl | hi)
    · exact hindex
    · exact hi

/-- A slot is only made where none is free. -/
theorem size_acquire_eq_max (hp : p.Accounts used) (pc : VirtAddr) :
    (p.acquire pc).2.slots.size = max p.slots.size (used.length + 1) := by
  have hsize := hp.size_slots
  obtain ⟨slots, free⟩ := p
  cases free with
  | nil => simp_all [acquire]
  | cons h free =>
    change slots.size = free.length + 1 + used.length at hsize
    simp only [acquire, Array.size_setIfInBounds]
    omega

/-- What holds before anything is acquired and goes on to hold with each slot holds when all are
acquired. -/
theorem acquireAll_induction {motive : List Handle → Pool → Prop} (pcs : Array VirtAddr)
    (start : motive [] p)
    (acquire : ∀ hs q pc, motive hs q → motive (hs ++ [(q.acquire pc).1]) (q.acquire pc).2) :
    motive (p.acquireAll pcs).1.toList (p.acquireAll pcs).2 := by
  rw [acquireAll]
  refine Array.foldl_induction (fun _ (r : Array Handle × Pool) ↦ motive r.1.toList r.2) start ?_
  rintro i ⟨hs, q⟩ hq
  show motive (hs.push (q.acquire pcs[i]).1).toList (q.acquire pcs[i]).2
  rw [Array.toList_push]
  exact acquire hs.toList q pcs[i] hq

theorem accounts_acquireAll (hp : p.Accounts used) (pcs : Array VirtAddr) :
    (p.acquireAll pcs).2.Accounts ((p.acquireAll pcs).1.toList ++ used) := by
  refine acquireAll_induction (motive := fun hs q ↦ q.Accounts (hs ++ used)) pcs hp ?_
  intro hs q pc hq
  refine (accounts_acquire hq pc).perm ?_
  rw [List.append_assoc]
  exact List.perm_middle.symm

/-- Slots are only made for what is in use together. -/
theorem size_acquireAll_eq_max (hp : p.Accounts used) (pcs : Array VirtAddr) :
    (p.acquireAll pcs).2.slots.size =
      max p.slots.size ((p.acquireAll pcs).1.size + used.length) := by
  have hsize := hp.size_slots
  refine (acquireAll_induction (motive := fun hs q ↦ q.Accounts (hs ++ used) ∧
    q.slots.size = max p.slots.size (hs.length + used.length)) pcs ⟨hp, ?_⟩ ?_).2
  · simp only [List.length_nil]
    omega
  · rintro hs q pc ⟨hq, hmax⟩
    refine ⟨(accounts_acquire hq pc).perm ?_, ?_⟩
    · rw [List.append_assoc]
      exact List.perm_middle.symm
    · rw [size_acquire_eq_max hq, hmax, List.length_append, List.length_append,
        List.length_singleton]
      omega

/-- Nothing but the acquired slots changes. -/
theorem get?_acquireAll (pcs : Array VirtAddr) {k : Handle}
    (hk : k ∉ (p.acquireAll pcs).1.toList) : (p.acquireAll pcs).2.get? k = p.get? k := by
  revert hk
  refine acquireAll_induction (motive := fun hs q ↦ k ∉ hs → q.get? k = p.get? k) pcs
    (fun _ ↦ rfl) ?_
  intro hs q pc hq hk
  rw [List.mem_append, not_or, List.mem_singleton] at hk
  rw [get?_acquire_of_ne hk.2, hq hk.1]

theorem acquireAll_push (p : Pool) (pcs : Array VirtAddr) (pc : VirtAddr) :
    p.acquireAll (pcs.push pc) = ((p.acquireAll pcs).1.push ((p.acquireAll pcs).2.acquire pc).1,
      ((p.acquireAll pcs).2.acquire pc).2) := by
  rw [acquireAll, Array.foldl_push]
  rfl

/-- Which slot is acquired depends on the free slots and on the number of slots only. -/
theorem acquire_congr {q : Pool} (hfree : q.free = p.free)
    (hsize : q.slots.size = p.slots.size) (pc pc' : VirtAddr) :
    (q.acquire pc').1 = (p.acquire pc).1 ∧ (q.acquire pc').2.free = (p.acquire pc).2.free ∧
      (q.acquire pc').2.slots.size = (p.acquire pc).2.slots.size := by
  obtain ⟨slots, free⟩ := p
  obtain ⟨slots', free'⟩ := q
  obtain rfl : free' = free := hfree
  change slots'.size = slots.size at hsize
  cases free' with
  | nil => simp [acquire, hsize]
  | cons h free' => simp [acquire, hsize]

/-- Which slots are acquired does not depend on the addresses that they are for. -/
theorem acquireAll_congr {q : Pool} (hfree : q.free = p.free)
    (hsize : q.slots.size = p.slots.size) {pcs pcs' : Array VirtAddr}
    (hpcs : pcs'.size = pcs.size) :
    (q.acquireAll pcs').1 = (p.acquireAll pcs).1 ∧
      (q.acquireAll pcs').2.free = (p.acquireAll pcs).2.free ∧
      (q.acquireAll pcs').2.slots.size = (p.acquireAll pcs).2.slots.size := by
  induction hn : pcs.size generalizing pcs pcs' with
  | zero =>
    obtain rfl := Array.eq_empty_of_size_eq_zero hn
    obtain rfl := Array.eq_empty_of_size_eq_zero hpcs
    exact ⟨rfl, hfree, hsize⟩
  | succ n ih =>
    obtain ⟨rest, pc, rfl⟩ := Array.exists_push_of_size_eq_add_one hn
    obtain ⟨rest', pc', rfl⟩ := Array.exists_push_of_size_eq_add_one (hpcs.trans hn)
    rw [Array.size_push, Nat.add_right_cancel_iff] at hn
    rw [Array.size_push, Array.size_push, Nat.add_right_cancel_iff] at hpcs
    obtain ⟨hhandles, hfree', hsize'⟩ := ih hpcs hn
    obtain ⟨hhandle, hnext⟩ := acquire_congr hfree' hsize' pc pc'
    rw [acquireAll_push, acquireAll_push]
    exact ⟨by rw [hhandles, hhandle], hnext⟩

/-! ### Releasing -/

theorem accounts_release {h : Handle} (hp : p.Accounts (h :: used)) :
    (p.release h).Accounts used :=
  List.perm_middle.trans hp

/-- Releases some slots one after the other. -/
theorem accounts_releaseAll {hs : List Handle} (hp : p.Accounts (hs ++ used)) :
    (hs.foldl release p).Accounts used := by
  induction hs generalizing p with
  | nil => exact hp
  | cons h hs ih => exact ih (accounts_release hp)

/-! ### Contents -/

theorem accounts_put (hp : p.Accounts used) (h : Handle) (d : Descriptor) :
    (p.put h d).Accounts used := by
  rw [Accounts, handles, put, Array.size_setIfInBounds]
  exact hp

theorem accounts_modify (hp : p.Accounts used) (h : Handle) (f : Descriptor → Descriptor) :
    (p.modify h f).Accounts used := by
  rw [Accounts, handles, modify, Array.size_modify]
  exact hp

end Pool

end MipsBlocks
