import MipsBlocks.Proofs.Builder.Store
import MipsBlocks.Proofs.Builder.Words

/-!
# Describing in place

The builder acquires a slot when it needs one, where the outline is installed behind handles that
are all acquired at once. Which slots these are depends only on how many were acquired before:
`Pool.Acquired` says that a pool is the one with slots acquired for a trace but for what these hold,
and `Pool.Extends` that one more slot was acquired and what it holds.

Describing a site acquires the slots for its addresses and puts it there, as `Pool.Places` says
(`describeSite_eq`).
Assumes: the slots in use are accounted for, and there is room for the new ones.
-/

set_option autoImplicit false
set_option relaxedAutoImplicit false

namespace MipsBlocks

namespace Pool

/-! ### Acquiring one more slot -/

/-- The handles of the slots acquired for a trace. -/
def handlesFor (p : Pool) (trace : Array VirtAddr) : Array Handle := (p.acquireAll trace).1

theorem size_handlesFor (p : Pool) (trace : Array VirtAddr) :
    (p.handlesFor trace).size = trace.size := p.size_acquireAll trace

theorem handlesFor_push (p : Pool) (trace : Array VirtAddr) (pc : VirtAddr) :
    p.handlesFor (trace.push pc) =
      (p.handlesFor trace).push ((p.acquireAll trace).2.acquire pc).1 := by
  rw [handlesFor, acquireAll_push]
  rfl

/-- Acquiring more slots changes no handle. -/
theorem getElem?_handlesFor_append (p : Pool) (trace : Array VirtAddr) (more : List VirtAddr)
    {i : Nat} {h : Handle} (hi : (p.handlesFor trace)[i]? = some h) :
    (p.handlesFor (trace ++ more))[i]? = some h := by
  induction more generalizing trace with
  | nil => exact hi
  | cons pc more ih =>
    refine ih (trace.push pc) ?_
    have hlt := (Array.getElem?_eq_some_iff.mp hi).1
    rw [handlesFor_push, Array.getElem?_push_lt hlt]
    exact (Array.getElem?_eq_getElem hlt).symm.trans hi

/-- The pool has slots acquired for a trace, and is as it was elsewhere. -/
structure Acquired (p₀ : Pool) (trace : Array VirtAddr) (p : Pool) : Prop where
  free : p.free = (p₀.acquireAll trace).2.free
  size : p.slots.size = (p₀.acquireAll trace).2.slots.size
  get : ∀ k ∉ (p₀.handlesFor trace).toList, p.get? k = p₀.get? k

/-- One more slot was acquired, which holds a descriptor. -/
structure Extends (p₀ : Pool) (trace : Array VirtAddr) (pc : VirtAddr) (p : Pool) (h : Handle)
    (d : Descriptor) (q : Pool) : Prop where
  acquired : p₀.Acquired (trace.push pc) q
  handles : p₀.handlesFor (trace.push pc) = (p₀.handlesFor trace).push h
  get : q.get? h = some d
  others : ∀ k ≠ h, q.get? k = p.get? k

variable {p₀ p q : Pool} {trace : Array VirtAddr} {pc : VirtAddr} {used : List Handle}

theorem acquired_self (p : Pool) : p.Acquired #[] p := ⟨rfl, rfl, fun _ _ ↦ rfl⟩

theorem nodup_handlesFor (hp₀ : p₀.Accounts used) (trace : Array VirtAddr) :
    (p₀.handlesFor trace).toList.Nodup :=
  (accounts_acquireAll hp₀ trace).nodup.of_append_left.of_append_left

/-- What is changed in a pool without acquiring anything stays behind the handles. -/
theorem Acquired.revises (h : p₀.Acquired trace p) {sites sites' : List Site}
    (hq : p.Revises q (p₀.handlesFor trace) sites sites') : p₀.Acquired trace q where
  free := hq.free.trans h.free
  size := hq.size.trans h.size
  get := fun k hk ↦ by
    rw [hq.get k fun i _ hi ↦ hk (Array.mem_toList_iff.mpr (Array.mem_of_getElem? hi)), h.get k hk]

theorem Acquired.index_lt_of_mem_free (hp : p₀.Acquired trace p) (hp₀ : p₀.Accounts used)
    (h : Handle) (hh : h ∈ p.free) : h.index < p.slots.size := by
  rw [hp.free] at hh
  rw [hp.size]
  exact (accounts_acquireAll hp₀ trace).index_lt_of_mem_free h hh

/-- Acquiring a slot empties it and leaves the others as they are. -/
theorem Acquired.acquire (hp : p₀.Acquired trace p) (hp₀ : p₀.Accounts used) (pc : VirtAddr) :
    p₀.Extends trace pc p (p.acquire pc).1 (.fresh pc) (p.acquire pc).2 := by
  obtain ⟨hhandle, hfree, hsize⟩ := acquire_congr hp.free hp.size pc pc
  have hhandles : p₀.handlesFor (trace.push pc) =
      (p₀.handlesFor trace).push (p.acquire pc).1 := by
    rw [handlesFor_push, hhandle]
  refine ⟨⟨?_, ?_, fun k hk ↦ ?_⟩, hhandles, get?_acquire (hp.index_lt_of_mem_free hp₀),
    fun k hk ↦ get?_acquire_of_ne hk⟩
  · rw [hfree, acquireAll_push]
  · rw [hsize, acquireAll_push]
  · rw [hhandles, Array.toList_push, List.mem_append, not_or, List.mem_singleton] at hk
    rw [get?_acquire_of_ne hk.2, hp.get k hk.1]

theorem Acquired.modify (hp : p₀.Acquired trace p) {h : Handle}
    (hh : h ∈ (p₀.handlesFor trace).toList) (f : Descriptor → Descriptor) :
    p₀.Acquired trace (p.modify h f) where
  free := hp.free
  size := (size_modify p h f).trans hp.size
  get := fun k hk ↦ by
    have hne : k ≠ h := by
      rintro rfl
      exact hk hh
    rw [get?_modify_of_ne hne, hp.get k hk]

theorem Extends.mem {h : Handle} {d : Descriptor} (hq : p₀.Extends trace pc p h d q) :
    h ∈ (p₀.handlesFor (trace.push pc)).toList := by
  rw [hq.handles, Array.toList_push]
  exact List.mem_append.mpr (.inr (List.mem_singleton.mpr rfl))

theorem Extends.getElem? {h : Handle} {d : Descriptor} (hq : p₀.Extends trace pc p h d q) :
    (p₀.handlesFor (trace.push pc))[trace.size]? = some h := by
  rw [hq.handles, ← p₀.size_handlesFor trace, Array.getElem?_push_size]

theorem Extends.modify {h : Handle} {d : Descriptor} (hq : p₀.Extends trace pc p h d q)
    (f : Descriptor → Descriptor) : p₀.Extends trace pc p h (f d) (q.modify h f) where
  acquired := hq.acquired.modify hq.mem f
  handles := hq.handles
  get := get?_modify_self hq.get f
  others := fun k hk ↦ by rw [get?_modify_of_ne hk, hq.others k hk]

/-- The new handle is not among the old ones. -/
theorem Extends.notMem {h : Handle} {d : Descriptor} (hq : p₀.Extends trace pc p h d q)
    (hp₀ : p₀.Accounts used) : h ∉ (p₀.handlesFor trace).toList := by
  have hnodup := nodup_handlesFor hp₀ (trace.push pc)
  rw [hq.handles, Array.toList_push] at hnodup
  intro hmem
  exact (List.nodup_append.mp hnodup).2.2 h hmem h (List.mem_singleton.mpr rfl) rfl

/-- The old handles stay, and so does what is behind them. -/
theorem Extends.keeps {h : Handle} {d : Descriptor} (hq : p₀.Extends trace pc p h d q)
    (hp₀ : p₀.Accounts used) {k : Handle} (hk : k ∈ (p₀.handlesFor trace).toList) :
    k ≠ h ∧ k ∈ (p₀.handlesFor (trace.push pc)).toList ∧ q.get? k = p.get? k := by
  have hne : k ≠ h := by
    rintro rfl
    exact hq.notMem hp₀ hk
  refine ⟨hne, ?_, hq.others k hne⟩
  rw [hq.handles, Array.toList_push]
  exact List.mem_append.mpr (.inl hk)

/-- The slots for the addresses of a site were acquired and hold the site. -/
structure Places (p₀ : Pool) (trace : Array VirtAddr) (p : Pool) (h : Handle) (site : Site)
    (q : Pool) : Prop where
  acquired : p₀.Acquired (trace ++ site.pcs) q
  cell : q.Cell (p₀.handlesFor (trace ++ site.pcs)) h site none
  others : ∀ k ∈ (p₀.handlesFor trace).toList, q.get? k = p.get? k

/-! ### A site behind its handles -/

section Places

variable {site : Site} {h k : Handle}

/-- A site without a delay slot needs one descriptor. -/
theorem Extends.places (hp₀ : p₀.Accounts used)
    (hq : p₀.Extends trace site.node.pc p h { toAnalysis := site.node } q)
    (horder : site.order = trace.size) (hslot : site.slot = none) :
    p₀.Places trace p h site q := by
  have hpcs : trace ++ site.pcs = trace.push site.node.pc := by
    rw [Site.pcs, hslot]
    rfl
  refine ⟨by rw [hpcs]; exact hq.acquired, ?_, fun k hk ↦ (hq.keeps hp₀ hk).2.2⟩
  rw [hpcs]
  refine ⟨by rw [horder, hq.getElem?], ?_, fun slot hmem ↦ ?_⟩
  · rw [hq.get, hslot]
    rfl
  · rw [hslot] at hmem
    cases hmem

/-- A site with a delay slot needs two, and the first one gets the handle of the second one. -/
theorem Extends.places_slot (hp₀ : p₀.Accounts used) {r : Pool} {slot : Analysis}
    (hq : p₀.Extends trace site.node.pc p h { toAnalysis := site.node } q)
    (hr : p₀.Extends (trace.push site.node.pc) slot.pc q k
      { toAnalysis := slot, owner := some h } r)
    (horder : site.order = trace.size) (hslot : site.slot = some slot) :
    p₀.Places trace p h site (r.modify h fun d ↦ { d with delaySlot := some k }) := by
  have hpcs : trace ++ site.pcs = (trace.push site.node.pc).push slot.pc := by
    rw [Site.pcs, hslot]
    rfl
  obtain ⟨hne, hmem, hget⟩ := hr.keeps hp₀ hq.mem
  rw [hq.get] at hget
  have hfirst := p₀.getElem?_handlesFor_append (trace.push site.node.pc) [slot.pc] hq.getElem?
  have hsecond := hr.getElem?
  rw [Array.size_push] at hsecond
  refine ⟨by rw [hpcs]; exact hr.acquired.modify hmem _, ?_, fun j hj ↦ ?_⟩
  · rw [hpcs]
    refine ⟨by rw [horder]; exact hfirst, ?_, fun other hother ↦ ?_⟩
    · rw [get?_modify_self hget, hslot, horder, Option.bind_some, hsecond]
    · obtain rfl : slot = other := Option.some.inj (hslot.symm.trans hother)
      exact ⟨k, by rw [horder, hsecond], by rw [get?_modify_of_ne hne.symm, hr.get]⟩
  · obtain ⟨hjh, hj', hold⟩ := hq.keeps hp₀ hj
    rw [get?_modify_of_ne hjh, (hr.keeps hp₀ hj').2.2, hold]

end Places

end Pool

namespace Builder

variable {p₀ p q : Pool} {trace : Array VirtAddr} {used : List Handle}

/-! ### Reading and writing -/

theorem read_eq {h : Handle} {d : Descriptor} (hd : p.get? h = some d) : read p h = .ok d := by
  rw [read, hd]

theorem write_eq {h : Handle} {d : Descriptor} (hd : p.get? h = some d)
    (f : Descriptor → Descriptor) : write p h f = .ok (p.modify h f) := by
  rw [write, if_pos (Pool.index_lt_of_get? hd)]

/-- A slot is acquired where the free ones exist and, if there is none, a new one has a number. -/
theorem acquire_eq_ok (hfree : ∀ h ∈ p.free, h.index < p.slots.size)
    (hroom : p.free = [] → p.slots.size < slotLimit) (pc : VirtAddr) :
    acquire p pc = .ok (p.acquire pc) := by
  rw [acquire]
  split
  · rename_i h free hcons
    rw [if_pos (hfree h (by rw [hcons]; exact List.mem_cons_self))]
  · rename_i hnil
    rw [if_pos (hroom hnil)]

/-- There is a slot to acquire where there is room. -/
theorem acquire_eq (hp₀ : p₀.Accounts used) (hp : p₀.Acquired trace p)
    (hroom : trace.size + used.length < slotLimit) (pc : VirtAddr) :
    acquire p pc = .ok (p.acquire pc) := by
  refine acquire_eq_ok (hp.index_lt_of_mem_free hp₀) (fun hnil ↦ ?_) pc
  have hsize := (Pool.accounts_acquireAll hp₀ trace).size_slots
  have htrace : (p₀.acquireAll trace).1.toList.length = trace.size :=
    Array.length_toList.trans (p₀.size_acquireAll trace)
  rw [← hp.free, hnil, ← hp.size, List.length_append, htrace, List.length_nil] at hsize
  omega

theorem entry_eq {t : Table} {i : Nat} {e : Option Handle} (h : t[i]? = some e) :
    entry t i = .ok e := by
  rw [entry, h]

theorem setEntry_eq {t : Table} {i : Nat} (hi : i < t.size) (e : Option Handle) :
    setEntry t i e = .ok (t.set i e) := dif_pos hi

/-! ### One address -/

section Describe

variable (r : Request) (pc : VirtAddr)

theorem describeAt_eq (hp₀ : p₀.Accounts used) (hp : p₀.Acquired trace p)
    (hroom : trace.size + used.length < slotLimit) :
    ∃ h q, describeAt r p pc = .ok (h, q) ∧
      p₀.Extends trace pc p h { toAnalysis := r.config.analyze r.source pc } q := by
  have hq := hp.acquire hp₀ pc
  refine ⟨_, _, ?_, hq.modify fun d ↦ { d with toAnalysis := r.config.analyze r.source pc }⟩
  rw [describeAt, acquire_eq hp₀ hp hroom, Checked.ok_bind]
  dsimp only
  -- the slot is empty, so that what is added to it is all there is
  rw [read_eq hq.get, Checked.ok_bind, Descriptor.fresh, analyze_eq, Checked.ok_bind,
    write_eq hq.get, Checked.ok_bind]
  rfl

theorem describeSlot_eq (hp₀ : p₀.Accounts used) (hp : p₀.Acquired trace p)
    (hroom : trace.size + used.length < slotLimit) (owner : Handle) :
    ∃ h q, describeSlot r p owner pc = .ok (h, q) ∧
      p₀.Extends trace pc p h
        { toAnalysis := Site.describeSlot r.config r.source pc, owner := some owner } q := by
  obtain ⟨h, q, hdescribe, hq⟩ := describeAt_eq r pc hp₀ hp hroom
  refine ⟨h, _, ?_, hq.modify fun d ↦
    { d with toAnalysis := d.toAnalysis.flag {.inDelaySlot}, owner := some owner }⟩
  rw [describeSlot, hdescribe, Checked.ok_bind]
  dsimp only
  rw [write_eq hq.get, Checked.ok_bind]
  rfl

/-- Describing a site puts it behind the new handles, the first one of which is returned, and
changes nothing behind the old ones. -/
theorem describeSite_eq (hp₀ : p₀.Accounts used) (hp : p₀.Acquired trace p) {site : Site}
    (hsite : site = Site.describe r.config r.source pc trace.size)
    (hroom : (trace ++ site.pcs).size + used.length ≤ slotLimit) :
    ∃ h q, describeSite r p pc = .ok (h, q) ∧ p₀.Places trace p h site q := by
  have hnode : site.node = r.config.analyze r.source pc := by rw [hsite, Site.node_describe]
  have horder : site.order = trace.size := by rw [hsite]; rfl
  have hslot : site.slot =
      if site.node.isBranch && 0 < site.node.delaySlots then
        some (Site.describeSlot r.config r.source
          (site.node.pc + BitVec.ofNat 64 site.node.length))
      else none := by
    rw [hnode, hsite]
    rfl
  obtain rfl : site.node.pc = pc := by
    rw [hnode]
    exact Analysis.pc_describe ..
  have hsize : (trace ++ site.pcs).size = trace.size + 1 + site.slot.toList.length := by
    rw [Site.pcs, ← Array.length_toList, Array.toList_appendList, List.length_append,
      List.length_cons, List.length_map, Array.length_toList]
    omega
  obtain ⟨h, q, hdescribe, hq⟩ := describeAt_eq r site.node.pc hp₀ hp (by omega)
  rw [← hnode] at hq
  rw [describeSite, hdescribe, Checked.ok_bind]
  dsimp only
  rw [read_eq hq.get, Checked.ok_bind]
  by_cases hbranch : (site.node.isBranch && 0 < site.node.delaySlots) = true
  · rw [if_pos hbranch] at hslot
    rw [hslot, Option.toList_some, List.length_singleton] at hsize
    obtain ⟨k, q', hdescribe', hq'⟩ := describeSlot_eq r
      (site.node.pc + BitVec.ofNat 64 site.node.length) hp₀ hq.acquired
      (by rw [Array.size_push]; omega) h
    have hget := (hq'.keeps hp₀ hq.mem).2.2.trans hq.get
    refine ⟨h, _, ?_, hq.places_slot hp₀ (by rw [Site.pc_describeSlot]; exact hq') horder hslot⟩
    refine (if_pos hbranch).trans ?_
    dsimp only
    rw [hdescribe', Checked.ok_bind]
    dsimp only
    rw [write_eq hget, Checked.ok_bind]
    rfl
  · rw [if_neg hbranch] at hslot
    exact ⟨h, q, if_neg hbranch, hq.places hp₀ horder hslot⟩

end Describe

end Builder

end MipsBlocks
