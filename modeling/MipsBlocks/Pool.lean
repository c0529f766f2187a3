import MipsBlocks.Descriptor

/-!
# The descriptor pool

Descriptors live in numbered slots. A released slot is reused before a new one is made, the most
recently released one first; it keeps its contents until then and is emptied when it is acquired
(`get?_acquire`). Acquiring, changing and releasing touch no other slot (`get?_acquire_of_ne`,
`get?_modify_of_ne`, `get?_release`).
-/

set_option autoImplicit false
set_option relaxedAutoImplicit false

namespace MipsBlocks

/-- How many slots there are, and how many of them are free and in use. -/
structure PoolStats where
  allocated : Nat
  free : Nat
  live : Nat
  deriving DecidableEq

structure Pool where
  slots : Array Descriptor := #[]
  /-- The released slots, the most recently released one first. -/
  free : List Handle := []

namespace Pool

def empty : Pool := {}

def get? (p : Pool) (h : Handle) : Option Descriptor := p.slots[h.index]?

/-- Replaces the contents of a slot. -/
def put (p : Pool) (h : Handle) (d : Descriptor) : Pool :=
  { p with slots := p.slots.setIfInBounds h.index d }

def modify (p : Pool) (h : Handle) (f : Descriptor → Descriptor) : Pool :=
  { p with slots := p.slots.modify h.index f }

/-- Takes a slot and empties it for the address `pc`. -/
def acquire (p : Pool) (pc : VirtAddr) : Handle × Pool :=
  match p with
  | ⟨slots, h :: free⟩ => (h, ⟨slots.setIfInBounds h.index (.fresh pc), free⟩)
  | ⟨slots, []⟩ => (⟨slots.size⟩, ⟨slots.push (.fresh pc), []⟩)

/-- Takes a slot for every address, in order. -/
def acquireAll (p : Pool) (pcs : Array VirtAddr) : Array Handle × Pool :=
  pcs.foldl (fun (hs, p) pc ↦ let (h, p) := p.acquire pc; (hs.push h, p)) (#[], p)

theorem size_acquireAll (p : Pool) (pcs : Array VirtAddr) :
    (p.acquireAll pcs).1.size = pcs.size := by
  have key : ∀ (l : List VirtAddr) (hs : Array Handle) (p : Pool),
      (l.foldl (fun (hs, p) pc ↦ let (h, p) := p.acquire pc; (hs.push h, p)) (hs, p)).1.size =
        hs.size + l.length := by
    intro l
    induction l with
    | nil => intros; rfl
    | cons pc l ih =>
      intro hs p
      rw [List.foldl_cons, ih, Array.size_push, List.length_cons]
      omega
  rw [acquireAll, ← Array.foldl_toList, key]
  simp

/-- Gives a slot back. -/
def release (p : Pool) (h : Handle) : Pool := { p with free := h :: p.free }

def stats (p : Pool) : PoolStats where
  allocated := p.slots.size
  free := p.free.length
  live := p.slots.size - p.free.length

/-! ### Contents -/

theorem get?_release (p : Pool) (h k : Handle) : (p.release h).get? k = p.get? k := rfl

theorem get?_put_of_ne {p : Pool} {h k : Handle} {d : Descriptor} (hk : k ≠ h) :
    (p.put h d).get? k = p.get? k := by
  have : h.index ≠ k.index := fun e ↦ hk (by cases h; cases k; simp_all)
  simp [get?, put, Array.getElem?_setIfInBounds_ne this]

theorem get?_put_self {p : Pool} {h : Handle} {d : Descriptor} (hh : h.index < p.slots.size) :
    (p.put h d).get? h = some d := by
  simp [get?, put, hh]

theorem get?_modify (p : Pool) (h : Handle) (f : Descriptor → Descriptor) :
    (p.modify h f).get? h = (p.get? h).map f := by
  rw [get?, modify, Array.getElem?_modify, if_pos rfl, get?]

theorem get?_modify_self {p : Pool} {h : Handle} {d : Descriptor} (hd : p.get? h = some d)
    (f : Descriptor → Descriptor) : (p.modify h f).get? h = some (f d) := by
  rw [get?_modify, hd, Option.map_some]

theorem get?_modify_of_ne {p : Pool} {h k : Handle} (hk : k ≠ h) (f : Descriptor → Descriptor) :
    (p.modify h f).get? k = p.get? k := by
  have : h.index ≠ k.index := fun e ↦ hk (by cases h; cases k; simp_all)
  rw [get?, modify, Array.getElem?_modify, if_neg this, get?]

theorem size_modify (p : Pool) (h : Handle) (f : Descriptor → Descriptor) :
    (p.modify h f).slots.size = p.slots.size := Array.size_modify

theorem get?_acquire {p : Pool} {pc : VirtAddr}
    (hp : ∀ h ∈ p.free, h.index < p.slots.size) :
    (p.acquire pc).2.get? (p.acquire pc).1 = some (.fresh pc) := by
  obtain ⟨slots, free⟩ := p
  cases free with
  | nil => simp [acquire, get?]
  | cons h free =>
    have := hp h List.mem_cons_self
    simp_all [acquire, get?]

theorem get?_acquire_of_ne {p : Pool} {pc : VirtAddr} {k : Handle}
    (hk : k ≠ (p.acquire pc).1) : (p.acquire pc).2.get? k = p.get? k := by
  obtain ⟨slots, free⟩ := p
  cases free with
  | nil =>
    have : k.index ≠ slots.size := fun e ↦ hk (by cases k; simp_all [acquire])
    simp [acquire, get?, Array.getElem?_push, this]
  | cons h free =>
    have : h.index ≠ k.index := fun e ↦ hk (by cases h; cases k; simp_all [acquire])
    simp [acquire, get?, Array.getElem?_setIfInBounds_ne this]

end Pool

end MipsBlocks
