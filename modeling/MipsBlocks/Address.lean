import MipsBlocks.Overflow

/-!
# Guest addresses

Virtual and physical addresses are 64-bit words of two different types. Adding a word to a virtual
address wraps (`a + d`); `saturatingAdd` and `saturatingSub` stop at the ends of the address space;
`add?`, `sub?` and `page?` have no result when the exact one does not fit. The laws in `Nat`
(`toNat_add`, `toNat_saturatingAdd`, `toNat_saturatingSub`, `add?_eq_ok_iff`, `sub?_eq_ok_iff`)
are what the rest of the library uses.

An address is written in hexadecimal, either as short as possible (`VirtAddr.hex`) or with at least
eight digits (`VirtAddr.text`).
-/

set_option autoImplicit false
set_option relaxedAutoImplicit false

namespace MipsBlocks

/-! ### Hexadecimal text -/

namespace Hex

/-- The lower-case digits of `n`, without leading zeros. -/
def digits (n : Nat) : List Char := Nat.toDigits 16 n

/-- `n` with the mark `0x` and no leading zeros. -/
def text (n : Nat) : String := "0x" ++ String.ofList (digits n)

/-- `n` with the mark `0x` and zeros in front up to `width` digits. -/
def padded (width n : Nat) : String :=
  "0x" ++ String.ofList (List.replicate (width - (digits n).length) '0' ++ digits n)

end Hex

/-! ### Virtual addresses -/

/-- An address of the guest's virtual space. -/
structure VirtAddr where
  bits : BitVec 64
  deriving DecidableEq

namespace VirtAddr

def toNat (a : VirtAddr) : Nat := a.bits.toNat

/-- The address with the number `n` modulo `2 ^ 64`. -/
def ofNat (n : Nat) : VirtAddr := ⟨BitVec.ofNat 64 n⟩

theorem toNat_lt (a : VirtAddr) : a.toNat < 0x10000000000000000 := a.bits.isLt

@[simp] theorem toNat_ofNat (n : Nat) : (ofNat n).toNat = n % 0x10000000000000000 := by
  simp [ofNat, toNat]

@[simp] theorem ofNat_toNat (a : VirtAddr) : ofNat a.toNat = a := by
  simp [ofNat, toNat]

@[ext] theorem eq_of_toNat_eq {a b : VirtAddr} (h : a.toNat = b.toNat) : a = b := by
  rw [← ofNat_toNat a, h, ofNat_toNat]

instance : LE VirtAddr := ⟨fun a b ↦ a.toNat ≤ b.toNat⟩
instance : LT VirtAddr := ⟨fun a b ↦ a.toNat < b.toNat⟩
instance (a b : VirtAddr) : Decidable (a ≤ b) := inferInstanceAs (Decidable (a.toNat ≤ b.toNat))
instance (a b : VirtAddr) : Decidable (a < b) := inferInstanceAs (Decidable (a.toNat < b.toNat))
instance : Ord VirtAddr := ⟨fun a b ↦ compare a.toNat b.toNat⟩

theorem le_iff {a b : VirtAddr} : a ≤ b ↔ a.toNat ≤ b.toNat := Iff.rfl
theorem lt_iff {a b : VirtAddr} : a < b ↔ a.toNat < b.toNat := Iff.rfl

/-- Addition of a word wraps around the address space. -/
instance : HAdd VirtAddr (BitVec 64) VirtAddr := ⟨fun a d ↦ ⟨a.bits + d⟩⟩

theorem toNat_add (a : VirtAddr) (d : BitVec 64) :
    (a + d).toNat = (a.toNat + d.toNat) % 0x10000000000000000 :=
  BitVec.toNat_add a.bits d

/-- The last address. -/
def last : VirtAddr := ⟨BitVec.allOnes 64⟩

theorem toNat_last : last.toNat = 0xffffffffffffffff := rfl

/-- The address `n` bytes further, or the last address. -/
def saturatingAdd (a : VirtAddr) (n : Nat) : VirtAddr := ofNat (min (a.toNat + n) last.toNat)

/-- The address `n` bytes earlier, or the first address. -/
def saturatingSub (a : VirtAddr) (n : Nat) : VirtAddr := ofNat (a.toNat - n)

/-- The address `n` bytes further, if there is one. -/
def add? (a : VirtAddr) (n : Nat) : Except Overflow VirtAddr :=
  if a.toNat + n ≤ last.toNat then .ok (ofNat (a.toNat + n)) else .error .add

/-- The number of bytes from `b` up to `a`, if `b` is not above `a`. -/
def sub? (a b : VirtAddr) : Except Overflow Nat :=
  if b ≤ a then .ok (a.toNat - b.toNat) else .error .subtract

/-- The number of the page of `2 ^ shift` bytes that holds `a`, for a shift below the word width. -/
def page? (a : VirtAddr) (shift : Nat) : Except Overflow Nat :=
  if shift < 64 then .ok (a.toNat >>> shift) else .error .shiftRight

/-- The bits of `a` that `mask` selects. -/
def select (a : VirtAddr) (mask : BitVec 64) : BitVec 64 := a.bits &&& mask

theorem add?_eq_ok_iff {a b : VirtAddr} {n : Nat} :
    a.add? n = .ok b ↔ a.toNat + n = b.toNat := by
  have hb := b.toNat_lt
  rw [add?, toNat_last]
  split
  · rw [Except.ok.injEq]
    constructor
    · rintro rfl
      rw [toNat_ofNat]
      omega
    · intro h
      rw [h, ofNat_toNat]
  · simp only [reduceCtorEq, false_iff]
    omega

theorem sub?_eq_ok_iff {a b : VirtAddr} {n : Nat} :
    a.sub? b = .ok n ↔ b.toNat + n = a.toNat := by
  unfold sub?
  split
  · rename_i h
    rw [le_iff] at h
    rw [Except.ok.injEq]
    omega
  · rename_i h
    rw [le_iff] at h
    simp only [reduceCtorEq, false_iff]
    omega

/-- Whether `a` is a multiple of the instruction width. -/
def IsAligned (a : VirtAddr) : Prop := a.toNat % 4 = 0

instance (a : VirtAddr) : Decidable a.IsAligned := inferInstanceAs (Decidable (_ = _))

/-- The largest aligned address not above `a`. -/
def alignDown (a : VirtAddr) : VirtAddr := ofNat (a.toNat / 4 * 4)

/-- Written as short as possible. -/
def hex (a : VirtAddr) : String := Hex.text a.toNat

/-- Written with at least eight digits. -/
def text (a : VirtAddr) : String := Hex.padded 8 a.toNat

end VirtAddr

/-! ### Physical addresses -/

/-- An address of the guest's physical space. -/
structure PhysAddr where
  bits : BitVec 64
  deriving DecidableEq

namespace PhysAddr

def toNat (a : PhysAddr) : Nat := a.bits.toNat

def hex (a : PhysAddr) : String := Hex.text a.toNat

end PhysAddr

/-- The physical address with the same number. -/
def VirtAddr.toPhys (a : VirtAddr) : PhysAddr := ⟨a.bits⟩

/-! ### Spaces and accesses -/

/-- The space that a translation is asked for. Instructions come from the program space unless the
configuration says otherwise. -/
inductive AddressSpace where
  | program
  | data
  | io
  deriving DecidableEq

namespace AddressSpace

def all : List AddressSpace := [program, data, io]

def name : AddressSpace → String
  | program => "program"
  | data => "data"
  | io => "io"

theorem mem_all (s : AddressSpace) : s ∈ all := by cases s <;> simp [all]

/-- The space with a name. -/
def ofName? (name : String) : Option AddressSpace := all.find? (·.name = name)

theorem ofName?_name (s : AddressSpace) : ofName? s.name = some s := by cases s <;> decide

end AddressSpace

/-- What an access to memory was for. -/
inductive Access where
  | read
  | write
  | execute
  deriving DecidableEq

def Access.name : Access → String
  | .read => "Read"
  | .write => "Write"
  | .execute => "Execute"

end MipsBlocks
