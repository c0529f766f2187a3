/-!
# Processor models

A `Flavor` is a processor model; the models are ordered by capability. It implies an instruction-set
level (`Flavor.isaLevel`) and, for one model, a vendor group of multiply instructions
(`Flavor.hasIdtExtensions`). What an encoding asks of the processor is a `Requirement`, and
`Flavor.Provides` says which models meet it.
-/

set_option autoImplicit false
set_option relaxedAutoImplicit false

namespace MipsBlocks

/-- An instruction-set level; the higher one adds encodings to the lower one. -/
inductive IsaLevel where
  | mips3
  | mips4
  deriving DecidableEq

namespace IsaLevel

def rank : IsaLevel → Nat
  | mips3 => 3
  | mips4 => 4

def name : IsaLevel → String
  | mips3 => "Mips3"
  | mips4 => "Mips4"

instance : LE IsaLevel := ⟨fun a b ↦ a.rank ≤ b.rank⟩
instance (a b : IsaLevel) : Decidable (a ≤ b) := inferInstanceAs (Decidable (a.rank ≤ b.rank))
instance : Ord IsaLevel := ⟨fun a b ↦ compare a.rank b.rank⟩

end IsaLevel

/-- A processor model. -/
inductive Flavor where
  | vr4300
  | r4600
  /-- Has the vendor group of multiply instructions. -/
  | r4650
  | r4700
  | r5000
  | qed5271
  | rm7000
  deriving DecidableEq

namespace Flavor

/-- All models, ordered by capability. -/
def all : List Flavor := [vr4300, r4600, r4650, r4700, r5000, qed5271, rm7000]

def name : Flavor → String
  | vr4300 => "vr4300"
  | r4600 => "r4600"
  | r4650 => "r4650"
  | r4700 => "r4700"
  | r5000 => "r5000"
  | qed5271 => "qed5271"
  | rm7000 => "rm7000"

theorem mem_all (f : Flavor) : f ∈ all := by cases f <;> decide

/-- The model with a name. -/
def ofName? (name : String) : Option Flavor := all.find? (·.name = name)

theorem ofName?_name (f : Flavor) : ofName? f.name = some f := by cases f <;> decide

/-- The place in the order of capability. -/
def rank (f : Flavor) : Nat := all.idxOf f

instance : LE Flavor := ⟨fun a b ↦ a.rank ≤ b.rank⟩
instance (a b : Flavor) : Decidable (a ≤ b) := inferInstanceAs (Decidable (a.rank ≤ b.rank))
instance : Ord Flavor := ⟨fun a b ↦ compare a.rank b.rank⟩

def isaLevel (f : Flavor) : IsaLevel := if r5000 ≤ f then .mips4 else .mips3

def hasIdtExtensions (f : Flavor) : Bool := f = r4650

end Flavor

/-- What an encoding asks of the processor. -/
inductive Requirement where
  /-- Every model decodes it. -/
  | base
  /-- The level MIPS IV or a higher one. -/
  | mips4
  /-- The vendor group of multiply instructions. -/
  | idt
  deriving DecidableEq

/-- Whether a model meets a requirement. -/
def Flavor.provides (f : Flavor) : Requirement → Bool
  | .base => true
  | .mips4 => .mips4 ≤ f.isaLevel
  | .idt => f.hasIdtExtensions

end MipsBlocks
