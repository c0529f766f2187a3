import MipsBlocks.Block.Sequence

/-!
# Required registers of a sequence

The backward pass of `Sequence.require` computes exactly which written registers are still wanted:
a register that an instruction writes is required unless a later instruction of the sequence
overwrites it first (`mem_required_iff`). Overwritten first (`OverwrittenAfter`) means that the
later instruction writes the register without reading it, and that nothing between the two reads
the register or is a branch.

A delay slot takes part in the pass, but what it reads and writes is forgotten at its branch, where
all registers may be read (`Sequence.nodes_require`). The pass meets the slot before it forgets:
what a slot writes counts as overwritten if the sequence overwrites it where the branch falls
through (`Sequence.mem_required_slot_iff`).
-/

set_option autoImplicit false
set_option relaxedAutoImplicit false

namespace MipsBlocks

namespace Analysis

/-- The registers that may be read from the first of some analyses on. -/
def liveBefore (l : List Analysis) : RegSet := l.foldr (fun a live ↦ (a.require live).2) .all

/-- The analyses with their required registers. -/
def requireAll : List Analysis → List Analysis
  | [] => []
  | a :: l => (a.require (liveBefore l)).1 :: requireAll l

/-- A register is overwritten after place `i` of some analyses: a later one writes it and does not
read it, and none between them reads it or is a branch. -/
def OverwrittenAfter (l : List Analysis) (i : Nat) (r : Register) : Prop :=
  ∃ k b, i < k ∧ l[k]? = some b ∧ r ∈ b.writes ∧ r ∉ b.reads ∧
    ∀ j c, i < j → j < k → l[j]? = some c → c.isBranch = false ∧ r ∉ c.reads

variable {a b : Analysis} {l : List Analysis} {i : Nat} {r : Register}

/-! ### The backward pass -/

theorem mem_require_iff {live : RegSet} :
    r ∈ (a.require live).1.required ↔ r ∈ a.writes ∧ (a.isBranch = true ∨ r ∈ live) := by
  by_cases ha : a.isBranch = true <;> simp [require, ha]

theorem mem_liveBefore_cons_iff : r ∈ liveBefore (a :: l) ↔
    r ∈ a.reads ∨ (r ∉ a.writes ∧ (a.isBranch = true ∨ r ∈ liveBefore l)) := by
  show r ∈ RegSet.replace (if a.isBranch then .all else liveBefore l) a.writes a.reads ↔ _
  rw [RegSet.mem_replace]
  by_cases ha : a.isBranch = true
  · simp [ha, or_comm]
  · simp [ha, and_comm, or_comm]

/-- What is required does not change what is live. -/
theorem liveBefore_requireAll (l : List Analysis) : liveBefore (requireAll l) = liveBefore l := by
  induction l with
  | nil => rfl
  | cons a l ih =>
    ext r
    rw [requireAll, mem_liveBefore_cons_iff, ih, mem_liveBefore_cons_iff]
    rfl

/-! ### The forward reading -/

theorem overwrittenAfter_cons_succ :
    OverwrittenAfter (a :: l) (i + 1) r ↔ OverwrittenAfter l i r := by
  constructor
  · rintro ⟨k, b, hik, hk, hwrites, hreads, hbetween⟩
    obtain ⟨k, rfl⟩ : ∃ m, k = m + 1 := ⟨k - 1, by omega⟩
    refine ⟨k, b, by omega, by simpa using hk, hwrites, hreads, fun j c hij hjk hj ↦ ?_⟩
    exact hbetween (j + 1) c (by omega) (by omega) (by simpa using hj)
  · rintro ⟨k, b, hik, hk, hwrites, hreads, hbetween⟩
    refine ⟨k + 1, b, by omega, by simpa using hk, hwrites, hreads, fun j c hij hjk hj ↦ ?_⟩
    obtain ⟨j, rfl⟩ : ∃ m, j = m + 1 := ⟨j - 1, by omega⟩
    exact hbetween j c (by omega) (by omega) (by simpa using hj)

/-- After the first analysis a register is overwritten by the second one, or after that one if it
lets the register pass. -/
theorem overwrittenAfter_cons_cons_zero : OverwrittenAfter (a :: b :: l) 0 r ↔
    r ∉ b.reads ∧ (r ∈ b.writes ∨ (b.isBranch = false ∧ OverwrittenAfter (b :: l) 0 r)) := by
  constructor
  · rintro ⟨k, c, hk, hc, hwrites, hreads, hbetween⟩
    obtain ⟨k, rfl⟩ : ∃ m, k = m + 1 := ⟨k - 1, by omega⟩
    cases k with
    | zero =>
      obtain rfl : b = c := by simpa using hc
      exact ⟨hreads, .inl hwrites⟩
    | succ k =>
      obtain ⟨hbranch, hpass⟩ := hbetween 1 b (by omega) (by omega) (by simp)
      refine ⟨hpass, .inr ⟨hbranch, k + 1, c, by omega, by simpa using hc, hwrites, hreads, ?_⟩⟩
      exact fun j d hj hjk hd ↦ hbetween (j + 1) d (by omega) (by omega) (by simpa using hd)
  · rintro ⟨hreads, hwrites | ⟨hbranch, k, c, hk, hc, hwrites, hcreads, hbetween⟩⟩
    · exact ⟨1, b, by omega, by simp, hwrites, hreads, fun j c _ _ _ ↦ by omega⟩
    · refine ⟨k + 1, c, by omega, by simpa using hc, hwrites, hcreads, fun j d hj hjk hd ↦ ?_⟩
      obtain ⟨j, rfl⟩ : ∃ m, j = m + 1 := ⟨j - 1, by omega⟩
      cases j with
      | zero =>
        obtain rfl : b = d := by simpa using hd
        exact ⟨hbranch, hreads⟩
      | succ j => exact hbetween (j + 1) d (by omega) (by omega) (by simpa using hd)

/-- A register is live where it is not overwritten before it may be read. -/
theorem notMem_liveBefore_iff : r ∉ liveBefore l ↔ OverwrittenAfter (a :: l) 0 r := by
  induction l generalizing a with
  | nil =>
    constructor
    · intro h
      exact absurd (RegSet.mem_all r) h
    · rintro ⟨k, b, hk, hb, -⟩
      rw [List.getElem?_cons, if_neg (by omega)] at hb
      simp at hb
  | cons b l ih =>
    rw [overwrittenAfter_cons_cons_zero, mem_liveBefore_cons_iff, ← ih (a := b)]
    rw [not_or, Classical.not_and_iff_not_or_not, Classical.not_not, not_or,
      Bool.not_eq_true]

/-- A written register is required exactly if it is a branch that writes it or it is not overwritten
afterwards. -/
theorem mem_required_iff (h : (requireAll l)[i]? = some a) :
    r ∈ a.required ↔
      r ∈ a.writes ∧ (a.isBranch = true ∨ ¬ OverwrittenAfter (requireAll l) i r) := by
  induction l generalizing i with
  | nil => simp [requireAll] at h
  | cons b l ih =>
    cases i with
    | zero =>
      obtain rfl : (b.require (liveBefore l)).1 = a := by simpa [requireAll] using h
      rw [requireAll, ← notMem_liveBefore_iff, liveBefore_requireAll, Classical.not_not]
      exact mem_require_iff
    | succ i =>
      rw [requireAll, overwrittenAfter_cons_succ]
      exact ih (by simpa [requireAll] using h)

end Analysis

/-! ### Delay slots -/

namespace Site

/-- Only a branch has a delay slot. -/
def OwnsSlot (a : Site) : Prop := a.slot.isSome = true → a.node.isBranch = true

/-- A delay slot changes nothing for the analyses before it. -/
theorem require_of_ownsSlot {a : Site} (ha : a.OwnsSlot) (live : RegSet) :
    (a.require live).1.node = (a.node.require live).1 ∧
      (a.require live).2 = (a.node.require live).2 := by
  cases hslot : a.slot with
  | none => simp [require, hslot]
  | some slot =>
    have hbranch : a.node.isBranch = true := ha (by rw [hslot]; rfl)
    simp [require, hslot, Analysis.require, hbranch]

/-- A delay slot is passed with what is live after the site. -/
theorem slot_require (a : Site) (live : RegSet) :
    (a.require live).1.slot = a.slot.map fun slot ↦ (slot.require live).1 := by
  cases hslot : a.slot <;> simp [require, hslot]

end Site

namespace Sequence

/-- The sites with their required registers, and the registers that may be read before them. -/
def pass (s : Sequence) : Sequence × RegSet :=
  s.foldr (fun site (done, live) ↦
    let (site, live) := site.require live
    (site :: done, live)) ([], RegSet.all)

theorem require_cons (a : Site) (s : Sequence) :
    require (a :: s) = (a.require (pass s).2).1 :: require s := rfl

theorem nodes_require {s : Sequence} (hs : ∀ a ∈ s, a.OwnsSlot) :
    s.require.map Site.node = Analysis.requireAll (s.map Site.node) ∧
      (pass s).2 = Analysis.liveBefore (s.map Site.node) := by
  induction s with
  | nil => exact ⟨rfl, rfl⟩
  | cons a s ih =>
    obtain ⟨hnodes, hlive⟩ := ih fun b hb ↦ hs b (List.mem_cons_of_mem a hb)
    obtain ⟨hnode, hbefore⟩ := Site.require_of_ownsSlot (hs a List.mem_cons_self) (pass s).2
    constructor
    · rw [require_cons, List.map_cons, List.map_cons, Analysis.requireAll, hnodes, hnode, hlive]
    · show (a.require (pass s).2).2 = (a.node.require (Analysis.liveBefore (s.map Site.node))).2
      rw [hbefore, hlive]

/-- What a delay slot writes is required unless the sequence overwrites it after the branch; all of
it is if the slot is itself a branch. -/
theorem mem_required_slot_iff {s : Sequence} (hs : ∀ a ∈ s, a.OwnsSlot) {i : Nat} {a : Site}
    (ha : s.require[i]? = some a) {slot : Analysis} (hslot : slot ∈ a.slot) {r : Register} :
    r ∈ slot.required ↔ r ∈ slot.writes ∧
      (slot.isBranch = true ∨ ¬ Analysis.OverwrittenAfter (s.require.map Site.node) i r) := by
  induction s generalizing i with
  | nil =>
    change ([] : Sequence)[i]? = some a at ha
    simp at ha
  | cons b s ih =>
    have htail : ∀ c ∈ s, c.OwnsSlot := fun c hc ↦ hs c (List.mem_cons_of_mem b hc)
    rw [require_cons] at ha
    rw [require_cons, List.map_cons]
    cases i with
    | zero =>
      obtain rfl : (b.require (pass s).2).1 = a := by simpa using ha
      rw [Site.slot_require] at hslot
      obtain ⟨old, -, rfl⟩ := Option.map_eq_some_iff.mp hslot
      obtain ⟨hnodes, hlive⟩ := nodes_require htail
      rw [hnodes, ← Analysis.notMem_liveBefore_iff, Analysis.liveBefore_requireAll, ← hlive,
        Classical.not_not]
      exact Analysis.mem_require_iff
    | succ i =>
      rw [Analysis.overwrittenAfter_cons_succ]
      exact ih htail (by simpa using ha)

end Sequence

end MipsBlocks
