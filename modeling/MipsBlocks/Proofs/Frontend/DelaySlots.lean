import MipsBlocks.Proofs.Frontend.Sequences

/-!
# Required registers of delay slots

What a delay slot of a described block writes is required unless the sequence of its branch
overwrites it after the branch (`slots_required_of_describeBlock`). A slot runs on the way to the
target of its branch, so nothing after the branch in the sequence says what is read there; still an
output is dropped that the path falling through overwrites first. A conditional branch falls through
to its own slot, described once more as an instruction of the sequence, which overwrites whatever
the slot writes and does not read (`slot_required_dropped`).

Scope. A slot keeps all its outputs where the sequence ends with its branch, or where the slot is a
branch itself.
-/

set_option autoImplicit false
set_option relaxedAutoImplicit false

namespace MipsBlocks

namespace Frontend

variable {config : Config} {source : Source} {w : Window} {before f : Frontend} {b : Block}
  {used : List Handle}

/-- After the end of its sequence nothing is overwritten any more. -/
theorem not_overwrittenAfter_of_endsSequence {s : Sequence} (hs : s.Delimited) {i : Nat} {a : Site}
    (ha : s[i]? = some a) (hends : .endSequence ∈ a.node.flags) (r : Register) :
    ¬ Analysis.OverwrittenAfter (s.map Site.node) i r := by
  rintro ⟨k, c, hik, hc, -⟩
  have hk : k < s.length := by
    have hlt := (List.getElem?_eq_some_iff.mp hc).1
    rwa [List.length_map] at hlt
  have hinner := List.isChain_iff_getElem.mp hs.inner i (by omega)
  rw [List.getElem?_eq_getElem (by omega)] at ha
  rw [Option.some.inj ha] at hinner
  exact hinner.1 hends

/-- A delay slot in the pool belongs to a place of a sequence. -/
theorem exists_place_of_slot (hvalid : config.Valid)
    (h : before.Adds f b used (Outline.describe config source w).sites)
    {e : Handle × Descriptor} (he : e ∈ f.chain b) {k : Handle} (hk : k ∈ e.2.delaySlot) :
    ∃ s ∈ (Outline.describe config source w).sequences, ∃ (i : Nat) (site : Site),
      s[i]? = some site ∧
      s.map Site.node ∈ f.sequences b ∧ site.node = e.2.toAnalysis ∧
        ∃ slot ∈ site.slot, f.descriptor? k = some { slot with owner := some e.1 } := by
  obtain ⟨site, hsite, hnode, slot, hslot, hget⟩ := exists_slot_of_mem h he hk
  obtain ⟨s, hs, hmem⟩ := List.mem_flatten.mp hsite
  obtain ⟨i, hi⟩ := List.mem_iff_getElem?.mp hmem
  refine ⟨s, hs, i, site, hi, ?_, hnode, slot, hslot, hget⟩
  rw [sequences_eq hvalid h]
  exact List.mem_map_of_mem hs

/-- What a delay slot writes is required exactly if the slot is a branch itself or the sequence does
not overwrite it after the branch that owns the slot. -/
theorem slots_required_of_describeBlock {valid : config.Valid} {ops : List Session.Op}
    {start min max : VirtAddr}
    (h : (Session.run config valid ops).frontend.describeBlock source start min max = .ok (b, f)) :
    ∀ e ∈ f.chain b, ∀ k ∈ e.2.delaySlot, ∃ (d : Descriptor) (s : List Analysis) (i : Nat),
      f.descriptor? k = some d ∧ s ∈ f.sequences b ∧ s[i]? = some e.2.toAnalysis ∧
      (∀ r : Register, r ∈ d.required ↔
        r ∈ d.writes ∧ (d.isBranch = true ∨ ¬ Analysis.OverwrittenAfter s i r)) ∧
      (d.required = d.writes ↔
        d.isBranch = true ∨ ∀ r ∈ d.writes, ¬ Analysis.OverwrittenAfter s i r) ∧
      (e.2.endsSequence = true → d.required = d.writes) := by
  intro e he k hk
  obtain ⟨w, -, -, -, hadds⟩ := Session.exists_window_of_describeBlock h
  obtain ⟨s, hs, i, site, hi, hsequence, hnode, slot, hslot, hget⟩ :=
    exists_place_of_slot valid hadds he hk
  have hmem (r : Register) : r ∈ slot.required ↔ r ∈ slot.writes ∧
      (slot.isBranch = true ∨ ¬ Analysis.OverwrittenAfter (s.map Site.node) i r) := by
    obtain ⟨t, ht, rfl⟩ := Outline.exists_require_of_mem hs
    exact Sequence.mem_required_slot_iff ht hi hslot
  have hall : slot.required = slot.writes ↔ slot.isBranch = true ∨
      ∀ r ∈ slot.writes, ¬ Analysis.OverwrittenAfter (s.map Site.node) i r := by
    constructor
    · intro heq
      by_cases hbranch : slot.isBranch = true
      · exact .inl hbranch
      · exact .inr fun r hr ↦ ((hmem r).mp (heq ▸ hr)).2.resolve_left hbranch
    · intro hkept
      ext r
      rw [hmem r]
      exact and_iff_left_of_imp fun hr ↦ hkept.imp_right fun hnot ↦ hnot r hr
  refine ⟨_, s.map Site.node, i, hget, hsequence, ?_, hmem, hall, fun hends ↦ hall.mpr (.inr ?_)⟩
  · rw [List.getElem?_map, hi, Option.map_some, hnode]
  · intro r _
    have hlast : .endSequence ∈ site.node.flags := by
      rw [hnode]
      exact of_decide_eq_true hends
    exact not_overwrittenAfter_of_endsSequence (Outline.sound_of_mem valid hs).delimited hi hlast r

/-- The conditional branch of the loop has an addition in its slot, which comes once more after the
branch. -/
theorem slots_required_loop : ∃ b f,
    (Session.run {} Config.valid_default []).frontend.describeBlock .loop ⟨0x1008⟩ ⟨0x1000⟩
      ⟨0x1018⟩ = .ok (b, f) ∧
    ∃ e ∈ f.chain b, e.2.pc = ⟨0x100c⟩ ∧ ∃ k ∈ e.2.delaySlot,
      ∃ (d : Descriptor) (s : List Analysis) (i : Nat), f.descriptor? k = some d ∧
        s ∈ f.sequences b ∧ s[i]? = some e.2.toAnalysis ∧ Register.gpr 9 ∈ d.writes ∧
          Register.gpr 9 ∉ d.required ∧ Analysis.OverwrittenAfter s i (.gpr 9) := by
  obtain ⟨b, f, h, e, he, hpc, k, hk, d, hd, hwrites, hrequired⟩ : ∃ b f,
      (Session.run {} Config.valid_default []).frontend.describeBlock .loop ⟨0x1008⟩ ⟨0x1000⟩
        ⟨0x1018⟩ = .ok (b, f) ∧
      ∃ e ∈ f.chain b, e.2.pc = ⟨0x100c⟩ ∧ ∃ k ∈ e.2.delaySlot, ∃ d ∈ f.descriptor? k,
        Register.gpr 9 ∈ d.writes ∧ Register.gpr 9 ∉ d.required :=
    ⟨_, _, rfl, by decide +kernel⟩
  obtain ⟨d', s, i, hd', hs, hi, hmem, -⟩ := slots_required_of_describeBlock h e he k hk
  obtain rfl : d = d' := Option.some.inj (hd.symm.trans hd')
  refine ⟨b, f, h, e, he, hpc, k, hk, d, s, i, hd, hs, hi, hwrites, hrequired, ?_⟩
  by_contra hkept
  exact hrequired ((hmem (.gpr 9)).mpr ⟨hwrites, .inr hkept⟩)

open Assembler in
/-- The branch leads past the instruction in its slot, which is all that writes its register there;
falling through comes to the same instruction again, and the slot loses its output. -/
theorem slot_required_dropped : ∃ b f,
    (Session.run {} Config.valid_default []).frontend.describeBlock
      (.listing ⟨0x1000⟩ [bne 8 9 2, addiu 10 0 1, jr 31, nop]) ⟨0x1000⟩ ⟨0x1000⟩ ⟨0x1010⟩ =
        .ok (b, f) ∧
    ∃ e ∈ f.chain b, e.2.target = some ⟨0x100c⟩ ∧ ∃ k ∈ e.2.delaySlot, ∃ d ∈ f.descriptor? k,
      d.writes = {.gpr 10} ∧ d.required = ∅ ∧ d.required ≠ d.writes :=
  ⟨_, _, rfl, by decide +kernel⟩

end Frontend

end MipsBlocks
