import MipsBlocks.Proofs.Block.Outline
import MipsBlocks.Proofs.Survey.Targets
import Mathlib.Data.List.DropRight

/-!
# Where the sequences of a range end

A list of analyses that is cut into sequences (`Analysis.Cut`) has an end at a place exactly if it
is the last one, if its neighbours there are apart, or if a sequence is full there
(`Analysis.Cut.endsSequence_iff`). How full a sequence is at a place can be read off the list: it is
the number of analyses since the last end before it (`Analysis.sinceEnd`).

The ranges of an outline are cut in this way, with the neighbours apart that the survey keeps apart
(`Outline.cut_range`). The induction is on the sequences: at a place behind the first one its end is
the last end that counts.
-/

set_option autoImplicit false
set_option relaxedAutoImplicit false

namespace MipsBlocks

namespace Analysis

/-! ### Ends in a list of sequences -/

/-- How many analyses come before a place, back to the last end of a sequence or to the beginning of
the list. -/
def sinceEnd (l : List Analysis) (i : Nat) : Nat :=
  ((l.take i).rtakeWhile fun a ↦ !a.endsSequence).length

/-- Nothing before an end counts. -/
theorem sinceEnd_append {s : List Analysis} (hlast : ∀ a ∈ s.getLast?, a.endsSequence = true)
    (l : List Analysis) (i : Nat) : sinceEnd (s ++ l) (s.length + i) = sinceEnd l i := by
  have hstop : s.reverse.takeWhile (fun a ↦ !a.endsSequence) = [] := by
    cases hs : s.reverse with
    | nil => rfl
    | cons a rest =>
      have hend := hlast a (by rw [← List.head?_reverse, hs]; rfl)
      rw [List.takeWhile_cons_of_neg (by simp [hend])]
  rw [sinceEnd, sinceEnd, List.rtakeWhile, List.rtakeWhile, List.take_length_add_append,
    List.reverse_append, List.takeWhile_append, hstop, List.append_nil]
  split
  · rename_i hall
    simpa using hall.symm
  · rfl

/-- Up to the first end every analysis counts. -/
theorem sinceEnd_of_lt {s : List Analysis} (l : List Analysis) {i : Nat} (hi : i < s.length)
    (hinner : ∀ j, j < i → ∀ a, s[j]? = some a → a.endsSequence = false) :
    sinceEnd (s ++ l) i = i := by
  have hall : ∀ a ∈ s.take i, (!a.endsSequence) = true := by
    intro a ha
    obtain ⟨j, hj, rfl⟩ := List.mem_take_iff_getElem.mp ha
    rw [hinner j (by omega) s[j] (List.getElem?_eq_getElem _)]
    rfl
  rw [sinceEnd, List.take_append_of_le_length (Nat.le_of_lt hi),
    List.rtakeWhile_eq_self_iff.mpr hall, List.length_take]
  omega

/-- Sequences of at most `limit` analyses that end at their last one. Between two of them there is a
reason for a cut: the first one is full, or the neighbours are `apart`. -/
structure Cut (limit : Nat) (apart : Analysis → Analysis → Prop) (l : List (List Analysis)) :
    Prop where
  ne_nil : [] ∉ l
  length_le : ∀ s ∈ l, s.length ≤ limit
  last : ∀ s ∈ l, ∀ a ∈ s.getLast?, a.endsSequence = true
  inner : ∀ s ∈ l, s.IsChain fun a c ↦ a.endsSequence = false ∧ ¬ apart a c
  seam : l.IsChain fun s t ↦
    s.length = limit ∨ ∀ a ∈ s.getLast?, ∀ c ∈ t.head?, apart a c

namespace Cut

variable {limit : Nat} {apart : Analysis → Analysis → Prop} {s : List Analysis}
  {l : List (List Analysis)}

theorem tail (h : Cut limit apart (s :: l)) : Cut limit apart l where
  ne_nil hnil := h.ne_nil (List.mem_cons_of_mem s hnil)
  length_le t ht := h.length_le t (List.mem_cons_of_mem s ht)
  last t ht := h.last t (List.mem_cons_of_mem s ht)
  inner t ht := h.inner t (List.mem_cons_of_mem s ht)
  seam := h.seam.tail

/-- Inside a sequence there is no end. -/
theorem endsSequence_eq_false (h : Cut limit apart (s :: l)) {i : Nat} (hi : i + 1 < s.length)
    {a : Analysis} (ha : s[i]? = some a) : a.endsSequence = false := by
  obtain ⟨hlt, rfl⟩ := List.getElem?_eq_some_iff.mp ha
  exact ((List.isChain_iff_getElem.mp (h.inner s List.mem_cons_self)) i hi).1

theorem sinceEnd_eq (h : Cut limit apart (s :: l)) {i : Nat} (hi : i < s.length) :
    sinceEnd (s :: l).flatten i = i := by
  rw [List.flatten_cons]
  exact sinceEnd_of_lt _ hi fun j hj a ha ↦ h.endsSequence_eq_false (by omega) ha

/-- At a place inside the first sequence there is neither an end nor a reason for one. -/
theorem endsSequence_iff_of_inner (h : Cut limit apart (s :: l)) {i : Nat} (hi : i + 1 < s.length)
    {a : Analysis} (ha : s[i]? = some a) : a.endsSequence = true ↔
      i + 1 = (s :: l).flatten.length ∨ (∃ c ∈ (s :: l).flatten[i + 1]?, apart a c) ∨
        sinceEnd (s :: l).flatten i + 1 = limit := by
  have hlength := h.length_le s List.mem_cons_self
  obtain ⟨hlt, rfl⟩ := List.getElem?_eq_some_iff.mp ha
  have hapart := ((List.isChain_iff_getElem.mp (h.inner s List.mem_cons_self)) i hi).2
  refine iff_of_false (by rw [h.endsSequence_eq_false hi ha]; decide) ?_
  rw [h.sinceEnd_eq hlt, List.flatten_cons, List.getElem?_append_left hi,
    List.getElem?_eq_getElem hi, List.length_append]
  rintro (hend | ⟨c, hc, hyes⟩ | hfull)
  · omega
  · obtain rfl := Option.some.inj hc
    exact hapart hyes
  · omega

/-- At the last place of the first sequence there are an end and a reason for it. -/
theorem endsSequence_iff_of_last (h : Cut limit apart (s :: l)) {i : Nat} (hi : i + 1 = s.length)
    {a : Analysis} (ha : s[i]? = some a) : a.endsSequence = true ↔
      i + 1 = (s :: l).flatten.length ∨ (∃ c ∈ (s :: l).flatten[i + 1]?, apart a c) ∨
        sinceEnd (s :: l).flatten i + 1 = limit := by
  have hlast : a ∈ s.getLast? := by
    rw [List.getLast?_eq_getElem?, ← hi]
    exact ha
  refine iff_of_true (h.last s List.mem_cons_self a hlast) ?_
  rw [h.sinceEnd_eq (by omega), List.flatten_cons, List.length_append,
    List.getElem?_append_right (by omega), hi, Nat.sub_self]
  cases l with
  | nil => exact .inl rfl
  | cons t l =>
    rcases (List.isChain_cons_cons.mp h.seam).1 with hfull | hapart
    · exact .inr (.inr hfull)
    · have hne : t ≠ [] := fun hnil ↦ h.ne_nil (by simp [hnil])
      obtain ⟨c, rest, rfl⟩ := List.exists_cons_of_ne_nil hne
      exact .inr (.inl ⟨c, rfl, hapart a hlast c rfl⟩)

/-- A cut list has its ends where there is a reason for them, and nowhere else. -/
theorem endsSequence_iff (h : Cut limit apart l) {i : Nat} {a : Analysis}
    (ha : l.flatten[i]? = some a) : a.endsSequence = true ↔
      i + 1 = l.flatten.length ∨ (∃ c ∈ l.flatten[i + 1]?, apart a c) ∨
        sinceEnd l.flatten i + 1 = limit := by
  induction l generalizing i with
  | nil => cases ha
  | cons s l ih =>
    rcases Nat.lt_trichotomy (i + 1) s.length with hinner | hlast | hafter
    · rw [List.flatten_cons, List.getElem?_append_left (by omega)] at ha
      exact h.endsSequence_iff_of_inner hinner ha
    · rw [List.flatten_cons, List.getElem?_append_left (by omega)] at ha
      exact h.endsSequence_iff_of_last hlast ha
    · obtain ⟨k, rfl⟩ : ∃ k, i = s.length + k := ⟨i - s.length, by omega⟩
      rw [List.flatten_cons, List.getElem?_append_right (by omega), Nat.add_sub_cancel_left] at ha
      rw [ih h.tail ha, List.flatten_cons, sinceEnd_append (h.last s List.mem_cons_self),
        Nat.add_assoc, List.getElem?_append_right (by omega), Nat.add_sub_cancel_left,
        List.length_append, Nat.add_left_cancel_iff]

end Cut

end Analysis

/-! ### The ranges of an outline -/

namespace Sequence

/-- The last site of a finished sequence has the address of the last one before. -/
theorem exists_getLast?_finish {s : Sequence} {a : Analysis}
    (ha : a ∈ (s.delimit.require.map Site.node).getLast?) :
    ∃ b ∈ s.getLast?, a.pc = b.node.pc := by
  rw [List.getLast?_map] at ha
  obtain ⟨site, hsite, rfl⟩ := Option.map_eq_some_iff.mp ha
  obtain ⟨b, hb, hgains⟩ := exists_getLast?_of_forall₂ (gains_finish s) hsite
  exact ⟨b, hb, hgains.pc⟩

/-- The first site of a finished sequence has the address of the first one before. -/
theorem exists_head?_finish {s : Sequence} {a : Analysis}
    (ha : a ∈ (s.delimit.require.map Site.node).head?) :
    ∃ b ∈ s.head?, a.pc = b.node.pc := by
  rw [List.head?_map] at ha
  obtain ⟨site, hsite, rfl⟩ := Option.map_eq_some_iff.mp ha
  obtain ⟨b, hb, hgains⟩ := exists_head?_of_forall₂ (gains_finish s) hsite
  exact ⟨b, hb, hgains.pc⟩

end Sequence

namespace Outline

/-- The sequences of a range are cut. Assumes: the neighbours in the range that cannot be in one
sequence are those that are `apart`, which depends on their addresses alone. -/
theorem cut_range {limit : Nat} (hlimit : limit ≠ 0) (exit : Analysis → RangeExit)
    {sites : List Site} {apart : VirtAddr → VirtAddr → Prop}
    (hsites : sites.IsChain fun a b ↦
      Sequence.joined a b = false ↔ apart a.node.pc b.node.pc) :
    Analysis.Cut limit (fun a c ↦ apart a.pc c.pc)
      ((range limit exit sites).map (List.map Site.node)) := by
  have hclose := isChain_close exit (fun flags hflags a b hab ↦ by rwa [joined_flag hflags]) hsites
  obtain ⟨hpieces, hseams⟩ := (Sequence.isChain_iff_cut limit).mp hclose
  have hmem (l : List Analysis)
      (hl : l ∈ (range limit exit sites).map (List.map Site.node)) :
      ∃ piece ∈ Sequence.cut limit (close exit sites),
        l = piece.delimit.require.map Site.node ∧ piece.delimit.require.Delimited := by
    obtain ⟨s, hs, rfl⟩ := List.mem_map.mp hl
    obtain ⟨piece, hpiece, rfl, hdelimited⟩ := exists_piece_of_mem_range hs
    exact ⟨piece, hpiece, rfl, hdelimited⟩
  refine ⟨fun hnil ↦ ?_, fun l hl ↦ ?_, fun l hl a ha ↦ ?_, fun l hl ↦ ?_, ?_⟩
  · obtain ⟨piece, -, heq, hdelimited⟩ := hmem [] hnil
    exact hdelimited.ne_nil (List.map_eq_nil_iff.mp heq.symm)
  · obtain ⟨piece, hpiece, rfl, -⟩ := hmem l hl
    rw [List.length_map, ← (Sequence.gains_finish piece).length_eq]
    exact Sequence.length_le_of_mem_cut hlimit hpiece
  · obtain ⟨piece, -, rfl, hdelimited⟩ := hmem l hl
    rw [List.getLast?_map] at ha
    obtain ⟨site, hsite, rfl⟩ := Option.map_eq_some_iff.mp ha
    simpa [Analysis.endsSequence] using hdelimited.last site hsite
  · obtain ⟨piece, hpiece, rfl, hdelimited⟩ := hmem l hl
    have hapart := isChain_of_forall₂ (Sequence.gains_finish piece)
      (Q := fun a b ↦ ¬ apart a.node.pc b.node.pc) (fun a b a' b' ha hb hab ↦ by
        rw [ha.pc, hb.pc, ← hab.2, hab.1]
        decide)
      (isChain_and (Sequence.isChain_of_mem_cut hpiece) (hpieces piece hpiece))
    rw [List.isChain_map]
    refine (isChain_and hdelimited.inner hapart).imp fun a b hab ↦ ⟨?_, hab.2⟩
    simpa [Analysis.endsSequence] using hab.1.1
  · rw [range, List.map_map, List.isChain_map]
    refine (isChain_and (Sequence.isChain_cut hlimit _) hseams).imp ?_
    rintro s t ⟨hfull | hjoined, hseam⟩
    · left
      rw [Function.comp_apply, List.length_map, ← (Sequence.gains_finish s).length_eq, hfull]
    · right
      intro a ha c hc
      obtain ⟨first, hfirst, hpc⟩ := Sequence.exists_getLast?_finish ha
      obtain ⟨next, hnext, hpc'⟩ := Sequence.exists_head?_finish hc
      rw [hpc, hpc']
      exact (hseam first hfirst next hnext).mp (hjoined first hfirst next hnext)

end Outline

end MipsBlocks
