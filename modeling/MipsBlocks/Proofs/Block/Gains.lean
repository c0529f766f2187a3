import MipsBlocks.Proofs.Block.Cut
import MipsBlocks.Proofs.Block.Liveness
import MipsBlocks.Proofs.Survey.Sites
import Mathlib.Data.List.Forall2

/-!
# What sites gain

On the way from the survey to the outline a site keeps its place and its delay slot. It only gains
the flags of the ends of sequences and ranges, and its required registers (`Site.Gains`). A sequence
keeps its sites in this sense when its ends are marked and its required registers are computed
(`Sequence.gains_finish`), so it stays delimited (`Sequence.Delimited.of_gains`).
-/

set_option autoImplicit false
set_option relaxedAutoImplicit false

namespace MipsBlocks

/-- The flags of the ends of a sequence. -/
def Flags.ofCut : Flags := {.branchTarget, .endSequence}

/-- The flags of the ends of a range. -/
def Flags.ofExit : Flags := {.endSequence, .redispatch, .returnToStart}

/-- The flags of the ends of sequences and ranges. -/
def Flags.ofEnds : Flags := insert .branchTarget Flags.ofExit

/-! ### Lists that correspond -/

section Correspondence

variable {α β γ : Type} {R : α → β → Prop} {l : List α} {m : List β}

/-- What corresponding elements agree on, the lists agree on. -/
theorem map_eq_of_forall₂ (h : List.Forall₂ R l m) {f : α → γ} {g : β → γ}
    (hfg : ∀ a b, R a b → f a = g b) : l.map f = m.map g := by
  induction h with
  | nil => rfl
  | cons hab _ ih => rw [List.map_cons, List.map_cons, ih, hfg _ _ hab]

/-- Correspondences compose. -/
theorem comp_of_forall₂ {S : β → γ → Prop} {T : α → γ → Prop} {n : List γ}
    (hRS : ∀ a b c, R a b → S b c → T a c) (hlm : List.Forall₂ R l m) (hmn : List.Forall₂ S m n) :
    List.Forall₂ T l n := by
  induction hlm generalizing n with
  | nil =>
    cases hmn
    exact .nil
  | cons hab _ ih =>
    cases hmn with
    | cons hbc hrest => exact .cons (hRS _ _ _ hab hbc) (ih hrest)

/-- What corresponds in two ways corresponds in both at once. -/
theorem and_of_forall₂ {S : α → β → Prop} (hR : List.Forall₂ R l m) (hS : List.Forall₂ S l m) :
    List.Forall₂ (fun a b ↦ R a b ∧ S a b) l m := by
  induction hR with
  | nil => exact .nil
  | cons hab _ ih =>
    cases hS with
    | cons hab' hrest => exact .cons ⟨hab, hab'⟩ (ih hrest)

theorem exists_mem_of_forall₂ (h : List.Forall₂ R l m) {b : β} (hb : b ∈ m) : ∃ a ∈ l, R a b := by
  induction h with
  | nil => cases hb
  | cons hab _ ih =>
    rcases List.mem_cons.mp hb with rfl | hb
    · exact ⟨_, List.mem_cons_self, hab⟩
    · obtain ⟨a, ha, hab⟩ := ih hb
      exact ⟨a, List.mem_cons_of_mem _ ha, hab⟩

theorem exists_head?_of_forall₂ (h : List.Forall₂ R l m) {b : β} (hb : b ∈ m.head?) :
    ∃ a ∈ l.head?, R a b := by
  cases h with
  | nil => cases hb
  | cons hab _ =>
    obtain rfl := Option.some.inj hb
    exact ⟨_, rfl, hab⟩

theorem exists_getLast?_of_forall₂ (h : List.Forall₂ R l m) {b : β} (hb : b ∈ m.getLast?) :
    ∃ a ∈ l.getLast?, R a b := by
  rw [← List.head?_reverse] at hb
  rw [← List.head?_reverse]
  exact exists_head?_of_forall₂ (List.rel_reverse h) hb

theorem isChain_of_forall₂ {P : α → α → Prop} {Q : β → β → Prop} (h : List.Forall₂ R l m)
    (hPQ : ∀ a b a' b', R a a' → R b b' → P a b → Q a' b') (hl : l.IsChain P) : m.IsChain Q := by
  induction h with
  | nil => exact .nil
  | cons haa' hrest ih =>
    cases hrest with
    | nil => exact .singleton _
    | cons hbb' =>
      obtain ⟨hab, hbl⟩ := List.isChain_cons_cons.mp hl
      exact List.isChain_cons_cons.mpr ⟨hPQ _ _ _ _ haa' hbb' hab, ih hbl⟩

theorem isChain_and {P Q : α → α → Prop} (hP : l.IsChain P) (hQ : l.IsChain Q) :
    l.IsChain fun a b ↦ P a b ∧ Q a b := by
  rw [List.isChain_iff_getElem] at hP hQ ⊢
  exact fun i hi ↦ ⟨hP i hi, hQ i hi⟩

end Correspondence

/-! ### What a site gains -/

namespace Site

/-- The second site is the first one with more flags, all of them allowed, and with other required
registers. -/
structure Gains (allowed : Flags) (a b : Site) : Prop where
  order : b.order = a.order
  node : ∃ flags ⊆ allowed, ∃ required, b.node = { a.node.flag flags with required }
  /-- Nothing is gained that is no flag. -/
  known : a.node.flags.IsKnown → b.node.flags.IsKnown
  slot : ∃ requireSlot : Analysis → RegSet,
    b.slot = a.slot.map fun slot ↦ { slot with required := requireSlot slot }

theorem gains_refl (allowed : Flags) (a : Site) : Gains allowed a a := by
  refine ⟨rfl, ⟨∅, Flags.empty_subset _, a.node.required, ?_⟩, id, ⟨Analysis.required, ?_⟩⟩
  · rw [Analysis.flag, Flags.union_empty]
  · exact Option.map_id'.symm

theorem gains_flag (a : Site) {flags allowed : Flags} (h : flags ⊆ allowed)
    (hknown : flags.IsKnown) : Gains allowed a (a.flag flags) :=
  ⟨rfl, ⟨flags, h, a.node.required, rfl⟩, fun ha ↦ Flags.isKnown_union ha hknown,
    ⟨Analysis.required, Option.map_id'.symm⟩⟩

theorem gains_require (a : Site) (live : RegSet) : Gains ∅ a (a.require live).1 := by
  cases hslot : a.slot with
  | none =>
    refine ⟨by simp [require, hslot], ⟨∅, Flags.empty_subset _, ?_⟩, ?_, ⟨Analysis.required, ?_⟩⟩
    · simp [require, hslot, Analysis.require, Analysis.flag, Flags.union_empty]
    · simp [require, hslot, Analysis.require]
    · simp [require, hslot]
  | some slot =>
    refine ⟨by simp [require, hslot], ⟨∅, Flags.empty_subset _, ?_⟩, ?_,
      ⟨fun _ ↦ (slot.require live).1.required, ?_⟩⟩
    · simp [require, hslot, Analysis.require, Analysis.flag, Flags.union_empty]
    · simp [require, hslot, Analysis.require]
    · simp [require, hslot, Analysis.require]

namespace Gains

variable {allowed more : Flags} {a b c : Site}

theorem trans (hab : Gains allowed a b) (hbc : Gains allowed b c) : Gains allowed a c := by
  obtain ⟨horder, ⟨flags, hflags, required, hnode⟩, hknown, ⟨requireSlot, hslot⟩⟩ := hab
  obtain ⟨horder', ⟨flags', hflags', required', hnode'⟩, hknown', ⟨requireSlot', hslot'⟩⟩ := hbc
  refine ⟨horder'.trans horder, ⟨flags ∪ flags', Flags.union_subset hflags hflags', required', ?_⟩,
    hknown' ∘ hknown, ⟨fun slot ↦ requireSlot' { slot with required := requireSlot slot }, ?_⟩⟩
  · rw [hnode', hnode, ← Analysis.flag_flag]
    rfl
  · rw [hslot', hslot, Option.map_map]
    rfl

theorem mono (hab : Gains allowed a b) (h : allowed ⊆ more) : Gains more a b := by
  obtain ⟨horder, ⟨flags, hflags, hnode⟩, hknown, hslot⟩ := hab
  exact ⟨horder, ⟨flags, fun f hf ↦ h f (hflags f hf), hnode⟩, hknown, hslot⟩

/-- What neither flags nor required registers change, the site keeps. -/
theorem map_node {β : Type} {g : Analysis → β} (hab : Gains allowed a b)
    (hg : ∀ (x : Analysis) flags required, g { x.flag flags with required } = g x) :
    g b.node = g a.node := by
  obtain ⟨flags, -, required, hnode⟩ := hab.node
  rw [hnode, hg]

theorem pc (hab : Gains allowed a b) : b.node.pc = a.node.pc :=
  hab.map_node fun _ _ _ ↦ rfl

theorem fallthrough (hab : Gains allowed a b) : b.node.fallthrough = a.node.fallthrough :=
  hab.map_node fun _ _ _ ↦ rfl

theorem target (hab : Gains allowed a b) : b.node.target = a.node.target :=
  hab.map_node fun _ _ _ ↦ rfl

theorem mem_flags_iff (hab : Gains allowed a b) {f : Flag} (hf : f ∉ allowed) :
    f ∈ b.node.flags ↔ f ∈ a.node.flags := by
  obtain ⟨flags, hflags, required, hnode⟩ := hab.node
  rw [hnode]
  exact Flags.mem_union.trans (or_iff_left fun h ↦ hf (hflags f h))

theorem mem_flags (hab : Gains allowed a b) {f : Flag} (hf : f ∈ a.node.flags) :
    f ∈ b.node.flags := by
  obtain ⟨flags, -, required, hnode⟩ := hab.node
  rw [hnode]
  exact Flags.mem_union.mpr (.inl hf)

/-- A delay slot only gains its required registers. -/
theorem exists_slot (hab : Gains allowed a b) {slot : Analysis} (hslot : slot ∈ b.slot) :
    ∃ old ∈ a.slot, ∃ required, slot = { old with required } := by
  obtain ⟨requireSlot, heq⟩ := hab.slot
  rw [heq] at hslot
  obtain ⟨old, hold, rfl⟩ := Option.map_eq_some_iff.mp hslot
  exact ⟨old, hold, _, rfl⟩

theorem pcs (hab : Gains allowed a b) : b.pcs = a.pcs := by
  obtain ⟨requireSlot, hslot⟩ := hab.slot
  rw [Site.pcs, Site.pcs, hab.pc, hslot]
  cases a.slot <;> rfl

theorem numbers (hab : Gains allowed a b) : b.numbers = a.numbers := by
  rw [Site.numbers, Site.numbers, hab.order, hab.pcs]

theorem isBranch (hab : Gains .ofEnds a b) : b.node.isBranch = a.node.isBranch := by
  rw [Bool.eq_iff_iff, Analysis.isBranch, Analysis.isBranch, Flags.isBranch_iff,
    Flags.isBranch_iff, hab.mem_flags_iff (by decide), hab.mem_flags_iff (by decide)]

theorem ownsSlot (hab : Gains .ofEnds a b) (ha : a.OwnsSlot) : b.OwnsSlot := by
  obtain ⟨requireSlot, hslot⟩ := hab.slot
  intro hb
  rw [hab.isBranch]
  exact ha (by simpa [hslot] using hb)

end Gains

end Site

theorem gains_trans {allowed : Flags} {l m n : List Site}
    (hlm : List.Forall₂ (Site.Gains allowed) l m) (hmn : List.Forall₂ (Site.Gains allowed) m n) :
    List.Forall₂ (Site.Gains allowed) l n :=
  comp_of_forall₂ (fun _ _ _ hab hbc ↦ hab.trans hbc) hlm hmn

/-! ### Finishing a sequence -/

namespace Sequence

theorem gains_flagLast {flags allowed : Flags} (h : flags ⊆ allowed) (hknown : flags.IsKnown)
    (s : Sequence) : List.Forall₂ (Site.Gains allowed) s (flagLast flags s) := by
  rcases List.eq_nil_or_concat s with rfl | ⟨s, last, rfl⟩
  · exact .nil
  · rw [List.concat_eq_append, flagLast_concat]
    exact List.rel_append (List.forall₂_same.mpr fun a _ ↦ a.gains_refl allowed)
      (.cons (last.gains_flag h hknown) .nil)

theorem gains_flagFirst {flags allowed : Flags} (h : flags ⊆ allowed) (hknown : flags.IsKnown)
    (s : Sequence) : List.Forall₂ (Site.Gains allowed) s (flagFirst flags s) := by
  cases s with
  | nil => exact .nil
  | cons a s =>
    exact .cons (a.gains_flag h hknown) (List.forall₂_same.mpr fun b _ ↦ b.gains_refl allowed)

theorem gains_delimit (s : Sequence) : List.Forall₂ (Site.Gains .ofCut) s s.delimit :=
  gains_trans (gains_flagLast (by decide) (by decide) s)
    (gains_flagFirst (by decide) (by decide) _)

theorem gains_require (s : Sequence) : List.Forall₂ (Site.Gains ∅) s s.require := by
  induction s with
  | nil => exact .nil
  | cons a s ih =>
    rw [require_cons]
    exact .cons (a.gains_require _) ih

/-- From the cut to the outline a sequence gains the flags of its ends. -/
theorem gains_finish (s : Sequence) : List.Forall₂ (Site.Gains .ofCut) s s.delimit.require :=
  gains_trans (gains_delimit s)
    ((gains_require _).imp fun _ _ hab ↦ hab.mono (Flags.empty_subset _))

/-- Required registers do not matter for the ends of a sequence. -/
theorem Delimited.of_gains {s t : Sequence} (hs : s.Delimited)
    (h : List.Forall₂ (Site.Gains ∅) s t) : t.Delimited where
  ne_nil := fun ht ↦ hs.ne_nil (List.forall₂_nil_right_iff.mp (ht ▸ h))
  first := fun b hb ↦ by
    obtain ⟨a, ha, hab⟩ := exists_head?_of_forall₂ h hb
    exact hab.mem_flags (hs.first a ha)
  last := fun b hb ↦ by
    obtain ⟨a, ha, hab⟩ := exists_getLast?_of_forall₂ h hb
    exact hab.mem_flags (hs.last a ha)
  inner := isChain_of_forall₂ h (fun a b a' b' ha hb hab ↦
    ⟨fun hf ↦ hab.1 ((ha.mem_flags_iff (Flags.not_mem_empty _)).mp hf),
      fun hf ↦ hab.2 ((hb.mem_flags_iff (Flags.not_mem_empty _)).mp hf)⟩) hs.inner

end Sequence

end MipsBlocks
