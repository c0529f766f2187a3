import MipsBlocks.Proofs.Frontend.Slots

/-!
# What a description costs

A survey of a window of `n` words comes to an end however the branches of the code lead back and
forth (`Survey.Bounded`). Following a sequence describes a new word with each step, so it takes no
more steps than there are words left; a target is put on the stack only by a new word, and only
while the stack has room. A block spends a descriptor for each word that it describes and one for
each delay slot (`Frontend.Spends`), which makes `2 * n` at most. The main statement is
`spends_of_check`; it holds for every window that is accepted.

The bound on the steps is not that of `Survey.run`: taking more steps than its budget changes
nothing.
-/

set_option autoImplicit false
set_option relaxedAutoImplicit false

namespace MipsBlocks

/-! ### Surveys -/

namespace Survey

variable {config : Config} {source : Source} {w : Window} {s : Survey w}

/-- With fuel or without, the steps are the same. -/
theorem advance_eq_iterate (fuel : Nat) (s : Survey w) :
    advance config source fuel s = (step config source)^[fuel] s := by
  induction fuel generalizing s with
  | zero => rfl
  | succ fuel ih =>
    rw [advance, Function.iterate_succ_apply]
    split
    · rename_i hs
      rw [step_eq_self hs, Function.iterate_fixed (step_eq_self hs)]
    · exact ih _

theorem iterate_step_eq_run {n : Nat} (hn : budget w ≤ n) :
    (step config source)^[n] (initial w) = run config source w := by
  obtain ⟨k, rfl⟩ := Nat.exists_eq_add_of_le' hn
  rw [Function.iterate_add_apply, ← advance_eq_iterate (budget w) (initial w)]
  exact Function.iterate_fixed (step_eq_self (finished_run config source w)) k

/-- The sequence that is being followed ends: each step on it describes a new word. -/
theorem exists_iterate_cursor_eq_none (hs : Reached config source s) :
    ∃ n ≤ w.words - s.sites.length, ((step config source)^[n] s).cursor = none := by
  induction hleft : w.words - s.sites.length generalizing s with
  | zero =>
    -- a sequence goes on at words without a site only, and none is left
    refine ⟨0, Nat.le_refl 0, Option.eq_none_iff_forall_ne_some.mpr fun spot hspot ↦ ?_⟩
    have hroom := length_sites_lt (hs.cursorFresh spot hspot)
    omega
  | succ k ih =>
    cases hcursor : s.cursor with
    | none => exact ⟨0, Nat.zero_le _, hcursor⟩
    | some spot =>
      have hlength : (step config source s).sites.length = s.sites.length + 1 := by
        rw [step_of_cursor config source hcursor]
        exact length_sites_record config source ∅ (hs.cursorFresh spot hcursor)
      obtain ⟨n, hn, hnone⟩ := ih hs.step (by omega)
      exact ⟨n + 1, Nat.succ_le_succ hn, hnone⟩

/-- A full stack does not grow. -/
theorem size_pending_record_le_max (s : Survey w) (spot : w.Spot) (reached : Flags) :
    (record config source s spot reached).pending.size ≤ max s.pending.size config.maxStackDepth := by
  rw [pending_record, pushed]
  by_cases hroom : s.pending.size < config.maxStackDepth
  · rw [if_pos hroom]
    split
    · rw [Array.size_push]
      omega
    · omega
  · rw [if_neg hroom]
    exact Nat.le_max_left _ _

theorem size_pending_le (hvalid : config.Valid) (hs : Reached config source s) :
    s.pending.size ≤ config.maxStackDepth := by
  induction hs with
  | initial => exact Nat.one_le_iff_ne_zero.mpr hvalid.maxStackDepth_ne_zero
  | @step s hs ih =>
    have hpop (p : Pending w) (hp : s.pending.back? = some p) :
        s.pop.pending.size ≤ config.maxStackDepth := by
      have hsize := size_pending_pop hp
      omega
    refine step_cases (motive := fun t ↦ t.pending.size ≤ config.maxStackDepth) hs.cursorFresh
      (fun _ ↦ ih) (fun spot _ _ ↦ ?_) (fun p _ hp _ ↦ ?_) fun p _ _ hp _ ↦ hpop p hp
    · exact (size_pending_record_le_max s spot ∅).trans (Nat.max_le.mpr ⟨ih, Nat.le_refl _⟩)
    · exact (size_pending_record_le_max s.pop p.target _).trans
        (Nat.max_le.mpr ⟨hpop p hp, Nat.le_refl _⟩)

/-- The survey of a window comes to an end, with a bounded stack. -/
structure Bounded (config : Config) (source : Source) (w : Window) : Prop where
  finished : ∀ n ≥ 2 * w.words + 1,
    ((step config source)^[n] (initial w)).finished = true ∧
      (step config source)^[n] (initial w) = run config source w
  /-- In every state the sequence that is being followed ends within the words that are left. -/
  sequence : ∀ s : Survey w, Reached config source s →
    ∃ n ≤ w.words - s.sites.length, ((step config source)^[n] s).cursor = none
  found : ∀ s : Survey w, Reached config source s → s.sites.length ≤ w.words
  pending : ∀ s : Survey w, Reached config source s → s.pending.size ≤ config.maxStackDepth

theorem bounded (hvalid : config.Valid) (source : Source) (w : Window) :
    Bounded config source w where
  finished n hn := by
    rw [iterate_step_eq_run hn]
    exact ⟨finished_run config source w, rfl⟩
  sequence _ hs := exists_iterate_cursor_eq_none hs
  found s _ := s.length_sites_le
  pending _ hs := size_pending_le hvalid hs

end Survey

/-! ### Blocks -/

namespace Frontend

/-- What the description of a window takes from the pool. -/
structure Spends (f f' : Frontend) (b : Block) (source : Source) (w : Window) : Prop where
  length_chain_le : (f'.chain b).length ≤ w.words
  /-- As many descriptors are acquired as the block has. -/
  size_acquired : (f.pool.acquireAll (Outline.describe f.config source w).trace).1.size =
    (f'.chain b).length + (f'.slotHandles b).length
  live : f'.poolStats.live =
    f.poolStats.live + ((f'.chain b).length + (f'.slotHandles b).length)
  le : (f'.chain b).length + (f'.slotHandles b).length ≤ 2 * w.words

variable {f : Frontend} {used : List Handle}

theorem length_owned (f : Frontend) (b : Block) :
    (f.owned b).length = (f.chain b).length + (f.slotHandles b).length := by
  have hperm := (perm_handles_owned f b).length_eq
  rw [List.length_append, chainHandles, List.length_map] at hperm
  omega

theorem length_slotHandles_le (f : Frontend) (b : Block) :
    (f.slotHandles b).length ≤ (f.chain b).length := List.length_filterMap_le _ _

theorem length_chain_le_words {config : Config} {source : Source} {w : Window} {before : Frontend}
    {b : Block} (h : before.Adds f b used (Outline.describe config source w).sites) :
    (f.chain b).length ≤ w.words := by
  obtain ⟨handles, hinstalled⟩ := h.installed
  have hsites := (Outline.gains_sites config source w).length_eq
  have hfound := (Survey.perm_front_append_back (Survey.run config source w)).length_eq
  have hle := (Survey.run config source w).length_sites_le
  rw [hinstalled.length_eq]
  omega

theorem spends_describeWindow (hp : f.pool.Accounts used) (source : Source) (w : Window) :
    f.Spends (f.describeWindow source w).2 (f.describeWindow source w).1 source w := by
  have hadds := adds_describeWindow hp source w
  have hchain := length_chain_le_words hadds
  have hslots := length_slotHandles_le (f.describeWindow source w).2 (f.describeWindow source w).1
  have howned := length_owned (f.describeWindow source w).2 (f.describeWindow source w).1
  refine ⟨hchain, ?_, ?_, by omega⟩
  · have hnumbers := Outline.perm_numbers_describe f.config source w
    rw [← Pool.size_acquireAll f.pool] at hnumbers
    have hperm := perm_owned (installed_describeWindow hp source w) hnumbers
    exact (hperm.length_eq.trans Array.length_toList).symm.trans howned
  · have hafter : (f.describeWindow source w).2.poolStats.live = _ := hadds.accounts.live_stats
    have hbefore : f.poolStats.live = used.length := hp.live_stats
    rw [hafter, hbefore, List.length_append]
    omega

/-- Every window that is accepted is described within the budget that its words give. -/
theorem spends_of_check {config : Config} (valid : config.Valid) (ops : List Session.Op)
    (source : Source) {start min max : VirtAddr} {w : Window}
    (h : Window.check start min max = .ok w) :
    w.words = (max.toNat - min.toNat) / 4 ∧ Survey.Bounded config source w ∧
      ∃ b f, (Session.run config valid ops).frontend.describeBlock source start min max =
          .ok (b, f) ∧
        (Session.run config valid ops).frontend.Spends f b source w := by
  obtain ⟨-, rfl, rfl⟩ := Window.check_eq_ok h
  refine ⟨rfl, Survey.bounded valid source w, _, _, ?_,
    spends_describeWindow (Session.sound_run config valid ops).accounts source w⟩
  exact Session.describeBlock_eq_ok_iff.mpr ⟨w, h, rfl⟩

end Frontend

open Assembler in
/-- Four branches that lead to each other. -/
def Source.branches : Source := listing ⟨0x1000⟩
  [bne 8 9 2, bne 8 9 0xfffe, bne 8 9 0xfffe, bne 8 9 0xfffe]

theorem Config.valid_stackOfOne : ({ maxStackDepth := 1 } : Config).Valid := by decide

/-- Where only one target may wait, all four branches are found, and each has its slot. -/
theorem Frontend.spends_branches : ∃ w : Window,
    Window.check ⟨0x1004⟩ ⟨0x1000⟩ ⟨0x1010⟩ = .ok w ∧ w.words = 4 ∧
    Survey.Bounded { maxStackDepth := 1 } .branches w ∧
    ∃ b f, (Session.run _ Config.valid_stackOfOne []).frontend.describeBlock .branches ⟨0x1004⟩
        ⟨0x1000⟩ ⟨0x1010⟩ = .ok (b, f) ∧
      (Session.run _ Config.valid_stackOfOne []).frontend.Spends f b .branches w ∧
        (f.chain b).length = 4 ∧ (f.slotHandles b).length = 4 := by
  have hcheck : Window.check ⟨0x1004⟩ ⟨0x1000⟩ ⟨0x1010⟩ = .ok _ := rfl
  obtain ⟨hwords, hbounded, b, f, h, hspends⟩ :=
    spends_of_check Config.valid_stackOfOne [] .branches hcheck
  obtain ⟨b', f', h', hchain, hslots⟩ : ∃ b f,
      (Session.run _ Config.valid_stackOfOne []).frontend.describeBlock .branches ⟨0x1004⟩
        ⟨0x1000⟩ ⟨0x1010⟩ = .ok (b, f) ∧ (f.chain b).length = 4 ∧ (f.slotHandles b).length = 4 :=
    ⟨_, _, rfl, by decide +kernel⟩
  obtain ⟨rfl, rfl⟩ := Prod.mk.inj (Except.ok.inj (h.symm.trans h'))
  exact ⟨_, hcheck, hwords, hbounded, b, f, h, hspends, hchain, hslots⟩

end MipsBlocks
