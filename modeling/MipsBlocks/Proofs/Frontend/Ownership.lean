import MipsBlocks.Proofs.Frontend.Session

/-!
# Ownership in a session

After any calls every slot of the pool has one owner: a block that is held, or the free list
(`Session.Shared`). The pool never grows beyond what was in use together (`Session.IsPeak`), and
the next call disturbs no held block, and nothing at all if it fails (`Session.Undisturbed`). The
main statement is `shared_run`.
-/

set_option autoImplicit false
set_option relaxedAutoImplicit false

namespace MipsBlocks

namespace Session

/-- The slots of a pool are shared out among the held blocks and the free list. -/
structure Shared (s : Session) : Prop where
  /-- Following the links of a block comes to an end. -/
  complete : ∀ b ∈ s.held, s.frontend.Complete b
  exist : ∀ b ∈ s.held, ∀ h ∈ s.frontend.owned b, s.frontend.descriptor? h ≠ none
  nodup : ∀ b ∈ s.held, (s.frontend.owned b).Nodup
  disjoint : s.held.Pairwise fun a b ↦ (s.frontend.owned a).Disjoint (s.frontend.owned b)
  apart : ∀ b ∈ s.held, (s.frontend.owned b).Disjoint s.frontend.pool.free
  nodup_free : s.frontend.pool.free.Nodup
  live : s.frontend.poolStats.live = s.used.length
  allocated :
    s.frontend.poolStats.allocated = s.frontend.poolStats.free + s.frontend.poolStats.live

/-- The pool has as many slots as were ever in use after one of the calls. -/
structure IsPeak (config : Config) (valid : config.Valid) (ops : List Op) : Prop where
  live_le : ∀ before, before <+: ops → (run config valid before).frontend.poolStats.live ≤
    (run config valid ops).frontend.poolStats.allocated
  reached : ∃ before, before <+: ops ∧ (run config valid before).frontend.poolStats.live =
    (run config valid ops).frontend.poolStats.allocated

/-- A call fails: it is a description that gives an error. -/
def Fails (s : Session) : Op → Prop
  | .describeBlock source start min max =>
    ∃ e, s.frontend.describeBlock source start min max = .error e
  | .describeCode source start => ∃ e, s.frontend.describeCode source start = .error e
  | .release _ => False

/-- A call keeps the blocks that are held, and it changes nothing if it fails. -/
structure Undisturbed (s : Session) (op : Op) : Prop where
  keeps : ∀ b ∈ s.held, s.frontend.Keeps (s.step op).frontend b
  unchanged : s.Fails op → (s.step op).frontend.pool = s.frontend.pool

variable {s : Session}

theorem shared_of_sound (hs : s.Sound) : s.Shared := by
  obtain ⟨hused, hfree, happart⟩ := List.nodup_append.mp hs.accounts.nodup
  obtain ⟨hnodup, hdisjoint⟩ := List.nodup_flatMap.mp hused
  have hmem : ∀ b ∈ s.held, ∀ h ∈ s.frontend.owned b, h ∈ s.used :=
    fun b hb h hh ↦ List.mem_flatMap.mpr ⟨b, hb, hh⟩
  refine ⟨hs.complete, ?_, hnodup, hdisjoint, ?_, hfree, live_eq hs, ?_⟩
  · intro b hb h hh
    have hindex := hs.accounts.index_lt (hmem b hb h hh)
    rw [Frontend.descriptor?, Pool.get?, Array.getElem?_eq_getElem hindex]
    exact Option.some_ne_none _
  · intro b hb h hh hfree
    exact happart h (hmem b hb h hh) h hfree rfl
  · rw [live_eq hs]
    exact hs.accounts.size_slots

/-- A call makes new slots only if more than ever are in use. -/
theorem allocated_step (hs : s.Sound) (op : Op) :
    (s.step op).frontend.poolStats.allocated =
      max s.frontend.poolStats.allocated (s.step op).frontend.poolStats.live := by
  have hstep := carries_step hs op
  rw [live_eq hstep.sound]
  exact hstep.size

theorem isPeak_run (config : Config) (valid : config.Valid) (ops : List Op) :
    IsPeak config valid ops := by
  induction ops using List.reverseRecOn with
  | nil =>
    refine ⟨fun before h ↦ ?_, [], List.prefix_refl [], rfl⟩
    rw [List.prefix_nil.mp h]
    exact Nat.le_refl 0
  | append_singleton ops op ih =>
    have hmax := allocated_step (sound_run config valid ops) op
    rw [← run_append] at hmax
    obtain ⟨before, hbefore, hreached⟩ := ih.reached
    constructor
    · intro earlier h
      rcases List.prefix_concat_iff.mp h with rfl | h
      · omega
      · have hle := ih.live_le earlier h
        omega
    · by_cases hgrows : (run config valid ops).frontend.poolStats.allocated ≤
          (run config valid (ops ++ [op])).frontend.poolStats.live
      · exact ⟨ops ++ [op], List.prefix_refl _, by omega⟩
      · exact ⟨before, hbefore.trans (List.prefix_append ops [op]), by omega⟩

theorem undisturbed_step (hs : s.Sound) (op : Op) : s.Undisturbed op := by
  refine ⟨(carries_step hs op).keeps, fun hfails ↦ ?_⟩
  cases op with
  | describeBlock source start min max =>
    obtain ⟨e, he⟩ := hfails
    rw [step, he, hold]
  | describeCode source start =>
    obtain ⟨e, he⟩ := hfails
    rw [step, he, hold]
  | release place => exact hfails.elim

/-- After any calls every slot has one owner, the pool is no larger than its largest use, and no
further call disturbs a held block. -/
theorem shared_run (config : Config) (valid : config.Valid) (ops : List Op) :
    (run config valid ops).Shared ∧ IsPeak config valid ops ∧
      ∀ op, (run config valid ops).Undisturbed op :=
  ⟨shared_of_sound (sound_run config valid ops), isPeak_run config valid ops,
    undisturbed_step (sound_run config valid ops)⟩

/-- Two blocks are described, one is released, a call fails, and a last one uses the free slots. -/
theorem shared_loop : Config.Valid {} ∧
    let ops : List Op := [.describeBlock .loop ⟨0x1008⟩ ⟨0x1000⟩ ⟨0x1018⟩,
      .describeCode .loop ⟨0x1000⟩, .release 1, .describeBlock .loop ⟨0x1000⟩ ⟨0x1004⟩ ⟨0x1018⟩,
      .describeBlock .loop ⟨0x1014⟩ ⟨0x1014⟩ ⟨0x1018⟩]
    (run {} Config.valid_default ops).frontend.poolStats = ⟨16, 7, 9⟩ ∧
    (run {} Config.valid_default ops).Shared ∧ IsPeak {} Config.valid_default ops ∧
      ∀ op, (run {} Config.valid_default ops).Undisturbed op :=
  ⟨Config.valid_default, by decide +kernel, shared_run {} Config.valid_default _⟩

end Session

end MipsBlocks
