import MipsBlocks.Proofs.Frontend.Mirror

/-!
# What was described before

A block does not depend on the history of its frontend. Two sessions with one configuration, after
any calls, describe the same code in the same way: one block mirrors the other (`Frontend.Mirrors`),
and nothing but the handles differs (`mirrors_of_describeBlock`). In particular nothing of what a
reused slot held before is left in it.
-/

set_option autoImplicit false
set_option relaxedAutoImplicit false

namespace MipsBlocks

namespace Frontend

/-- Frontends with one configuration describe a window in the same way, whatever is in their pools.
Assumes: the slots in use are accounted for. -/
theorem exists_mirrors_describeWindow {f f' : Frontend} {used used' : List Handle}
    (hp : f.pool.Accounts used) (hp' : f'.pool.Accounts used') (hconfig : f'.config = f.config)
    (source : Source) (w : Window) :
    ∃ ρ, Mirrors ρ id (f.describeWindow source w).2 (f.describeWindow source w).1
      (f'.describeWindow source w).2 (f'.describeWindow source w).1 := by
  have hnodup : (f.pool.acquireAll (Outline.describe f.config source w).trace).1.toList.Nodup :=
    (Pool.accounts_acquireAll hp _).nodup.of_append_left.of_append_left
  have hlength : (f.pool.acquireAll (Outline.describe f.config source w).trace).1.toList.length =
      (f'.pool.acquireAll (Outline.describe f'.config source w).trace).1.toList.length := by
    rw [Array.length_toList, Array.length_toList, Pool.size_acquireAll, Pool.size_acquireAll,
      hconfig]
  obtain ⟨ρ, hρ⟩ := exists_eq_map hnodup hlength
  refine ⟨ρ, mirrors_describeWindow hp hp' ?_ hρ⟩
  have hid : Site.map id = id := funext fun site ↦ by simp [Site.map]
  rw [hconfig, hid, List.map_id]

/-- What is described in one session is described in every other one with the same configuration,
after whatever calls, and the two blocks differ in nothing but their handles. -/
theorem mirrors_of_describeBlock {config : Config} {valid : config.Valid}
    {ops ops' : List Session.Op} {source : Source} {start min max : VirtAddr} {b : Block}
    {f : Frontend}
    (h : (Session.run config valid ops).frontend.describeBlock source start min max = .ok (b, f)) :
    ∃ b' f', (Session.run config valid ops').frontend.describeBlock source start min max =
      .ok (b', f') ∧ ∃ ρ, Mirrors ρ id f b f' b' := by
  obtain ⟨w, hcheck, hw⟩ := Session.describeBlock_eq_ok_iff.mp h
  have hconfig : (Session.run config valid ops').frontend.config =
      (Session.run config valid ops).frontend.config := by
    rw [Session.config_run, Session.config_run]
  obtain ⟨ρ, hρ⟩ := exists_mirrors_describeWindow (Session.sound_run config valid ops).accounts
    (Session.sound_run config valid ops').accounts hconfig source w
  rw [hw] at hρ
  exact ⟨_, _, Session.describeBlock_eq_ok_iff.mpr ⟨w, hcheck, rfl⟩, ρ, hρ⟩

/-- In a pool where a part of the loop was described and released, the loop is described under other
handles. -/
theorem mirrors_loop : ∃ b f b' f',
    (Session.run {} Config.valid_default []).frontend.describeBlock .loop ⟨0x1008⟩ ⟨0x1000⟩
      ⟨0x1018⟩ = .ok (b, f) ∧
    (Session.run {} Config.valid_default
      [.describeBlock .loop ⟨0x1008⟩ ⟨0x1004⟩ ⟨0x1018⟩, .release 0]).frontend.describeBlock .loop
        ⟨0x1008⟩ ⟨0x1000⟩ ⟨0x1018⟩ = .ok (b', f') ∧
    (f.chain b).map (·.1.index) = [0, 1, 3, 4, 5, 6] ∧
    (f'.chain b').map (·.1.index) = [4, 3, 2, 0, 5, 6] ∧ ∃ ρ, Mirrors ρ id f b f' b' := by
  have h : (Session.run {} Config.valid_default []).frontend.describeBlock .loop ⟨0x1008⟩ ⟨0x1000⟩
      ⟨0x1018⟩ = .ok (_, _) := rfl
  have h' : (Session.run {} Config.valid_default
      [.describeBlock .loop ⟨0x1008⟩ ⟨0x1004⟩ ⟨0x1018⟩, .release 0]).frontend.describeBlock .loop
        ⟨0x1008⟩ ⟨0x1000⟩ ⟨0x1018⟩ = .ok (_, _) := rfl
  refine ⟨_, _, _, _, h, h', by decide +kernel, by decide +kernel, ?_⟩
  obtain ⟨b', f', hok, hmirrors⟩ := mirrors_of_describeBlock h
  rw [h'] at hok
  cases hok
  exact hmirrors

end Frontend

end MipsBlocks
