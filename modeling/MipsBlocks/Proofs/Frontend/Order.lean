import MipsBlocks.Proofs.Frontend.Session

/-!
# The order of a chain

The chain of a block goes through its window once, in the order of addresses: from the start up to
the end of the window, then from the beginning of the window up to the start (`Frontend.Ordered`).
No address is met twice, and following the links comes to an end. The main statement is
`ordered_of_describeBlock`.
-/

set_option autoImplicit false
set_option relaxedAutoImplicit false

namespace MipsBlocks

namespace Frontend

/-- The chain of a block goes up from the start, and then up to the start. -/
structure Ordered (f : Frontend) (b : Block) (start min max : VirtAddr) : Prop where
  /-- Following the links comes to an end. -/
  complete : f.Complete b
  /-- A block is known by the descriptor of its start. -/
  first : ∃ d rest, f.chain b = (b.head, d) :: rest ∧ d.pc = start
  inside : ∀ a ∈ f.analyses b, a.pc.IsAligned ∧ min ≤ a.pc ∧ a.pc < max
  ranges : ∃ front back : List VirtAddr, (f.analyses b).map Analysis.pc = front ++ back ∧
    front.Pairwise (· < ·) ∧ (∀ pc ∈ front, start ≤ pc ∧ pc < max) ∧
    back.Pairwise (· < ·) ∧ ∀ pc ∈ back, min ≤ pc ∧ pc < start
  nodup : ((f.analyses b).map Analysis.pc).Nodup

/-- Two sorted lists of addresses, the second one below the first one, have no address twice. -/
theorem nodup_append_of_lt {front back : List VirtAddr} {start : VirtAddr}
    (hfront : front.Pairwise (· < ·)) (hback : back.Pairwise (· < ·))
    (habove : ∀ pc ∈ front, start ≤ pc) (hbelow : ∀ pc ∈ back, pc < start) :
    (front ++ back).Nodup := by
  have hne : ∀ a c : VirtAddr, a < c → a ≠ c := by
    rintro a _ hlt rfl
    exact Nat.lt_irrefl _ hlt
  refine List.nodup_append.mpr ⟨hfront.imp (hne _ _), hback.imp (hne _ _), ?_⟩
  intro a ha c hc
  exact (hne c a (Nat.lt_of_lt_of_le (hbelow c hc) (habove a ha))).symm

section Added

variable {config : Config} {source : Source} {w : Window} {before f : Frontend} {b : Block}
  {used : List Handle}

/-- The addresses of the chain are those of the sites that the survey found, range by range. -/
theorem pcs_eq (h : before.Adds f b used (Outline.describe config source w).sites) :
    (f.analyses b).map Analysis.pc =
      (Survey.run config source w).front.map (·.node.pc) ++
        (Survey.run config source w).back.map (·.node.pc) := by
  have hgains := map_eq_of_forall₂ (Outline.gains_sites config source w) fun _ _ hab ↦ hab.pc.symm
  rw [h.analyses_eq, List.map_map, ← List.map_append]
  exact hgains.symm

/-- The first descriptor is the one that the block is known by, and it is that of the start. -/
theorem exists_chain_eq_cons (h : before.Adds f b used (Outline.describe config source w).sites) :
    ∃ d rest, f.chain b = (b.head, d) :: rest ∧ d.pc = w.start := by
  obtain ⟨first, hlookup, -⟩ := Survey.startFirst_run config source w
  have hpcs : ((f.analyses b).map Analysis.pc).head? = some w.start := by
    rw [pcs_eq h, List.head?_append, List.head?_map, Survey.head?_front hlookup]
    exact congrArg some (Survey.pc_of_lookup_run hlookup)
  have hchain := h.complete
  rw [Complete] at hchain
  rw [analyses] at hpcs
  cases hlist : f.chain b with
  | nil =>
    rw [hlist] at hpcs
    cases hpcs
  | cons e rest =>
    rw [hlist] at hchain hpcs
    cases hchain
    exact ⟨_, rest, rfl, Option.some.inj hpcs⟩

theorem ordered_of_adds (h : before.Adds f b used (Outline.describe config source w).sites) :
    f.Ordered b w.start w.min w.max := by
  have hfront : ((Survey.run config source w).front.map (·.node.pc)).Pairwise (· < ·) :=
    List.pairwise_map.mpr (Survey.pairwise_front config source w)
  have hback : ((Survey.run config source w).back.map (·.node.pc)).Pairwise (· < ·) :=
    List.pairwise_map.mpr (Survey.pairwise_back config source w)
  have habove : ∀ pc ∈ (Survey.run config source w).front.map (·.node.pc),
      w.start ≤ pc ∧ pc < w.max := by
    intro pc hpc
    obtain ⟨site, hsite, rfl⟩ := List.mem_map.mp hpc
    obtain ⟨spot, hlookup, hle⟩ := Survey.mem_front_iff.mp hsite
    rw [Survey.pc_of_lookup_run hlookup]
    exact ⟨hle, spot.inside.2.1⟩
  have hbelow : ∀ pc ∈ (Survey.run config source w).back.map (·.node.pc),
      w.min ≤ pc ∧ pc < w.start := by
    intro pc hpc
    obtain ⟨site, hsite, rfl⟩ := List.mem_map.mp hpc
    obtain ⟨spot, hlookup, hlt⟩ := Survey.mem_back_iff.mp hsite
    rw [Survey.pc_of_lookup_run hlookup]
    exact ⟨spot.inside.1, hlt⟩
  refine ⟨h.complete, exists_chain_eq_cons h, fun a ha ↦ ?_,
    ⟨_, _, pcs_eq h, hfront, habove, hback, hbelow⟩, ?_⟩
  · obtain ⟨hmin, hmax, -⟩ := contains_pc h ha
    exact ⟨isAligned_pc h ha, hmin, hmax⟩
  · rw [pcs_eq h]
    exact nodup_append_of_lt hfront hback (fun pc hpc ↦ (habove pc hpc).1)
      fun pc hpc ↦ (hbelow pc hpc).2

end Added

/-- A description that succeeds in a session gives a chain in the order of addresses. -/
theorem ordered_of_describeBlock {config : Config} {valid : config.Valid} {ops : List Session.Op}
    {source : Source} {start min max : VirtAddr} {b : Block} {f : Frontend}
    (h : (Session.run config valid ops).frontend.describeBlock source start min max = .ok (b, f)) :
    f.Ordered b start min max := by
  obtain ⟨w, rfl, rfl, rfl, hadds⟩ := Session.exists_window_of_describeBlock h
  exact ordered_of_adds hadds

/-- The loop has instructions on both sides of its start. -/
theorem ordered_loop : ∃ b f,
    (Session.run {} Config.valid_default []).frontend.describeBlock .loop ⟨0x1008⟩ ⟨0x1000⟩
      ⟨0x1018⟩ = .ok (b, f) ∧
    (f.analyses b).map Analysis.pc =
      [⟨0x1008⟩, ⟨0x100c⟩, ⟨0x1010⟩, ⟨0x1014⟩, ⟨0x1000⟩, ⟨0x1004⟩] ∧
    f.Ordered b ⟨0x1008⟩ ⟨0x1000⟩ ⟨0x1018⟩ := by
  have h : (Session.run {} Config.valid_default []).frontend.describeBlock .loop ⟨0x1008⟩ ⟨0x1000⟩
      ⟨0x1018⟩ = .ok (_, _) := rfl
  exact ⟨_, _, h, by decide +kernel, ordered_of_describeBlock h⟩

end Frontend

end MipsBlocks
