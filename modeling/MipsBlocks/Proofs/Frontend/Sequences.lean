import MipsBlocks.Proofs.Frontend.Session

/-!
# The sequences of a block

The chain of a described block is a list of native code sequences (`Frontend.Sequenced`): it begins
with a branch target and ends with the end of a sequence, and of two neighbours the first one ends
its sequence exactly if the second one is a branch target; otherwise it falls through to it. A
branch marked as one inside the block leads to the entry of a sequence, and no sequence is longer
than the configured limit.

The main statements are true of every description that succeeds in a session:
`sequenced_of_describeBlock`, and `required_of_describeBlock`, which says that the required
registers of each sequence are exactly those that are written and not overwritten before they may
be read.
-/

set_option autoImplicit false
set_option relaxedAutoImplicit false

namespace MipsBlocks

namespace Frontend

variable {config : Config} {source : Source} {w : Window} {before f : Frontend} {b : Block}
  {used : List Handle}

/-- The chain of a block is cut after the ends of the sequences of its outline. -/
theorem sequences_eq (hvalid : config.Valid)
    (h : before.Adds f b used (Outline.describe config source w).sites) :
    f.sequences b = (Outline.describe config source w).sequences.map (List.map Site.node) := by
  have hanalyses : f.analyses b =
      ((Outline.describe config source w).sequences.map (List.map Site.node)).flatten := by
    rw [h.analyses_eq, Outline.sites, List.map_flatten]
  rw [sequences, hanalyses]
  refine List.splitBy_flatten ?_ ?_ ?_
  · intro hnil
    obtain ⟨s, hs, hempty⟩ := List.mem_map.mp hnil
    exact Outline.nil_notMem_describe hvalid (List.map_eq_nil_iff.mp hempty ▸ hs)
  · intro l hl
    obtain ⟨s, hs, rfl⟩ := List.mem_map.mp hl
    have hinner := (Outline.sound_of_mem hvalid hs).delimited.inner
    rw [List.isChain_map]
    exact hinner.imp fun a c hac ↦ by simpa [Analysis.endsSequence] using hac.1
  · rw [List.isChain_map, List.isChain_iff_getElem]
    intro i hi
    have hlast := Outline.sound_of_mem hvalid (List.getElem_mem (Nat.lt_of_succ_lt hi))
    have hnext := Outline.sound_of_mem hvalid (List.getElem_mem hi)
    have hne := hlast.delimited.ne_nil
    refine ⟨fun hnil ↦ hne (List.map_eq_nil_iff.mp hnil),
      fun hnil ↦ hnext.delimited.ne_nil (List.map_eq_nil_iff.mp hnil), ?_⟩
    have hends := hlast.delimited.last _ (List.getLast?_eq_some_getLast hne)
    rw [List.getLast_map]
    simpa [Analysis.endsSequence] using hends

/-! ### Entries and ends -/

/-- The chain of a block is a list of sequences, none longer than the limit. -/
structure Sequenced (f : Frontend) (b : Block) (limit : Nat) : Prop where
  ne_nil : f.analyses b ≠ []
  first : ∀ a ∈ (f.analyses b).head?, .branchTarget ∈ a.flags
  last : ∀ a ∈ (f.analyses b).getLast?, .endSequence ∈ a.flags
  neighbours : (f.analyses b).IsChain fun a c ↦
    (.endSequence ∈ a.flags ↔ .branchTarget ∈ c.flags) ∧
      (.endSequence ∉ a.flags → c.pc = a.fallthrough)
  /-- A branch that is marked as one inside the block leads to an entry. -/
  target : ∀ a ∈ f.analyses b, .intrablockBranch ∈ a.flags →
    ∃ c ∈ f.analyses b, a.target = some c.pc ∧ .branchTarget ∈ c.flags
  /-- A sequence is entered at its first descriptor and ends at its last one. -/
  delimited : ∀ s ∈ f.sequences b, (∀ a ∈ s.head?, .branchTarget ∈ a.flags) ∧
    (∀ a ∈ s.getLast?, .endSequence ∈ a.flags) ∧
      s.IsChain fun a c ↦ .endSequence ∉ a.flags ∧ .branchTarget ∉ c.flags
  length_le : ∀ s ∈ f.sequences b, s.length ≤ limit

/-- The target of a marked branch is on the chain, and it is a branch target there. -/
theorem exists_target (h : before.Adds f b used (Outline.describe config source w).sites)
    {a : Analysis} (ha : a ∈ f.analyses b) (hmarked : .intrablockBranch ∈ a.flags) :
    ∃ c ∈ f.analyses b, a.target = some c.pc ∧ .branchTarget ∈ c.flags := by
  obtain ⟨spot, found, site, hlookup, hgains, rfl⟩ := exists_found_of_mem h ha
  obtain ⟨t, next, hinner, hnext, hentry⟩ :=
    Survey.found_of_intrablockBranch_run hlookup ((hgains.mem_flags_iff (by decide)).mp hmarked)
  obtain ⟨target, htarget, hmem⟩ := exists_mem_of_found h hnext
  refine ⟨target.node, hmem, ?_, htarget.mem_flags hentry⟩
  rw [hgains.target, (Survey.describes_of_lookup_run hlookup).target_node, htarget.pc,
    Survey.pc_of_lookup_run hnext]
  exact (Survey.innerTarget?_eq_some_iff.mp hinner).2

theorem sequenced_of_adds (hvalid : config.Valid)
    (h : before.Adds f b used (Outline.describe config source w).sites) :
    f.Sequenced b config.maxSequence := by
  have hsequences := sequences_eq hvalid h
  have hanalyses := h.analyses_eq
  refine ⟨?_, ?_, ?_, ?_, fun a ha hmarked ↦ exists_target h ha hmarked, ?_, ?_⟩
  · obtain ⟨site, hsite, -⟩ := Outline.head?_sites_describe config source w
    rw [hanalyses]
    intro hnil
    rw [List.map_eq_nil_iff.mp hnil] at hsite
    cases hsite
  · intro a ha
    rw [hanalyses, List.head?_map] at ha
    obtain ⟨site, hsite, rfl⟩ := Option.map_eq_some_iff.mp ha
    exact Outline.branchTarget_head? hvalid hsite
  · intro a ha
    rw [hanalyses, List.getLast?_map] at ha
    obtain ⟨site, hsite, rfl⟩ := Option.map_eq_some_iff.mp ha
    exact Outline.endSequence_getLast? hvalid hsite
  · rw [hanalyses, List.isChain_map]
    exact Outline.isChain_sites hvalid
  · intro l hl
    rw [hsequences] at hl
    obtain ⟨s, hs, rfl⟩ := List.mem_map.mp hl
    have hdelimited := (Outline.sound_of_mem hvalid hs).delimited
    rw [List.head?_map, List.getLast?_map, List.isChain_map]
    refine ⟨fun a ha ↦ ?_, fun a ha ↦ ?_, hdelimited.inner⟩
    · obtain ⟨site, hsite, rfl⟩ := Option.map_eq_some_iff.mp ha
      exact hdelimited.first site hsite
    · obtain ⟨site, hsite, rfl⟩ := Option.map_eq_some_iff.mp ha
      exact hdelimited.last site hsite
  · intro l hl
    rw [hsequences] at hl
    obtain ⟨s, hs, rfl⟩ := List.mem_map.mp hl
    rw [List.length_map]
    exact (Outline.sound_of_mem hvalid hs).length_le

/-- A description that succeeds in a session gives a chain of sequences. -/
theorem sequenced_of_describeBlock {valid : config.Valid} {ops : List Session.Op}
    {start min max : VirtAddr}
    (h : (Session.run config valid ops).frontend.describeBlock source start min max = .ok (b, f)) :
    f.Sequenced b config.maxSequence := by
  obtain ⟨w, -, -, -, hadds⟩ := Session.exists_window_of_describeBlock h
  exact sequenced_of_adds valid hadds

theorem sequenced_loop : ∃ b f,
    (Session.run {} Config.valid_default []).frontend.describeBlock .loop ⟨0x1008⟩ ⟨0x1000⟩
      ⟨0x1018⟩ = .ok (b, f) ∧
    (f.sequences b).map (List.map Analysis.pc) =
      [[⟨0x1008⟩], [⟨0x100c⟩, ⟨0x1010⟩, ⟨0x1014⟩], [⟨0x1000⟩, ⟨0x1004⟩]] ∧
    f.Sequenced b 64 := by
  have h : (Session.run {} Config.valid_default []).frontend.describeBlock .loop ⟨0x1008⟩ ⟨0x1000⟩
      ⟨0x1018⟩ = .ok (_, _) := rfl
  exact ⟨_, _, h, by decide +kernel, sequenced_of_describeBlock h⟩

/-! ### Required registers -/

/-- In every sequence of a block the required registers are exactly the written ones that are not
overwritten before they may be read. -/
theorem required_of_describeBlock {valid : config.Valid} {ops : List Session.Op}
    {start min max : VirtAddr}
    (h : (Session.run config valid ops).frontend.describeBlock source start min max = .ok (b, f)) :
    (f.sequences b).flatten = f.analyses b ∧
      ∀ s ∈ f.sequences b, ∀ (i : Nat) (a : Analysis), s[i]? = some a → ∀ r : Register,
        r ∈ a.required ↔
          r ∈ a.writes ∧ (a.isBranch = true ∨ ¬ Analysis.OverwrittenAfter s i r) := by
  obtain ⟨w, -, -, -, hadds⟩ := Session.exists_window_of_describeBlock h
  refine ⟨List.flatten_splitBy _ _, fun s hs i a ha r ↦ ?_⟩
  rw [sequences_eq valid hadds] at hs
  obtain ⟨sites, hsites, rfl⟩ := List.mem_map.mp hs
  obtain ⟨l, hl⟩ := Outline.nodes_of_mem hsites
  rw [hl] at ha ⊢
  exact Analysis.mem_required_iff ha

/-- The second instruction of a sequence of the loop writes a register that the third one overwrites
without reading it. -/
theorem required_loop : ∃ b f,
    (Session.run {} Config.valid_default []).frontend.describeBlock .loop ⟨0x1008⟩ ⟨0x1000⟩
      ⟨0x1018⟩ = .ok (b, f) ∧ (f.sequences b).flatten = f.analyses b ∧
    ∃ s ∈ f.sequences b, ∃ a ∈ s[1]?, Register.gpr 9 ∈ a.writes ∧ Register.gpr 9 ∉ a.required ∧
      (Register.gpr 9 ∈ a.required ↔ Register.gpr 9 ∈ a.writes ∧
        (a.isBranch = true ∨ ¬ Analysis.OverwrittenAfter s 1 (.gpr 9))) := by
  obtain ⟨b, f, h, s, hs, a, ha, hwrites, hrequired⟩ : ∃ b f,
      (Session.run {} Config.valid_default []).frontend.describeBlock .loop ⟨0x1008⟩ ⟨0x1000⟩
        ⟨0x1018⟩ = .ok (b, f) ∧
      ∃ s ∈ f.sequences b, ∃ a ∈ s[1]?, Register.gpr 9 ∈ a.writes ∧ Register.gpr 9 ∉ a.required :=
    ⟨_, _, rfl, by decide +kernel⟩
  obtain ⟨hall, hexact⟩ := required_of_describeBlock h
  exact ⟨b, f, h, hall, s, hs, a, ha, hwrites, hrequired, hexact s hs 1 a ha _⟩

end Frontend

end MipsBlocks
