import MipsBlocks.Proofs.Block.Recast
import MipsBlocks.Proofs.Frontend.Fidelity
import MipsBlocks.Proofs.Frontend.Mirror
import MipsBlocks.Proofs.Literals

/-!
# The argument channel

The argument channel is read for literal operand data and for nothing else. In a block exactly the
descriptors of words with literals, where these are instructions of the processor model, have an
argument, and it is the word of the argument channel (`Frontend.Fed`).

With another argument channel everything is described as before but for these words
(`fed_of_describeBlock`): no argument is decoded, followed or counted as a register.
-/

set_option autoImplicit false
set_option relaxedAutoImplicit false

namespace MipsBlocks

/-- The analysis with the argument word, if it has one, fetched from another source. -/
def Analysis.refetch (source : Source) (a : Analysis) : Analysis :=
  { a with argument := a.argument.map fun _ ↦ source.fetchArgument a.phys }

/-! ### Another argument channel -/

/-- What a survey makes of code whose arguments come from another source. -/
def Recast.refetch (config : Config) (w : Window) (source : Source) : Recast config w w where
  toPlacement := .refl config w
  argument := fun phys x ↦ x.map fun _ ↦ source.fetchArgument phys

theorem Recast.analysis_refetch (config : Config) (w : Window) (source : Source) :
    (refetch config w source).analysis = Analysis.refetch source := by
  refine funext fun a ↦ ?_
  rw [analysis, refetch, Placement.refl, Option.map_id]
  rfl

/-- A source that differs in the argument channel only shows the same with other arguments. -/
theorem Config.analyze_refetch {config : Config} {source source' : Source} {pc : VirtAddr}
    (htranslate : source'.translate config.addressSpace pc =
      source.translate config.addressSpace pc)
    (hopcode : ∀ phys, source'.fetchOpcode phys = source.fetchOpcode phys) :
    config.analyze source' pc = (config.analyze source pc).refetch source' := by
  cases hphys : source.translate config.addressSpace pc with
  | none =>
    rw [hphys] at htranslate
    rw [analyze_of_translate_eq_none hphys, analyze_of_translate_eq_none htranslate]
    rfl
  | some phys =>
    rw [hphys] at htranslate
    rw [analyze_of_translate_eq_some hphys, analyze_of_translate_eq_some htranslate,
      Analysis.decoded, Analysis.decoded, hopcode]
    cases hliteral : (Analysis.effect config.flavor pc (source.fetchOpcode phys)).literal <;>
      simp [Analysis.ofEffect, Analysis.refetch, hliteral]

namespace Outline

section Refetch

variable {config : Config} {source source' : Source} {w : Window}
  (htranslate : ∀ pc, source'.translate config.addressSpace pc =
    source.translate config.addressSpace pc)
  (hopcode : ∀ phys, source'.fetchOpcode phys = source.fetchOpcode phys)

include htranslate hopcode

theorem agrees_refetch (pc : VirtAddr) :
    (Recast.refetch config w source').Agrees source source' pc := by
  rw [Recast.Agrees, Recast.analysis_refetch]
  exact Config.analyze_refetch (htranslate pc) hopcode

/-- With other arguments the same addresses are described, in the same order. -/
theorem trace_describe_refetch :
    (describe config source' w).trace = (describe config source w).trace := by
  have hrecast := trace_describe_recast (.refetch config w source')
    fun _ _ _ pc _ ↦ agrees_refetch htranslate hopcode pc
  rw [hrecast]
  exact Array.map_id _

/-- And their sites differ in the arguments only. -/
theorem sites_describe_refetch : (describe config source' w).sites =
    (describe config source w).sites.map (Site.map (Analysis.refetch source')) := by
  have hrecast := sites_describe_recast (.refetch config w source')
    (fun _ _ _ pc _ ↦ agrees_refetch htranslate hopcode pc) fun _ _ ↦ rfl
  rw [hrecast, ← Recast.analysis_refetch config w source']
  rfl

end Refetch

end Outline

/-! ### Described blocks -/

namespace Frontend

/-- The descriptors of a block hold the words fetched at their addresses, and an argument exactly
where the word carries a literal. -/
structure Fed (f : Frontend) (b : Block) (config : Config) (source : Source) : Prop where
  fetched : ∀ d ∈ f.descriptors b, ∀ phys, source.translate config.addressSpace d.pc = some phys →
    d.phys = phys ∧ d.opcode = source.fetchOpcode d.phys
  argument : ∀ d ∈ f.descriptors b, source.translate config.addressSpace d.pc ≠ none →
    d.argument =
      if (Insn.decode? config.flavor d.opcode).isSome = true ∧ d.opcode.CarriesLiteral then
        some (source.fetchArgument d.phys)
      else none

section Added

variable {config : Config} {source : Source} {w : Window} {before f : Frontend} {b : Block}
  {used : List Handle}

/-- A descriptor of a block is the description of its address with flags of the block. -/
theorem exists_analyzed (h : before.Adds f b used (Outline.describe config source w).sites)
    {d : Descriptor} (hd : d ∈ f.descriptors b) : ∃ flags required,
      d.toAnalysis = { (config.analyze source d.pc).flag flags with required } := by
  obtain ⟨k, hk, hget⟩ := List.mem_filterMap.mp hd
  obtain ⟨e, he, rfl | hslot⟩ := mem_owned_iff.mp hk
  · obtain rfl : e.2 = d := Option.some.inj ((h.complete.get?_eq he).symm.trans hget)
    obtain ⟨gained, -, required, heq⟩ := exists_gained h (List.mem_map_of_mem he)
    exact ⟨_, _, heq⟩
  · obtain ⟨d', hget', -, -, required, heq⟩ := exists_slot_eq h he hslot
    obtain rfl : d' = d := Option.some.inj (hget'.symm.trans hget)
    exact ⟨_, _, heq⟩

theorem fed_of_adds (h : before.Adds f b used (Outline.describe config source w).sites) :
    f.Fed b config source := by
  have hdecoded : ∀ d ∈ f.descriptors b, ∀ phys,
      source.translate config.addressSpace d.pc = some phys → ∃ flags required, d.toAnalysis =
        { (Analysis.decoded config.flavor source d.pc phys).flag flags with required } := by
    intro d hd phys hphys
    rw [← Config.analyze_of_translate_eq_some hphys]
    exact exists_analyzed h hd
  refine ⟨fun d hd phys hphys ↦ ?_, fun d hd hfetched ↦ ?_⟩
  · obtain ⟨flags, required, heq⟩ := hdecoded d hd phys hphys
    have hphysEq : d.phys = phys := congrArg Analysis.phys heq
    rw [hphysEq]
    exact ⟨rfl, congrArg Analysis.opcode heq⟩
  · obtain ⟨phys, hphys⟩ := Option.ne_none_iff_exists'.mp hfetched
    obtain ⟨flags, required, heq⟩ := hdecoded d hd phys hphys
    have hphysEq : d.phys = phys := congrArg Analysis.phys heq
    have hopcode : d.opcode = source.fetchOpcode phys := congrArg Analysis.opcode heq
    have hargument : d.argument =
        if (Analysis.effect config.flavor d.pc (source.fetchOpcode phys)).literal then
          some (source.fetchArgument phys) else none := congrArg Analysis.argument heq
    rw [hargument, hopcode, hphysEq]
    exact if_congr (Analysis.literal_effect_iff ..) rfl rfl

end Added

/-- From a source with another argument channel a window gives the same block in the same slots,
with other arguments. Assumes: the slots in use are accounted for. -/
theorem mirrors_describeWindow_refetch {f : Frontend} {used : List Handle}
    (hp : f.pool.Accounts used) {source source' : Source}
    (htranslate : ∀ pc, source'.translate f.config.addressSpace pc =
      source.translate f.config.addressSpace pc)
    (hopcode : ∀ phys, source'.fetchOpcode phys = source.fetchOpcode phys) (w : Window) :
    (f.describeWindow source' w).1 = (f.describeWindow source w).1 ∧
      Mirrors id (Analysis.refetch source') (f.describeWindow source w).2
        (f.describeWindow source w).1 (f.describeWindow source' w).2
        (f.describeWindow source' w).1 := by
  have htrace : (Outline.describe f.config source' w).trace =
      (Outline.describe f.config source w).trace :=
    Outline.trace_describe_refetch htranslate hopcode
  constructor
  · have hhead := f.head_install (Outline.describe f.config source' w)
    rw [htrace, f.head_install] at hhead
    exact congrArg Block.mk (Option.some.inj hhead).symm
  · refine mirrors_describeWindow hp hp (Outline.sites_describe_refetch htranslate hopcode) ?_
    rw [htrace, List.map_id]

/-- A description that succeeds in a session reads the argument channel for its literals only. From
another source with the same translation and operation channel the same block is described, in the
same slots, and nothing but the value of its arguments differs. -/
theorem fed_of_describeBlock {config : Config} {valid : config.Valid} {ops : List Session.Op}
    {source : Source} {start min max : VirtAddr} {b : Block} {f : Frontend}
    (h : (Session.run config valid ops).frontend.describeBlock source start min max = .ok (b, f)) :
    f.Fed b config source ∧
    ∀ source' : Source,
      (∀ pc, source'.translate config.addressSpace pc =
        source.translate config.addressSpace pc) →
      (∀ phys, source'.fetchOpcode phys = source.fetchOpcode phys) →
      ∃ f', (Session.run config valid ops).frontend.describeBlock source' start min max =
          .ok (b, f') ∧
        Mirrors id (Analysis.refetch source') f b f' b ∧ f'.Fed b config source' := by
  have hfed : ∀ {source : Source} {f : Frontend},
      (Session.run config valid ops).frontend.describeBlock source start min max = .ok (b, f) →
        f.Fed b config source := by
    intro source f h
    obtain ⟨w, -, -, -, hadds⟩ := Session.exists_window_of_describeBlock h
    exact fed_of_adds hadds
  refine ⟨hfed h, fun source' htranslate hopcode ↦ ?_⟩
  obtain ⟨w, hcheck, hw⟩ := Session.describeBlock_eq_ok_iff.mp h
  rw [← Session.config_run config valid ops] at htranslate
  obtain ⟨hblock, hmirrors⟩ := mirrors_describeWindow_refetch
    (Session.sound_run config valid ops).accounts htranslate hopcode w
  rw [hw] at hblock hmirrors
  have hok : (Session.run config valid ops).frontend.describeBlock source' start min max =
      .ok (b, ((Session.run config valid ops).frontend.describeWindow source' w).2) :=
    Session.describeBlock_eq_ok_iff.mpr ⟨w, hcheck, Prod.ext hblock rfl⟩
  rw [hblock] at hmirrors
  exact ⟨_, hok, hmirrors, hfed hok⟩

end Frontend

/-- The loop with an argument channel of its own. -/
def Source.loopScrambled : Source :=
  { loop with fetchArgument := fun a ↦ ~~~ (a.bits.setWidth 32) }

/-- The literal of the loop, which is also in the delay slot of the likely branch, is the only thing
that comes from the other channel. -/
theorem Frontend.fed_loop : ∃ b f f',
    (Session.run {} Config.valid_default []).frontend.describeBlock .loop ⟨0x1008⟩ ⟨0x1000⟩
      ⟨0x1018⟩ = .ok (b, f) ∧
    (Session.run {} Config.valid_default []).frontend.describeBlock .loopScrambled ⟨0x1008⟩
      ⟨0x1000⟩ ⟨0x1018⟩ = .ok (b, f') ∧
    (f.descriptors b).map (·.argument) =
      [some (Assembler.addiu 9 9 1), none, none, none, none, none, some (Assembler.addiu 9 9 1),
        none] ∧
    (f'.descriptors b).map (·.argument) =
      [some 0xffffeff7#32, none, none, none, none, none, some 0xffffeff7#32, none] ∧
    f.Fed b {} .loop ∧ f'.Fed b {} .loopScrambled ∧
    Mirrors id (Analysis.refetch .loopScrambled) f b f' b := by
  have h : (Session.run {} Config.valid_default []).frontend.describeBlock .loop ⟨0x1008⟩ ⟨0x1000⟩
      ⟨0x1018⟩ = .ok (_, _) := rfl
  have h' : (Session.run {} Config.valid_default []).frontend.describeBlock .loopScrambled
      ⟨0x1008⟩ ⟨0x1000⟩ ⟨0x1018⟩ = .ok (_, _) := rfl
  obtain ⟨hfed, hother⟩ := fed_of_describeBlock h
  obtain ⟨f', hok, hmirrors, hfed'⟩ := hother .loopScrambled (fun _ ↦ rfl) fun _ ↦ rfl
  obtain rfl := (Prod.mk.inj (Except.ok.inj (h'.symm.trans hok))).2
  exact ⟨_, _, _, h, hok, by decide +kernel, by decide +kernel, hfed, hfed', hmirrors⟩

end MipsBlocks
