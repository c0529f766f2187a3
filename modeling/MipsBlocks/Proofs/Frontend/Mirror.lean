import MipsBlocks.Proofs.Frontend.Session
import MipsBlocks.Proofs.Pool.Renaming

/-!
# Blocks that mirror each other

A block mirrors another one when a renaming of handles takes each descriptor of the first block, on
its chain or in a delay slot, to the descriptor in the same position of the second one, links and
all (`Frontend.Mirrors`). The analyses may differ by a function, which is the identity where the
blocks agree on everything but the handles.

Blocks with the same sites mirror each other whatever pools they are in
(`mirrors_of_installed`): what is in a slot before it is acquired, and which slot it is, leaves no
trace in them.
-/

set_option autoImplicit false
set_option relaxedAutoImplicit false

namespace MipsBlocks

namespace Frontend

/-- The renaming `ρ` takes the descriptors of `b` to those of `b'`, position by position, and `g`
their analyses. -/
structure Mirrors (ρ : Handle → Handle) (g : Analysis → Analysis) (f : Frontend) (b : Block)
    (f' : Frontend) (b' : Block) : Prop where
  chain : f'.chain b' = (f.chain b).map fun e ↦ (ρ e.1, e.2.map ρ g)
  /-- Chains and delay slots alike: each handle goes to the handle in its position, and the links of
  a descriptor do not leave the block. -/
  owned : f'.owned b' = (f.owned b).map ρ
  descriptor : ∀ h ∈ f.owned b, ∃ d, f.descriptor? h = some d ∧
    f'.descriptor? (ρ h) = some (d.map ρ g) ∧ ∀ k ∈ d.links, k ∈ f.owned b
  injective : ∀ h ∈ f.owned b, ∀ k ∈ f.owned b, ρ h = ρ k → h = k

variable {f f' : Frontend} {b b' : Block}

/-- The descriptors of a block are on its chain or in a delay slot of it. -/
theorem mem_owned_iff {h : Handle} :
    h ∈ f.owned b ↔ ∃ e ∈ f.chain b, h = e.1 ∨ h ∈ e.2.delaySlot := by
  simp only [owned, handlesOf, List.mem_flatMap, List.mem_append, Option.mem_toList,
    List.mem_singleton]
  exact exists_congr fun e ↦ and_congr_right fun _ ↦ or_comm

theorem handlesOf_map (ρ : Handle → Handle) (g : Analysis → Analysis) (e : Handle × Descriptor) :
    handlesOf (ρ e.1, e.2.map ρ g) = (handlesOf e).map ρ := by
  rw [handlesOf, handlesOf, List.map_append]
  cases h : e.2.delaySlot <;> simp [Descriptor.map, h]

section Installed

variable {handles handles' : Array Handle} {sites : List Site} {ρ : Handle → Handle}
  {g : Analysis → Analysis}

/-- Blocks with the same sites, up to what `g` makes of them, mirror each other. Assumes: `ρ` takes
the handles of the first block to those of the second one. -/
theorem mirrors_of_installed (hb : f.Complete b) (hb' : f'.Complete b')
    (h : List.Forall₂ (f.pool.Installed handles) (f.chain b) sites)
    (h' : List.Forall₂ (f'.pool.Installed handles') (f'.chain b') (sites.map (Site.map g)))
    (hρ : ∀ i : Nat, handles'[i]? = (handles[i]?).map ρ) (hnodup : (f'.owned b').Nodup) :
    Mirrors ρ g f b f' b' := by
  rw [List.forall₂_map_right_iff] at h'
  have hchain : f'.chain b' = (f.chain b).map fun e ↦ (ρ e.1, e.2.map ρ g) := by
    refine (Pool.Chain.map_eq hb hb' ?_).2
    exact comp_of_forall₂ (fun e site e' he he' ↦ he.map he' hρ) h h'.flip
  have howned : f'.owned b' = (f.owned b).map ρ := by
    rw [owned, owned, hchain, List.flatMap_map, List.map_flatMap]
    exact List.flatMap_congr fun e _ ↦ handlesOf_map ρ g e
  rw [howned] at hnodup
  refine ⟨hchain, howned, ?_, fun _ hh _ hk heq ↦ List.inj_on_of_nodup_map hnodup hh hk heq⟩
  intro k hk
  obtain ⟨e, he, rfl | hslot⟩ := mem_owned_iff.mp hk
  · have he' : (ρ e.1, e.2.map ρ g) ∈ f'.chain b' := by
      rw [hchain]
      exact List.mem_map_of_mem he
    refine ⟨e.2, hb.get?_eq he, hb'.get?_eq he', fun j hj ↦ mem_owned_iff.mpr ?_⟩
    obtain ⟨site, -, hsite⟩ := exists_mem_of_forall₂ h.flip he
    have howner : e.2.owner = none := hsite.owner
    simp only [Descriptor.links, howner, Option.toList_none, List.append_nil, List.mem_append,
      Option.mem_toList] at hj
    rcases hj with hnext | hslot
    · obtain ⟨e', he', heq⟩ := hb.mem_of_next he hnext
      exact ⟨e', he', .inl heq.symm⟩
    · exact ⟨e, he, .inr hslot⟩
  · rw [hchain, List.forall₂_map_left_iff] at h'
    obtain ⟨site, -, hsite, hsite'⟩ := exists_mem_of_forall₂ (and_of_forall₂ h h').flip he
    obtain ⟨d, hlinks, hget, hget'⟩ := hsite.map_slot hsite' hρ hslot
    refine ⟨d, hget, hget', fun j hj ↦ mem_owned_iff.mpr ⟨e, he, .inl ?_⟩⟩
    rw [hlinks] at hj
    exact List.mem_singleton.mp hj

end Installed

/-- Described windows with the same sites, up to what `g` makes of them, mirror each other. Assumes:
the slots in use are accounted for, and `ρ` takes the slots acquired for the first block to those
acquired for the second one. -/
theorem mirrors_describeWindow {f f' : Frontend} {used used' : List Handle}
    {source source' : Source} {w w' : Window} {ρ : Handle → Handle} {g : Analysis → Analysis}
    (hp : f.pool.Accounts used) (hp' : f'.pool.Accounts used')
    (hsites : (Outline.describe f'.config source' w').sites =
      (Outline.describe f.config source w).sites.map (Site.map g))
    (hρ : (f'.pool.acquireAll (Outline.describe f'.config source' w').trace).1.toList =
      (f.pool.acquireAll (Outline.describe f.config source w).trace).1.toList.map ρ) :
    Mirrors ρ g (f.describeWindow source w).2 (f.describeWindow source w).1
      (f'.describeWindow source' w').2 (f'.describeWindow source' w').1 := by
  have hadds := adds_describeWindow hp source w
  have hadds' := adds_describeWindow hp' source' w'
  have hinstalled' := installed_describeWindow hp' source' w'
  rw [hsites] at hinstalled'
  refine mirrors_of_installed hadds.complete hadds'.complete (installed_describeWindow hp source w)
    hinstalled' (fun i ↦ ?_) hadds'.accounts.nodup.of_append_left.of_append_left
  rw [← Array.getElem?_toList, ← Array.getElem?_toList, hρ, List.getElem?_map]

end Frontend

end MipsBlocks
