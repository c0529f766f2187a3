import MipsBlocks.Frontend
import MipsBlocks.Proofs.Block.Outline
import MipsBlocks.Proofs.Pool.Accounts

/-!
# Chains in a pool

A chain is a list of descriptors that a pool holds, each linked to the next one (`Pool.Chain`).
Following the links gives it back (`toList_follow`), and it depends on nothing but its own
descriptors (`Chain.congr`).

Installing the sites of an outline links one descriptor for each of them
(`exists_chain_installAll`): the descriptor holds the analysis of the site, and its delay slot is
held by the next handle, owned by it (`Installed`). Assumes: the handles differ from each other and
lie in the pool, and no two sites have a number in common.
-/

set_option autoImplicit false
set_option relaxedAutoImplicit false

namespace MipsBlocks

theorem Site.mem_numbers_iff {site : Site} {i : Nat} :
    i ∈ site.numbers ↔ i = site.order ∨ (site.slot.isSome = true ∧ i = site.order + 1) := by
  rw [numbers, List.mem_range'_1, pcs]
  cases site.slot <;> simp <;> omega

namespace Pool

/-- The pool holds the descriptors of the list under their handles, linked from `cursor` on. -/
inductive Chain (p : Pool) : Option Handle → List (Handle × Descriptor) → Prop
  | nil : Chain p none []
  | cons {h : Handle} {d : Descriptor} {l : List (Handle × Descriptor)}
      (head : p.get? h = some d) (tail : Chain p d.next l) : Chain p (some h) ((h, d) :: l)

/-! ### Following links -/

theorem toList_follow {p : Pool} {cursor : Option Handle} {l : List (Handle × Descriptor)}
    (h : p.Chain cursor l) {fuel : Nat} (hfuel : l.length ≤ fuel)
    (done : Array (Handle × Descriptor)) :
    (p.follow fuel cursor done).toList = done.toList ++ l := by
  induction h generalizing fuel done with
  | nil => cases fuel <;> simp [follow]
  | cons head _ ih =>
    rw [List.length_cons] at hfuel
    obtain ⟨fuel, rfl⟩ : ∃ n, fuel = n + 1 := ⟨fuel - 1, by omega⟩
    rw [follow, head]
    dsimp only
    rw [ih (by omega), Array.toList_push, List.append_assoc, List.singleton_append]

/-- A chain stays one in a pool that holds its descriptors. -/
theorem Chain.congr {p q : Pool} {cursor : Option Handle} {l : List (Handle × Descriptor)}
    (h : p.Chain cursor l) (hq : ∀ e ∈ l, q.get? e.1 = p.get? e.1) : q.Chain cursor l := by
  induction h with
  | nil => exact .nil
  | cons head _ ih =>
    refine .cons ?_ (ih fun e he ↦ hq e (List.mem_cons_of_mem _ he))
    rw [hq _ List.mem_cons_self, head]

/-! ### Installing a site -/

/-- A site is in the pool: its descriptor, which is no delay slot, and that of its own one. -/
structure Installed (p : Pool) (handles : Array Handle) (e : Handle × Descriptor) (site : Site) :
    Prop where
  handle : handles[site.order]? = some e.1
  get : p.get? e.1 = some e.2
  toAnalysis : e.2.toAnalysis = site.node
  owner : e.2.owner = none
  delaySlot : e.2.delaySlot = site.slot.bind fun _ ↦ handles[site.order + 1]?
  slot : ∀ slot ∈ site.slot, ∃ k, handles[site.order + 1]? = some k ∧
    p.get? k = some { slot with owner := some e.1 }

variable {p : Pool} {handles : Array Handle} {site : Site} {next : Option Handle}

/-- Installing a site only puts descriptors under its own handles. -/
theorem install_induction {motive : Pool → Prop} (start : motive p)
    (put : ∀ q h d, (∃ i ∈ site.numbers, handles[i]? = some h) → motive q → motive (q.put h d)) :
    motive (p.install handles site next) := by
  have hnode : site.order ∈ site.numbers := Site.mem_numbers_iff.mpr (.inl rfl)
  unfold install
  split
  · rename_i h hh _
    exact put _ _ _ ⟨_, hnode, hh⟩ start
  · rename_i h slot hh hslot
    have hnext : site.order + 1 ∈ site.numbers :=
      Site.mem_numbers_iff.mpr (.inr ⟨by rw [hslot]; rfl, rfl⟩)
    have hput := put p h { site.node with next, delaySlot := handles[site.order + 1]? }
      ⟨_, hnode, hh⟩ start
    dsimp only
    split
    · rename_i k hk
      exact put _ _ _ ⟨_, hnext, hk⟩ hput
    · exact hput
  · exact start

/-- Installing a site changes nothing but its own descriptors. -/
theorem get?_install {k : Handle} (hk : ∀ i ∈ site.numbers, handles[i]? ≠ some k) :
    (p.install handles site next).get? k = p.get? k := by
  refine install_induction (motive := fun q ↦ q.get? k = p.get? k) rfl ?_
  rintro q h d ⟨i, hi, hh⟩ hq
  have hne : k ≠ h := by
    rintro rfl
    exact hk i hi hh
  rw [get?_put_of_ne hne, hq]

/-- Assumes: the handles differ from each other and lie in the pool, and there is one for each
analysis of the site. -/
theorem exists_installed_install (next : Option Handle) (hnodup : handles.toList.Nodup)
    (hindex : ∀ h ∈ handles.toList, h.index < p.slots.size)
    (hnumbers : ∀ i ∈ site.numbers, i < handles.size) :
    ∃ h d, d.next = next ∧ handles[site.order]? = some h ∧
      (p.install handles site next).Installed handles (h, d) site := by
  have hnode : site.order < handles.size := hnumbers _ (Site.mem_numbers_iff.mpr (.inl rfl))
  have hh : handles[site.order]? = some handles[site.order] := Array.getElem?_eq_getElem hnode
  have hin : handles[site.order].index < p.slots.size :=
    hindex _ (Array.mem_toList_iff.mpr (Array.getElem_mem hnode))
  cases hslot : site.slot with
  | none =>
    refine ⟨_, { site.node with next }, rfl, hh, hh, ?_, rfl, rfl, by simp [hslot], by simp [hslot]⟩
    rw [install, hh, hslot]
    exact get?_put_self hin
  | some slot =>
    have hnext : site.order + 1 < handles.size :=
      hnumbers _ (Site.mem_numbers_iff.mpr (.inr ⟨by rw [hslot]; rfl, rfl⟩))
    have hk : handles[site.order + 1]? = some handles[site.order + 1] :=
      Array.getElem?_eq_getElem hnext
    have hkin : handles[site.order + 1].index < p.slots.size :=
      hindex _ (Array.mem_toList_iff.mpr (Array.getElem_mem hnext))
    have hne : handles[site.order] ≠ handles[site.order + 1] := by
      intro heq
      rw [← Array.getElem_toList, ← Array.getElem_toList] at heq
      have := (List.Nodup.getElem_inj_iff hnodup).mp heq
      omega
    have hinstall : p.install handles site next =
        (p.put handles[site.order]
          { site.node with next, delaySlot := some handles[site.order + 1] }).put
            handles[site.order + 1] { slot with owner := some handles[site.order] } := by
      rw [install, hh, hslot]
      dsimp only
      rw [hk]
    refine ⟨_, { site.node with next, delaySlot := some handles[site.order + 1] }, rfl, hh, hh, ?_,
      rfl, rfl, by simp [hslot, hk], ?_⟩
    · rw [hinstall, get?_put_of_ne hne]
      exact get?_put_self hin
    · intro other hother
      obtain rfl : slot = other := by simpa [hslot] using hother
      refine ⟨_, hk, ?_⟩
      rw [hinstall]
      exact get?_put_self (by simpa [put] using hkin)

/-! ### Installing all sites -/

/-- The handle of the first site of a chain. -/
def entry (handles : Array Handle) (sites : List Site) : Option Handle :=
  sites.head?.bind fun site ↦ handles[site.order]?

theorem installAll_cons (p : Pool) (handles : Array Handle) (site : Site) (rest : List Site) :
    p.installAll handles (site :: rest) =
      (p.installAll handles rest).install handles site (entry handles rest) := by
  cases rest <;> rfl

theorem installAll_induction {motive : Pool → Prop} (sites : List Site) (start : motive p)
    (put : ∀ q h d, h ∈ handles.toList → motive q → motive (q.put h d)) :
    motive (p.installAll handles sites) := by
  induction sites with
  | nil => exact start
  | cons site rest ih =>
    rw [installAll_cons]
    refine install_induction ih ?_
    rintro q h d ⟨i, -, hi⟩ hq
    exact put q h d (Array.mem_toList_iff.mpr (Array.mem_of_getElem? hi)) hq

theorem size_installAll (p : Pool) (handles : Array Handle) (sites : List Site) :
    (p.installAll handles sites).slots.size = p.slots.size :=
  installAll_induction (motive := fun q ↦ q.slots.size = p.slots.size) sites rfl
    fun q h d _ hq ↦ by rw [put, Array.size_setIfInBounds, hq]

theorem accounts_installAll {used : List Handle} (hp : p.Accounts used) (sites : List Site) :
    (p.installAll handles sites).Accounts used :=
  installAll_induction (motive := fun q ↦ q.Accounts used) sites hp
    fun _ h d _ hq ↦ accounts_put hq h d

/-- Nothing but the slots behind the handles changes. -/
theorem get?_installAll (sites : List Site) {k : Handle} (hk : k ∉ handles.toList) :
    (p.installAll handles sites).get? k = p.get? k := by
  refine installAll_induction (motive := fun q ↦ q.get? k = p.get? k) sites rfl ?_
  intro q h d hh hq
  have hne : k ≠ h := by
    rintro rfl
    exact hk hh
  rw [get?_put_of_ne hne, hq]

theorem Installed.congr {p q : Pool} {e : Handle × Descriptor} {site : Site}
    (h : p.Installed handles e site)
    (hq : ∀ i ∈ site.numbers, ∀ k, handles[i]? = some k → q.get? k = p.get? k) :
    q.Installed handles e site where
  handle := h.handle
  get := by rw [hq _ (Site.mem_numbers_iff.mpr (.inl rfl)) _ h.handle, h.get]
  toAnalysis := h.toAnalysis
  owner := h.owner
  delaySlot := h.delaySlot
  slot := fun slot hslot ↦ by
    obtain ⟨k, hk, hget⟩ := h.slot slot hslot
    have hnext : site.order + 1 ∈ site.numbers :=
      Site.mem_numbers_iff.mpr (.inr ⟨by rw [hslot]; rfl, rfl⟩)
    exact ⟨k, hk, by rw [hq _ hnext _ hk, hget]⟩

/-- Installing the sites of a chain links their descriptors in order. -/
theorem exists_chain_installAll (hnodup : handles.toList.Nodup)
    (hindex : ∀ h ∈ handles.toList, h.index < p.slots.size) {sites : List Site}
    (hnumbers : ∀ i ∈ sites.flatMap Site.numbers, i < handles.size)
    (hdisjoint : (sites.flatMap Site.numbers).Nodup) :
    ∃ l, (p.installAll handles sites).Chain (entry handles sites) l ∧
      List.Forall₂ ((p.installAll handles sites).Installed handles) l sites := by
  induction sites with
  | nil => exact ⟨[], .nil, .nil⟩
  | cons site rest ih =>
    rw [List.flatMap_cons] at hnumbers hdisjoint
    obtain ⟨-, hrest, hapart⟩ := List.nodup_append.mp hdisjoint
    obtain ⟨l, hchain, hinstalled⟩ :=
      ih (fun i hi ↦ hnumbers i (List.mem_append.mpr (.inr hi))) hrest
    have hsize := size_installAll p handles rest
    obtain ⟨h, d, hnext, hh, hsite⟩ := exists_installed_install
      (p := p.installAll handles rest) (entry handles rest) hnodup
      (fun h hh ↦ by rw [hsize]; exact hindex h hh)
      (fun i hi ↦ hnumbers i (List.mem_append.mpr (.inl hi)))
    have hkeep : ∀ j ∈ rest.flatMap Site.numbers, ∀ k, handles[j]? = some k →
        ((p.installAll handles rest).install handles site (entry handles rest)).get? k =
          (p.installAll handles rest).get? k := by
      intro j hj k hk
      refine get?_install fun i hi hik ↦ hapart i hi j hj ?_
      have hlt : i < handles.toList.length := hnumbers i (List.mem_append.mpr (.inl hi))
      refine (List.getElem?_inj hlt hnodup).mp ?_
      rw [Array.getElem?_toList, Array.getElem?_toList, hik, hk]
    have hmem : ∀ s ∈ rest, ∀ i ∈ s.numbers, i ∈ rest.flatMap Site.numbers :=
      fun s hs i hi ↦ List.mem_flatMap.mpr ⟨s, hs, hi⟩
    have hentry : entry handles (site :: rest) = some h := hh
    rw [installAll_cons, hentry]
    refine ⟨(h, d) :: l, .cons hsite.get ?_, .cons hsite ?_⟩
    · rw [hnext]
      refine hchain.congr fun e he ↦ ?_
      obtain ⟨s, hs, hes⟩ := exists_mem_of_forall₂ hinstalled.flip he
      exact hkeep _ (hmem s hs _ (Site.mem_numbers_iff.mpr (.inl rfl))) _ hes.handle
    · have hboth := (List.forall₂_and_left rest l).mpr ⟨fun s hs ↦ hs, hinstalled.flip⟩
      refine hboth.flip.imp fun e s hes ↦ hes.2.congr fun i hi k hk ↦ ?_
      exact hkeep i (hmem s hes.1 i hi) k hk

end Pool

end MipsBlocks
