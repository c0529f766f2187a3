import MipsBlocks.Proofs.Builder.Basic
import MipsBlocks.Proofs.Pool.Chain

/-!
# Sites in a pool under construction

While a block is built, the pool holds its sites one by one: `Pool.Cell` says that a site is there,
under which handle and linked to what. A cell depends on the slots of its own handles only
(`Cell.congr`), and stays where it is when more handles are acquired (`Cell.mono`).

Changing descriptors in place takes some cells to others and leaves all the rest as it is
(`Pool.Revises`); such changes compose, one after the other (`Revises.trans`) and side by side
(`Revises.append`). Writing the link of the last one of some linked sites adds a site to them
(`Linked.concat`). Two pools that hold the same linked sites hold the same under their handles
(`Linked.get?_eq`), so a pool with linked sites is the one in which they are installed at once
(`eq_installAll`). Assumes: the handles differ from each other.
-/

set_option autoImplicit false
set_option relaxedAutoImplicit false

namespace MipsBlocks

/-- Different places of a list without repetition hold different handles. -/
theorem eq_of_getElem?_eq_some {handles : Array Handle} (hnodup : handles.toList.Nodup) {i j : Nat}
    {k : Handle} (hi : handles[i]? = some k) (hj : handles[j]? = some k) : i = j := by
  have hlt : i < handles.toList.length := (Array.getElem?_eq_some_iff.mp hi).1
  refine (List.getElem?_inj hlt hnodup).mp ?_
  rw [Array.getElem?_toList, Array.getElem?_toList, hi, hj]

namespace Site

/-- The second site takes the places of the first one. -/
structure Replaces (a b : Site) : Prop where
  order : b.order = a.order
  numbers : b.numbers = a.numbers

theorem order_mem_numbers (a : Site) : a.order ∈ a.numbers := mem_numbers_iff.mpr (.inl rfl)

theorem succ_order_mem_numbers {a : Site} {slot : Analysis} (h : slot ∈ a.slot) :
    a.order + 1 ∈ a.numbers := by
  refine mem_numbers_iff.mpr (.inr ⟨?_, rfl⟩)
  rw [h]
  rfl

end Site

namespace Pool

variable {p q : Pool} {handles : Array Handle}

/-! ### Slots -/

theorem index_lt_of_get? {h : Handle} {d : Descriptor} (hd : p.get? h = some d) :
    h.index < p.slots.size :=
  (Array.getElem?_eq_some_iff.mp hd).1

/-- Two pools are one if they have the same free slots and the same contents. -/
theorem eq_of_get? (hfree : p.free = q.free) (hget : ∀ k, p.get? k = q.get? k) : p = q := by
  obtain ⟨slots, free⟩ := p
  obtain ⟨slots', free'⟩ := q
  obtain rfl : free = free' := hfree
  have hslots : slots = slots' := Array.ext_getElem? fun i ↦ hget ⟨i⟩
  rw [hslots]

/-! ### Cells -/

/-- The pool holds a site under the handle `h`, linked to `next`, and its delay slot under the
handle after that. -/
structure Cell (p : Pool) (handles : Array Handle) (h : Handle) (site : Site)
    (next : Option Handle) : Prop where
  handle : handles[site.order]? = some h
  get : p.get? h = some { site.node with
    next, delaySlot := site.slot.bind fun _ ↦ handles[site.order + 1]? }
  slot : ∀ slot ∈ site.slot, ∃ k, handles[site.order + 1]? = some k ∧
    p.get? k = some { slot with owner := some h }

namespace Cell

variable {h : Handle} {site : Site} {next : Option Handle}

theorem congr (hp : p.Cell handles h site next)
    (hq : ∀ i ∈ site.numbers, ∀ k, handles[i]? = some k → q.get? k = p.get? k) :
    q.Cell handles h site next where
  handle := hp.handle
  get := by rw [hq _ site.order_mem_numbers _ hp.handle, hp.get]
  slot := fun slot hslot ↦ by
    obtain ⟨k, hk, hget⟩ := hp.slot slot hslot
    exact ⟨k, hk, by rw [hq _ (Site.succ_order_mem_numbers hslot) _ hk, hget]⟩

/-- Acquiring more handles moves no site. -/
theorem mono {handles' : Array Handle}
    (hhandles : ∀ (i : Nat) k, handles[i]? = some k → handles'[i]? = some k)
    (hp : p.Cell handles h site next) : p.Cell handles' h site next where
  handle := hhandles _ _ hp.handle
  get := by
    rw [hp.get]
    cases hslot : site.slot with
    | none => rfl
    | some slot =>
      obtain ⟨k, hk, -⟩ := hp.slot slot hslot
      rw [Option.bind_some, Option.bind_some, hk, hhandles _ _ hk]
  slot := fun slot hslot ↦ by
    obtain ⟨k, hk, hget⟩ := hp.slot slot hslot
    exact ⟨k, hhandles _ _ hk, hget⟩

theorem of_installed {e : Handle × Descriptor} (he : p.Installed handles e site) :
    p.Cell handles e.1 site e.2.next where
  handle := he.handle
  get := by
    obtain ⟨h, a, next, slot, owner⟩ := e
    obtain rfl : owner = none := he.owner
    obtain rfl : slot = _ := he.delaySlot
    obtain rfl : a = _ := he.toAnalysis
    exact he.get
  slot := he.slot

/-- What a pool holds for a site does not depend on the pool. -/
theorem get?_eq (hp : p.Cell handles h site next) (hq : q.Cell handles h site next) {i : Nat}
    (hi : i ∈ site.numbers) {k : Handle} (hk : handles[i]? = some k) : p.get? k = q.get? k := by
  rcases Site.mem_numbers_iff.mp hi with rfl | ⟨hslot, rfl⟩
  · obtain rfl : h = k := Option.some.inj (hp.handle.symm.trans hk)
    rw [hp.get, hq.get]
  · obtain ⟨slot, hslot⟩ := Option.isSome_iff_exists.mp hslot
    obtain ⟨k₁, hk₁, hget₁⟩ := hp.slot slot hslot
    obtain ⟨k₂, hk₂, hget₂⟩ := hq.slot slot hslot
    obtain rfl : k₁ = k := Option.some.inj (hk₁.symm.trans hk)
    obtain rfl : k₂ = k₁ := Option.some.inj (hk₂.symm.trans hk)
    rw [hget₁, hget₂]

end Cell

/-! ### Revisions -/

/-- The second pool holds other sites in the places of some, with the same links, and is the first
one elsewhere. -/
structure Revises (p q : Pool) (handles : Array Handle) (sites sites' : List Site) : Prop where
  free : q.free = p.free
  size : q.slots.size = p.slots.size
  get : ∀ k, (∀ i ∈ sites.flatMap Site.numbers, handles[i]? ≠ some k) → q.get? k = p.get? k
  cells : List.Forall₂ (fun a b ↦ Site.Replaces a b ∧
    ∀ h next, p.Cell handles h a next → q.Cell handles h b next) sites sites'

namespace Revises

variable {r : Pool} {sites sites' sites'' : List Site}

theorem numbers_eq (h : p.Revises q handles sites sites') :
    sites'.flatMap Site.numbers = sites.flatMap Site.numbers := by
  rw [List.flatMap_def, List.flatMap_def]
  exact congrArg List.flatten (map_eq_of_forall₂ h.cells fun a b hab ↦ hab.1.numbers.symm).symm

theorem refl (p : Pool) (handles : Array Handle) (sites : List Site) :
    p.Revises p handles sites sites where
  free := rfl
  size := rfl
  get := fun _ _ ↦ rfl
  cells := List.forall₂_same.mpr fun _ _ ↦ ⟨⟨rfl, rfl⟩, fun _ _ ↦ id⟩

theorem trans (h : p.Revises q handles sites sites') (h' : q.Revises r handles sites' sites'') :
    p.Revises r handles sites sites'' where
  free := h'.free.trans h.free
  size := h'.size.trans h.size
  get := fun k hk ↦ by
    rw [h'.get k (by rw [h.numbers_eq]; exact hk), h.get k hk]
  cells := comp_of_forall₂ (fun _ _ _ hab hbc ↦
    ⟨⟨hbc.1.order.trans hab.1.order, hbc.1.numbers.trans hab.1.numbers⟩,
      fun h next hcell ↦ hbc.2 h next (hab.2 h next hcell)⟩) h.cells h'.cells

/-- A site with other numbers stays as it is. -/
theorem cell (h : p.Revises q handles sites sites') (hnodup : handles.toList.Nodup) {site : Site}
    (happart : site.numbers.Disjoint (sites.flatMap Site.numbers)) {a : Handle}
    {next : Option Handle} (hp : p.Cell handles a site next) : q.Cell handles a site next :=
  hp.congr fun _ hi k hk ↦ h.get k fun _ hj hjk ↦
    happart hi (eq_of_getElem?_eq_some hnodup hjk hk ▸ hj)

/-- Changes to sites with different numbers are one change. -/
theorem append {others others' : List Site} (h : p.Revises q handles sites sites')
    (h' : q.Revises r handles others others') (hnodup : handles.toList.Nodup)
    (happart : (sites.flatMap Site.numbers).Disjoint (others.flatMap Site.numbers)) :
    p.Revises r handles (sites ++ others) (sites' ++ others') where
  free := h'.free.trans h.free
  size := h'.size.trans h.size
  get := fun k hk ↦ by
    rw [List.flatMap_append] at hk
    rw [h'.get k fun i hi ↦ hk i (List.mem_append.mpr (.inr hi)),
      h.get k fun i hi ↦ hk i (List.mem_append.mpr (.inl hi))]
  cells := by
    have hmem (a : Site) (ha : a ∈ sites) (i : Nat) (hi : i ∈ a.numbers) :
        i ∈ sites.flatMap Site.numbers := List.mem_flatMap.mpr ⟨a, ha, hi⟩
    have hmem' (a : Site) (ha : a ∈ others) (i : Nat) (hi : i ∈ a.numbers) :
        i ∈ others.flatMap Site.numbers := List.mem_flatMap.mpr ⟨a, ha, hi⟩
    refine List.rel_append ?_ ?_
    · refine ((List.forall₂_and_left _ _).mpr ⟨fun a ha ↦ ha, h.cells⟩).imp ?_
      rintro a b ⟨ha, hab⟩
      refine ⟨hab.1, fun k next hcell ↦ h'.cell hnodup (fun i hi hj ↦ ?_) (hab.2 k next hcell)⟩
      rw [hab.1.numbers] at hi
      exact happart (hmem a ha i hi) hj
    · refine ((List.forall₂_and_left _ _).mpr ⟨fun a ha ↦ ha, h'.cells⟩).imp ?_
      rintro a b ⟨ha, hab⟩
      refine ⟨hab.1, fun k next hcell ↦ hab.2 k next (h.cell hnodup (fun i hi hj ↦ ?_) hcell)⟩
      exact happart hj (hmem' a ha i hi)

/-- Changing some of the sites of a list. Assumes: no two sites have a number in common. -/
theorem frame (before after : List Site) (h : p.Revises q handles sites sites')
    (hnodup : handles.toList.Nodup)
    (hnumbers : ((before ++ sites ++ after).flatMap Site.numbers).Nodup) :
    p.Revises q handles (before ++ sites ++ after) (before ++ sites' ++ after) := by
  rw [List.flatMap_append, List.flatMap_append] at hnumbers
  have hafter := List.disjoint_of_nodup_append hnumbers
  have hbefore := List.disjoint_of_nodup_append hnumbers.of_append_left
  refine ((refl p handles before).append h hnodup hbefore).append (refl q handles after) hnodup ?_
  rw [List.flatMap_append]
  exact hafter

end Revises

/-- The handle of a delay slot is not that of its branch. -/
theorem Cell.ne_slot {h k : Handle} {site : Site} {next : Option Handle}
    (hp : p.Cell handles h site next) (hnodup : handles.toList.Nodup)
    (hk : handles[site.order + 1]? = some k) : k ≠ h := by
  rintro rfl
  exact absurd (eq_of_getElem?_eq_some hnodup hk hp.handle) (Nat.succ_ne_self _)

/-- Changing the link of a site in place. -/
theorem Cell.link {h : Handle} {site : Site} {next : Option Handle}
    (hp : p.Cell handles h site next) (hnodup : handles.toList.Nodup) (next' : Option Handle) :
    (p.modify h fun d ↦ { d with next := next' }).Cell handles h site next' where
  handle := hp.handle
  get := get?_modify_self hp.get _
  slot := fun slot hslot ↦ by
    obtain ⟨k, hk, hget⟩ := hp.slot slot hslot
    exact ⟨k, hk, by rw [get?_modify_of_ne (hp.ne_slot hnodup hk), hget]⟩

/-- Changing the analysis of a site in place. -/
theorem revises_modify_node {h : Handle} {site : Site} (hnodup : handles.toList.Nodup)
    (hh : handles[site.order]? = some h) (g : Analysis → Analysis) :
    p.Revises (p.modify h fun d ↦ { d with toAnalysis := g d.toAnalysis }) handles [site]
      [{ site with node := g site.node }] where
  free := rfl
  size := size_modify p h _
  get := fun k hk ↦ by
    rw [List.flatMap_singleton] at hk
    refine get?_modify_of_ne ?_ _
    rintro rfl
    exact hk _ site.order_mem_numbers hh
  cells := by
    refine .cons ⟨⟨rfl, rfl⟩, fun k next hp ↦ ?_⟩ .nil
    obtain rfl : h = k := Option.some.inj (hh.symm.trans hp.handle)
    refine ⟨hh, get?_modify_self hp.get _, fun slot hslot ↦ ?_⟩
    obtain ⟨k, hk, hget⟩ := hp.slot slot hslot
    exact ⟨k, hk, by rw [get?_modify_of_ne (hp.ne_slot hnodup hk), hget]⟩

/-- Changing the analysis of a delay slot in place. -/
theorem revises_modify_slot {k : Handle} {site : Site} (hnodup : handles.toList.Nodup)
    (hslot : site.slot.isSome = true) (hk : handles[site.order + 1]? = some k)
    (g : Analysis → Analysis) :
    p.Revises (p.modify k fun d ↦ { d with toAnalysis := g d.toAnalysis }) handles [site]
      [{ site with slot := site.slot.map g }] where
  free := rfl
  size := size_modify p k _
  get := fun j hj ↦ by
    rw [List.flatMap_singleton] at hj
    refine get?_modify_of_ne ?_ _
    rintro rfl
    exact hj _ (Site.mem_numbers_iff.mpr (.inr ⟨hslot, rfl⟩)) hk
  cells := by
    refine .cons ⟨⟨rfl, ?_⟩, fun h next hp ↦ ⟨hp.handle, ?_, fun slot hmem ↦ ?_⟩⟩ .nil
    · rw [Site.numbers, Site.numbers, Site.pcs, Site.pcs]
      cases site.slot <;> rfl
    · rw [get?_modify_of_ne (hp.ne_slot hnodup hk).symm, hp.get]
      cases hsite : site.slot <;> rfl
    · obtain ⟨old, hold, rfl⟩ := Option.map_eq_some_iff.mp hmem
      obtain ⟨j, hj, hget⟩ := hp.slot old hold
      obtain rfl : j = k := Option.some.inj (hj.symm.trans hk)
      exact ⟨j, hj, get?_modify_self hget _⟩

/-! ### Linked sites -/

/-- The pool holds some sites, each linked to the next one. -/
def Linked (p : Pool) (handles : Array Handle) : List Site → Prop
  | [] => True
  | site :: rest => (∃ h, p.Cell handles h site (entry handles rest)) ∧ p.Linked handles rest

theorem entry_append {sites : List Site} (hne : sites ≠ []) (more : List Site) :
    entry handles (sites ++ more) = entry handles sites := by
  cases sites with
  | nil => exact absurd rfl hne
  | cons site rest => rfl

namespace Linked

variable {sites sites' : List Site}

theorem of_forall₂ (h : List.Forall₂ (fun a b ↦ Site.Replaces a b ∧
    ∀ h next, p.Cell handles h a next → q.Cell handles h b next) sites sites')
    (hp : p.Linked handles sites) : q.Linked handles sites' := by
  induction h with
  | nil => trivial
  | @cons a b l m hab hrest ih =>
    obtain ⟨⟨h, hcell⟩, htail⟩ := hp
    have hentry : entry handles m = entry handles l := by
      cases hrest with
      | nil => rfl
      | cons hcd _ =>
        rw [entry, entry, List.head?_cons, List.head?_cons, Option.bind_some, Option.bind_some,
          hcd.1.order]
    refine ⟨⟨h, ?_⟩, ih htail⟩
    rw [hentry]
    exact hab.2 h _ hcell

theorem exists_cell (hp : p.Linked handles sites) {site : Site} (hsite : site ∈ sites) :
    ∃ h next, p.Cell handles h site next := by
  induction sites with
  | nil => cases hsite
  | cons other rest ih =>
    obtain ⟨⟨h, hcell⟩, hrest⟩ := hp
    rcases List.mem_cons.mp hsite with rfl | hsite
    · exact ⟨h, _, hcell⟩
    · exact ih hrest hsite

/-- Pools with the same linked sites hold the same under their handles. -/
theorem get?_eq (hp : p.Linked handles sites) (hq : q.Linked handles sites) {i : Nat}
    (hi : i ∈ sites.flatMap Site.numbers) {k : Handle} (hk : handles[i]? = some k) :
    p.get? k = q.get? k := by
  induction sites with
  | nil => cases hi
  | cons site rest ih =>
    obtain ⟨⟨h, hcell⟩, hrest⟩ := hp
    obtain ⟨⟨h', hcell'⟩, hrest'⟩ := hq
    obtain rfl : h = h' := Option.some.inj (hcell.handle.symm.trans hcell'.handle)
    rw [List.flatMap_cons, List.mem_append] at hi
    rcases hi with hi | hi
    · exact hcell.get?_eq hcell' hi hk
    · exact ih hrest hrest' hi

/-- Linking a site to the last one. -/
theorem concat {last site : Site} {t h : Handle} (hnodup : handles.toList.Nodup)
    (hp : p.Linked handles (sites ++ [last])) (ht : handles[last.order]? = some t)
    (hsite : p.Cell handles h site none)
    (hnumbers : ((sites ++ [last] ++ [site]).flatMap Site.numbers).Nodup) :
    (p.modify t fun d ↦ { d with next := some h }).Linked handles (sites ++ [last] ++ [site]) := by
  have hkeep {other : Site} (happart : last.order ∉ other.numbers) {k : Handle}
      {next : Option Handle} (hcell : p.Cell handles k other next) :
      (p.modify t fun d ↦ { d with next := some h }).Cell handles k other next := by
    refine hcell.congr fun i hi j hj ↦ get?_modify_of_ne ?_ _
    rintro rfl
    exact happart (eq_of_getElem?_eq_some hnodup ht hj ▸ hi)
  induction sites with
  | nil =>
    obtain ⟨⟨k, hcell⟩, -⟩ := hp
    obtain rfl : t = k := Option.some.inj (ht.symm.trans hcell.handle)
    have hentry : entry handles [site] = some h := hsite.handle
    have happart : last.order ∉ site.numbers := by
      have hapart := (List.nodup_append.mp (by simpa using hnumbers)).2.2
      exact fun hmem ↦ hapart _ last.order_mem_numbers _ hmem rfl
    refine ⟨⟨t, ?_⟩, ⟨h, hkeep happart hsite⟩, trivial⟩
    change (p.modify t _).Cell handles t last (entry handles [site])
    rw [hentry]
    exact hcell.link hnodup (some h)
  | cons first rest ih =>
    obtain ⟨⟨k, hcell⟩, hrest⟩ := hp
    rw [List.cons_append, List.cons_append, List.flatMap_cons] at hnumbers
    obtain ⟨-, hnumbers, hapart⟩ := List.nodup_append.mp hnumbers
    refine ⟨⟨k, hkeep (fun hmem ↦ ?_) ?_⟩, ih hrest hnumbers⟩
    · refine hapart _ hmem last.order (List.mem_flatMap.mpr ⟨last, ?_, ?_⟩) rfl
      · simp
      · exact last.order_mem_numbers
    · change p.Cell handles k first (entry handles (rest ++ [last] ++ [site]))
      rw [entry_append (List.append_ne_nil_of_right_ne_nil _ (List.cons_ne_nil _ _))]
      exact hcell

/-- A chain of installed sites is linked. -/
theorem of_chain {cursor : Option Handle} {l : List (Handle × Descriptor)}
    (hchain : p.Chain cursor l) (hsites : List.Forall₂ (p.Installed handles) l sites) :
    cursor = entry handles sites ∧ p.Linked handles sites := by
  induction hchain generalizing sites with
  | nil =>
    cases hsites
    exact ⟨rfl, trivial⟩
  | cons _ _ ih =>
    cases hsites with
    | cons hsite hrest =>
      obtain ⟨hnext, hlinked⟩ := ih hrest
      have hcell := Cell.of_installed hsite
      dsimp only at hcell
      rw [hnext] at hcell
      exact ⟨hsite.handle.symm, ⟨_, hcell⟩, hlinked⟩

end Linked

theorem free_installAll (sites : List Site) : (p.installAll handles sites).free = p.free :=
  installAll_induction (motive := fun q ↦ q.free = p.free) sites rfl fun _ _ _ _ hq ↦ hq

/-- A pool with linked sites under all handles is the one where the sites are installed at once. -/
theorem eq_installAll {acquired : Pool} {sites : List Site} (hnodup : handles.toList.Nodup)
    (hindex : ∀ h ∈ handles.toList, h.index < acquired.slots.size)
    (hnumbers : (sites.flatMap Site.numbers).Perm (List.range handles.size))
    (hfree : p.free = acquired.free) (hlinked : p.Linked handles sites)
    (hget : ∀ k ∉ handles.toList, p.get? k = acquired.get? k) :
    p = acquired.installAll handles sites := by
  obtain ⟨l, hchain, hinstalled⟩ := exists_chain_installAll hnodup hindex
    (fun i hi ↦ List.mem_range.mp (hnumbers.mem_iff.mp hi))
    (hnumbers.nodup_iff.mpr List.nodup_range)
  have hlinked' := (Linked.of_chain hchain hinstalled).2
  refine eq_of_get? (by rw [hfree, free_installAll]) fun k ↦ ?_
  by_cases hk : k ∈ handles.toList
  · obtain ⟨i, hi, rfl⟩ := List.mem_iff_getElem.mp hk
    have hmem : i ∈ sites.flatMap Site.numbers :=
      hnumbers.mem_iff.mpr (List.mem_range.mpr (by simpa using hi))
    exact hlinked.get?_eq hlinked' hmem (by simp)
  · rw [hget k hk, get?_installAll sites hk]

end Pool

end MipsBlocks
