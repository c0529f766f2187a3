import MipsBlocks.Proofs.Block.Liveness
import MipsBlocks.Proofs.Builder.Describe

/-!
# Linking one site in place

While the linker walks over a range, the pool holds a chain, linked up to its end, and the sites
that are not linked yet (`Pool.Holds`). The linker knows the first and the last handle of the chain
(`Linker.Links`) and the handles of the sequence that has not ended yet (`Pool.Names`).

A site that comes gets flags in place (`Links.modify`), the required registers of a sequence are
computed in place when it ends (`exists_requireAll_eq`, `Links.exists_extend_eq`), and the site is
put at the end of the chain (`Links.exists_append_eq`). Each of these changes some sites and leaves
the others as they are, because no two sites have a number in common.
-/

set_option autoImplicit false
set_option relaxedAutoImplicit false

namespace MipsBlocks

namespace Pool

variable {p q : Pool} {handles : Array Handle}

/-- The handles are those of the sites, in order. -/
def Names (handles : Array Handle) (hs : List Handle) (sites : List Site) : Prop :=
  List.Forall₂ (fun h site ↦ handles[site.order]? = some h) hs sites

theorem Names.concat {hs : List Handle} {sites : List Site} {h : Handle} {site : Site}
    (hnames : Names handles hs sites) (hh : handles[site.order]? = some h) :
    Names handles (hs ++ [h]) (sites ++ [site]) :=
  List.rel_append hnames (.cons hh .nil)

/-- The handle of the last site of a chain. -/
def exit (handles : Array Handle) (sites : List Site) : Option Handle :=
  sites.getLast?.bind fun site ↦ handles[site.order]?

theorem handle_congr {a b : Option Site} (h : b.map Site.order = a.map Site.order) :
    (b.bind fun site ↦ handles[site.order]?) = a.bind fun site ↦ handles[site.order]? := by
  cases a <;> cases b <;> simp_all

/-- Sites in the same places are found under the same handles. -/
theorem ends_eq (handles : Array Handle) {sites sites' : List Site}
    (h : List.Forall₂ Site.Replaces sites sites') :
    entry handles sites' = entry handles sites ∧ exit handles sites' = exit handles sites := by
  have horder : sites'.map Site.order = sites.map Site.order :=
    (map_eq_of_forall₂ h fun _ _ hab ↦ hab.order.symm).symm
  have hhead := congrArg List.head? horder
  have hlast := congrArg List.getLast? horder
  rw [List.head?_map, List.head?_map] at hhead
  rw [List.getLast?_map, List.getLast?_map] at hlast
  exact ⟨handle_congr hhead, handle_congr hlast⟩

/-- The pool holds a chain and sites that are not linked yet. -/
structure Holds (p : Pool) (handles : Array Handle) (chain waiting : List Site) : Prop where
  linked : p.Linked handles chain
  waiting : ∀ site ∈ waiting, ∃ h, p.Cell handles h site none

theorem Holds.exists_cell {chain waiting : List Site} (hp : p.Holds handles chain waiting)
    {site : Site} (hsite : site ∈ chain ++ waiting) : ∃ h next, p.Cell handles h site next := by
  rcases List.mem_append.mp hsite with hsite | hsite
  · exact hp.linked.exists_cell hsite
  · obtain ⟨h, hcell⟩ := hp.waiting site hsite
    exact ⟨h, none, hcell⟩

/-- Changes in place keep the links. -/
theorem Holds.revises {chain chain' waiting waiting' : List Site}
    (hp : p.Holds handles chain waiting)
    (hq : p.Revises q handles (chain ++ waiting) (chain' ++ waiting'))
    (hlength : chain'.length = chain.length) : q.Holds handles chain' waiting' := by
  have hchain := List.forall₂_take_append _ _ _ hq.cells
  have hwaiting := List.forall₂_drop_append _ _ _ hq.cells
  rw [List.take_left' hlength.symm] at hchain
  rw [List.drop_left' hlength.symm] at hwaiting
  refine ⟨hp.linked.of_forall₂ hchain, fun site hsite ↦ ?_⟩
  obtain ⟨old, hold, hreplaces⟩ := exists_mem_of_forall₂ hwaiting hsite
  obtain ⟨h, hcell⟩ := hp.waiting old hold
  exact ⟨h, hreplaces.2 h none hcell⟩

end Pool

namespace Builder

variable {p : Pool} {handles : Array Handle}

/-! ### Required registers -/

theorem requireOne_eq {h : Handle} {d : Descriptor} (hd : p.get? h = some d) (live : RegSet) :
    requireOne p h live = .ok ((d.toAnalysis.require live).2,
      p.modify h fun d ↦ { d with toAnalysis := (d.toAnalysis.require live).1 }) := by
  rw [requireOne, read_eq hd, Checked.ok_bind, write_eq hd, Checked.ok_bind]
  rfl

/-- The required registers of a site are computed in place, those of its delay slot first. -/
theorem exists_requireSite_eq (hnodup : handles.toList.Nodup) {h : Handle} {site : Site}
    {next : Option Handle} (hcell : p.Cell handles h site next) (live : RegSet) :
    ∃ q, requireSite p h live = .ok ((site.require live).2, q) ∧
      p.Revises q handles [site] [(site.require live).1] := by
  obtain ⟨d, hget, hnode, hdelay⟩ : ∃ d : Descriptor, p.get? h = some d ∧
      d.toAnalysis = site.node ∧
      d.delaySlot = site.slot.bind fun _ ↦ handles[site.order + 1]? := ⟨_, hcell.get, rfl, rfl⟩
  rw [requireSite, read_eq hget, Checked.ok_bind, hdelay]
  cases hslot : site.slot with
  | none =>
    have hrequire : site.require live =
        ({ site with node := (site.node.require live).1 }, (site.node.require live).2) := by
      rw [Site.require, hslot]
    rw [hrequire, ← hnode]
    refine ⟨_, requireOne_eq hget live, ?_⟩
    rw [hnode]
    exact Pool.revises_modify_node hnodup hcell.handle fun a ↦ (a.require live).1
  | some slot =>
    -- backwards in the order of execution: the delay slot first, then what is before it
    obtain ⟨k, hk, hslotGet⟩ := hcell.slot slot hslot
    have hslotSome : site.slot.isSome = true := by rw [hslot]; rfl
    have hfirst := Pool.revises_modify_slot (p := p) hnodup hslotSome hk
      fun a ↦ (a.require live).1
    rw [hslot, Option.map_some] at hfirst
    have hmoved := (List.forall₂_cons.mp hfirst.cells).1.2 h next hcell
    have hsecond := Pool.revises_modify_node
      (p := p.modify k fun d ↦ { d with toAnalysis := (d.toAnalysis.require live).1 })
      hnodup hmoved.handle fun a ↦ (a.require (slot.require live).2).1
    obtain ⟨d', hget', hnode'⟩ : ∃ d' : Descriptor, Pool.get? (p.modify k fun d ↦
        { d with toAnalysis := (d.toAnalysis.require live).1 }) h = some d' ∧
        d'.toAnalysis = site.node := ⟨_, hmoved.get, rfl⟩
    have hrequire : site.require live =
        ({ site with
            node := (site.node.require (slot.require live).2).1
            slot := some (slot.require live).1 },
          (site.node.require (slot.require live).2).2) := by
      rw [Site.require, hslot]
    rw [hrequire]
    refine ⟨_, ?_, hfirst.trans hsecond⟩
    rw [Option.bind_some, hk]
    dsimp only
    rw [requireOne_eq hslotGet, Checked.ok_bind]
    dsimp only
    rw [requireOne_eq hget', hnode']

/-- The required registers of a sequence are computed in place. -/
theorem exists_requireAll_eq (hnodup : handles.toList.Nodup) {hs : List Handle} {sites : Sequence}
    (hnames : Pool.Names handles hs sites)
    (hcells : ∀ site ∈ sites, ∃ h next, p.Cell handles h site next)
    (hnumbers : (sites.flatMap Site.numbers).Nodup) :
    ∃ q, requireAll p hs = .ok ((Sequence.pass sites).2, q) ∧
      p.Revises q handles sites (Sequence.require sites) := by
  induction hnames with
  | nil => exact ⟨p, rfl, .refl p handles []⟩
  | @cons h site hs sites hh _ ih =>
    obtain ⟨q, hall, hq⟩ := ih (fun a ha ↦ hcells a (List.mem_cons_of_mem _ ha))
      (List.flatMap_cons ▸ hnumbers).of_append_right
    obtain ⟨k, next, hcell⟩ := hcells site List.mem_cons_self
    obtain rfl : h = k := Option.some.inj (hh.symm.trans hcell.handle)
    have hframe := hq.frame [site] [] hnodup (by simpa using hnumbers)
    have hsite := (List.forall₂_cons.mp hframe.cells).1.2 h next hcell
    obtain ⟨r, hone, hr⟩ := exists_requireSite_eq hnodup hsite (Sequence.pass sites).2
    refine ⟨r, ?_, ?_⟩
    · rw [requireAll, hall, Checked.ok_bind]
      exact hone
    · have hnumbers' : (([] ++ [site] ++ Sequence.require sites).flatMap Site.numbers).Nodup := by
        rw [List.nil_append, List.singleton_append, List.flatMap_cons, hq.numbers_eq,
          ← List.flatMap_cons]
        exact hnumbers
      rw [List.append_nil, List.append_nil] at hframe
      exact hframe.trans (hr.frame [] (Sequence.require sites) hnodup hnumbers')

/-! ### The linker -/

/-- The linker has a chain behind it and sites before it. -/
structure Linker.Links (p₀ : Pool) (trace : Array VirtAddr) (l : Linker)
    (chain waiting : List Site) : Prop where
  acquired : p₀.Acquired trace l.pool
  holds : l.pool.Holds (p₀.handlesFor trace) chain waiting
  numbers : ((chain ++ waiting).flatMap Site.numbers).Nodup
  head : l.head = Pool.entry (p₀.handlesFor trace) chain
  tail : l.tail = Pool.exit (p₀.handlesFor trace) chain

namespace Linker.Links

variable {p₀ q : Pool} {trace : Array VirtAddr} {used : List Handle} {l : Linker}
  {chain chain' waiting waiting' : List Site} {h : Handle} {site : Site}

theorem revises (hl : l.Links p₀ trace chain waiting)
    (hq : l.pool.Revises q (p₀.handlesFor trace) (chain ++ waiting) (chain' ++ waiting'))
    (hlength : chain'.length = chain.length) (sequence : List Handle) :
    { l with pool := q, sequence }.Links p₀ trace chain' waiting' := by
  have hchain := List.forall₂_take_append _ _ _ hq.cells
  rw [List.take_left' hlength.symm] at hchain
  obtain ⟨hentry, hexit⟩ := Pool.ends_eq (p₀.handlesFor trace)
    (hchain.imp fun _ _ hab ↦ hab.1)
  refine ⟨hl.acquired.revises hq, hl.holds.revises hq hlength, ?_, ?_, ?_⟩
  · rw [hq.numbers_eq]
    exact hl.numbers
  · rw [hentry]
    exact hl.head
  · rw [hexit]
    exact hl.tail

/-- The chain depends neither on the table nor on the sequence. -/
theorem update (hl : l.Links p₀ trace chain waiting) (table : Table) (sequence : List Handle) :
    { l with table, sequence }.Links p₀ trace chain waiting :=
  ⟨hl.acquired, hl.holds, hl.numbers, hl.head, hl.tail⟩

/-- The site that comes is found under its handle. -/
theorem get? (hl : l.Links p₀ trace chain (site :: waiting))
    (hh : (p₀.handlesFor trace)[site.order]? = some h) :
    ∃ d : Descriptor, l.pool.get? h = some d ∧ d.toAnalysis = site.node := by
  obtain ⟨k, hcell⟩ := hl.holds.waiting site List.mem_cons_self
  obtain rfl : h = k := Option.some.inj (hh.symm.trans hcell.handle)
  exact ⟨_, hcell.get, rfl⟩

/-- The site that comes gets flags in place. -/
theorem modify (hp₀ : p₀.Accounts used) (hl : l.Links p₀ trace chain (site :: waiting))
    (hh : (p₀.handlesFor trace)[site.order]? = some h) (flags : Flags) :
    { l with pool := l.pool.modify h fun d ↦
      { d with toAnalysis := d.toAnalysis.flag flags } }.Links p₀ trace chain
        (site.flag flags :: waiting) := by
  have hnodup := Pool.nodup_handlesFor hp₀ trace
  have hnumbers := hl.numbers
  rw [List.append_cons] at hnumbers
  have hframe := (Pool.revises_modify_node (p := l.pool) hnodup hh fun a ↦ a.flag flags).frame
    chain waiting hnodup hnumbers
  rw [← List.append_cons, ← List.append_cons] at hframe
  exact hl.revises hframe rfl l.sequence

/-- A site that does not end its sequence is put there. -/
theorem extend_eq (hl : l.Links p₀ trace chain (site :: waiting))
    (hh : (p₀.handlesFor trace)[site.order]? = some h) (hends : site.node.endsSequence = false) :
    l.extend h = .ok { l with sequence := l.sequence ++ [h] } := by
  obtain ⟨d, hget, hnode⟩ := hl.get? hh
  rw [extend, read_eq hget, Checked.ok_bind, hnode, if_neg (Bool.eq_false_iff.mp hends)]
  rfl

/-- The required registers of the sequence that the next site ends are computed in place. -/
theorem exists_extend_eq (hp₀ : p₀.Accounts used) {done : List Site} {opened : Sequence}
    (hl : l.Links p₀ trace (done ++ opened) (site :: waiting))
    (hnames : Pool.Names (p₀.handlesFor trace) l.sequence opened)
    (hh : (p₀.handlesFor trace)[site.order]? = some h) (hends : site.node.endsSequence = true) :
    ∃ q init last, Sequence.require (opened ++ [site]) = init ++ [last] ∧
      (p₀.handlesFor trace)[last.order]? = some h ∧
      l.extend h = .ok { l with pool := q, sequence := [] } ∧
      { l with pool := q, sequence := [] }.Links p₀ trace (done ++ init) (last :: waiting) := by
  have hnodup := Pool.nodup_handlesFor hp₀ trace
  have hsplit (s : List Site) (a : Site) :
      (done ++ s) ++ a :: waiting = done ++ (s ++ [a]) ++ waiting := by
    simp
  have hnumbers := hl.numbers
  rw [hsplit] at hnumbers
  have hcells : ∀ a ∈ opened ++ [site], ∃ k next, l.pool.Cell (p₀.handlesFor trace) k a next := by
    refine fun a ha ↦ hl.holds.exists_cell ?_
    rw [hsplit]
    exact List.mem_append.mpr (.inl (List.mem_append.mpr (.inr ha)))
  have hpiece : ((opened ++ [site]).flatMap Site.numbers).Nodup := by
    rw [List.flatMap_append, List.flatMap_append] at hnumbers
    exact hnumbers.of_append_left.of_append_right
  obtain ⟨q, hrequire, hq⟩ := exists_requireAll_eq hnodup (hnames.concat hh) hcells hpiece
  have hlength := hq.cells.length_eq
  rw [List.length_append, List.length_singleton] at hlength
  obtain ⟨init, last, hconcat⟩ :
      ∃ init last, Sequence.require (opened ++ [site]) = init ++ [last] := by
    rcases List.eq_nil_or_concat (Sequence.require (opened ++ [site])) with hnil | ⟨init, last, h⟩
    · rw [hnil] at hlength
      exact absurd hlength (Nat.succ_ne_zero _)
    · exact ⟨init, last, h.trans List.concat_eq_append⟩
  rw [hconcat] at hq hlength
  obtain ⟨d, hget, hnode⟩ := hl.get? hh
  have hframe := hq.frame done waiting hnodup hnumbers
  refine ⟨q, init, last, hconcat, ?_, ?_, ?_⟩
  · obtain ⟨a, ha, hreplaces, -⟩ := exists_getLast?_of_forall₂ hq.cells (List.getLast?_concat ..)
    obtain rfl := Option.some.inj ((List.getLast?_concat ..).symm.trans ha)
    rw [hreplaces.order, hh]
  · rw [extend, read_eq hget, Checked.ok_bind, hnode, if_pos hends, hrequire]
    rfl
  · refine hl.revises ?_ ?_ []
    · rw [hsplit, hsplit]
      exact hframe
    · rw [List.length_append, List.length_append]
      simp only [List.length_append, List.length_singleton] at hlength
      omega

/-- The next site is put at the end of the chain. -/
theorem exists_append_eq (hp₀ : p₀.Accounts used)
    (hl : l.Links p₀ trace chain (site :: waiting))
    (hh : (p₀.handlesFor trace)[site.order]? = some h) :
    ∃ l', l.append h = .ok l' ∧ l'.Links p₀ trace (chain ++ [site]) waiting ∧
      l'.sequence = l.sequence ∧ l'.table = l.table := by
  have hnodup := Pool.nodup_handlesFor hp₀ trace
  have hnumbers := hl.numbers
  rw [List.append_cons] at hnumbers
  have hexit : Pool.exit (p₀.handlesFor trace) (chain ++ [site]) = some h := by
    rw [Pool.exit, List.getLast?_concat]
    exact hh
  obtain ⟨k, hcell⟩ := hl.holds.waiting site List.mem_cons_self
  obtain rfl : h = k := Option.some.inj (hh.symm.trans hcell.handle)
  rw [append, hl.tail]
  -- the link of the last site is written, unless there is none
  rcases List.eq_nil_or_concat chain with rfl | ⟨init, last, rfl⟩
  · refine ⟨_, rfl, ⟨hl.acquired, ⟨⟨⟨h, hcell⟩, trivial⟩, fun a ha ↦ ?_⟩, hnumbers, hh.symm,
      hexit.symm⟩, rfl, rfl⟩
    exact hl.holds.waiting a (List.mem_cons_of_mem _ ha)
  · rw [List.concat_eq_append] at hl hnumbers hexit ⊢
    obtain ⟨t, next, hlast⟩ := hl.holds.linked.exists_cell
      (List.mem_append.mpr (.inr (List.mem_singleton.mpr rfl)))
    have htail : Pool.exit (p₀.handlesFor trace) (init ++ [last]) = some t := by
      rw [Pool.exit, List.getLast?_concat]
      exact hlast.handle
    rw [htail]
    dsimp only
    rw [write_eq hlast.get, Checked.ok_bind]
    refine ⟨_, rfl, ⟨hl.acquired.modify ?_ _, ⟨?_, fun a ha ↦ ?_⟩, hnumbers, ?_, hexit.symm⟩,
      rfl, rfl⟩
    · exact Array.mem_toList_iff.mpr (Array.mem_of_getElem? hlast.handle)
    · refine hl.holds.linked.concat hnodup hlast.handle hcell ?_
      rw [List.flatMap_append] at hnumbers
      exact hnumbers.of_append_left
    · obtain ⟨k, ha'⟩ := hl.holds.waiting a (List.mem_cons_of_mem _ ha)
      refine ⟨k, ha'.congr fun i hi j hj ↦ Pool.get?_modify_of_ne ?_ _⟩
      rintro rfl
      obtain rfl := eq_of_getElem?_eq_some hnodup hj hlast.handle
      rw [List.flatMap_append] at hnumbers
      refine (List.disjoint_of_nodup_append hnumbers) (List.mem_flatMap.mpr ⟨last, ?_, ?_⟩)
        (List.mem_flatMap.mpr ⟨a, ha, hi⟩)
      · simp
      · exact last.order_mem_numbers
    · rw [Pool.entry_append (List.append_ne_nil_of_right_ne_nil _ (List.cons_ne_nil _ _))]
      exact hl.head

/-- Moving the next site from its entry to the chain. -/
theorem exists_move_eq (hp₀ : p₀.Accounts used) (hl : l.Links p₀ trace chain (site :: waiting))
    (hh : (p₀.handlesFor trace)[site.order]? = some h) {i : Nat} (hi : i < l.table.size) :
    ∃ l', l.move i h = .ok l' ∧ l'.Links p₀ trace (chain ++ [site]) waiting ∧
      l'.sequence = l.sequence ∧ ∀ j, j ≠ i → l'.table[j]? = l.table[j]? := by
  obtain ⟨l', happend, hl', hsequence, htable⟩ := hl.exists_append_eq hp₀ hh
  have hi' : i < l'.table.size := by rw [htable]; exact hi
  refine ⟨{ l' with table := l'.table.set i none }, ?_, hl'.update _ l'.sequence, hsequence,
    fun j hj ↦ ?_⟩
  · rw [move, happend, Checked.ok_bind, setEntry_eq hi']
    rfl
  · exact (Array.getElem?_set_ne hi' hj.symm).trans (congrArg (·[j]?) htable)

end Linker.Links

end Builder

end MipsBlocks
