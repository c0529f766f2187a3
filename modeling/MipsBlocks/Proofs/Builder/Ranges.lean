import MipsBlocks.Proofs.Block.Link
import MipsBlocks.Proofs.Builder.Explore
import MipsBlocks.Proofs.Builder.Linker

/-!
# Linking ranges in place

The builder links the two ranges of its table, each from the front. An entry that comes has the
handle of a site, and so have those after it (`Rows`); the entries before it are empty already. One
entry is linked as one site of `Outline.linkFrom` is (`exists_linkEntry_eq`), hence the entries of a
range as the sequences of the range (`exists_linkRange_eq`), and the chain of both ranges is that of
the outline. So the pool is the one where the outline is installed (`build_eq`).

The delay slot of a likely branch is looked up in the table only if it lies before the end of the
range; its entry is the next one, so it is not empty exactly if the next site is there
(`slotDescribed_eq`).
-/

set_option autoImplicit false
set_option relaxedAutoImplicit false

namespace MipsBlocks

/-- The word after an instruction of a window has an address, too. -/
theorem Window.Spot.toNat_pc_add_four {w : Window} (spot : w.Spot) :
    (spot.pc + 4#64).toNat = w.min.toNat + 4 * (spot.index + 1) := by
  have hpc := spot.toNat_pc
  have hindex := spot.index.isLt
  have hmax := w.max.toNat_lt
  simp only [Window.words, insnWidth] at hindex
  rw [VirtAddr.toNat_add]
  change (spot.pc.toNat + 4) % _ = _
  omega

namespace Builder

variable {config : Config} {source : Source} {w : Window} {p₀ : Pool} {used : List Handle}
  {handles : Array Handle}

/-! ### Rows of the table -/

/-- The entries that have a handle, among some from the `i`-th one on. -/
def places : Nat → List (Option Site) → List Nat
  | _, [] => []
  | i, none :: cells => places (i + 1) cells
  | i, some _ :: cells => i :: places (i + 1) cells

/-- From the `i`-th entry on, the table has the handles of sites that are described there. -/
structure Rows (config : Config) (source : Source) (w : Window) (handles : Array Handle)
    (t : Table) (i : Nat) (cells : List (Option Site)) : Prop where
  entry : ∀ j cell, cells[j]? = some cell →
    t[i + j]? = some (cell.bind fun site ↦ handles[site.order]?)
  handle : ∀ site, some site ∈ cells → (handles[site.order]?).isSome = true
  spot : ∀ j site, cells[j]? = some (some site) →
    ∃ spot : w.Spot, spot.index.val = i + j ∧ Site.Describes config source spot.pc site

namespace Rows

variable {t : Table} {i : Nat} {cell : Option Site} {cells : List (Option Site)}

theorem head (h : Rows config source w handles t i (cell :: cells)) :
    Builder.entry t i = .ok (cell.bind fun site ↦ handles[site.order]?) :=
  entry_eq (h.entry 0 cell rfl)

theorem tail (h : Rows config source w handles t i (cell :: cells)) :
    Rows config source w handles t (i + 1) cells where
  entry := fun j other hother ↦ by
    rw [Nat.add_right_comm]
    exact h.entry (j + 1) other hother
  handle := fun site hsite ↦ h.handle site (List.mem_cons_of_mem _ hsite)
  spot := fun j site hsite ↦ by
    obtain ⟨spot, hspot, hdescribes⟩ := h.spot (j + 1) site hsite
    exact ⟨spot, hspot.trans (Nat.add_right_comm i j 1), hdescribes⟩

/-- Only the entries of the rows count. -/
theorem congr {t' : Table} (h : Rows config source w handles t i cells)
    (ht : ∀ j, i ≤ j → j < i + cells.length → t'[j]? = t[j]?) :
    Rows config source w handles t' i cells where
  entry := fun j cell hcell ↦ by
    have hlt := (List.getElem?_eq_some_iff.mp hcell).1
    rw [ht (i + j) (Nat.le_add_right i j) (Nat.add_lt_add_left hlt i), h.entry j cell hcell]
  handle := h.handle
  spot := h.spot

theorem occupied_eq (h : Rows config source w handles t i cells) :
    occupied t i cells.length = .ok (places i cells) := by
  induction cells generalizing i with
  | nil => rfl
  | cons cell cells ih =>
    rw [List.length_cons, occupied, h.head, Checked.ok_bind, ih h.tail, Checked.ok_bind]
    cases cell with
    | none => rfl
    | some site =>
      rw [Option.bind_some, h.handle site List.mem_cons_self]
      rfl

/-- The first place is that of the first site. -/
theorem head?_places (h : Rows config source w handles t i cells) :
    (∃ j site, (places i cells).head? = some j ∧ cells.reduceOption.head? = some site ∧
      Builder.entry t j = .ok handles[site.order]?) ∨
    ((places i cells).head? = none ∧ cells.reduceOption.head? = none) := by
  induction cells generalizing i with
  | nil => exact .inr ⟨rfl, rfl⟩
  | cons cell cells ih =>
    cases cell with
    | none => exact ih h.tail
    | some site => exact .inl ⟨i, site, rfl, rfl, h.head⟩

/-- The next site is at the next word exactly if the first entry has it. -/
theorem pc_eq_iff (h : Rows config source w handles t (i + 1) cells) {spot : w.Spot}
    (hspot : spot.index.val = i) :
    (∃ site, cells.reduceOption.head? = some site ∧ spot.pc + 4#64 = site.node.pc) ↔
      ∃ site, cells.head? = some (some site) := by
  have hpc := spot.toNat_pc_add_four
  constructor
  · rintro ⟨site, hsite, heq⟩
    have hmem := List.reduceOption_mem_iff.mp (List.mem_of_mem_head? hsite)
    obtain ⟨j, hj⟩ := List.mem_iff_getElem?.mp hmem
    obtain ⟨spot', hspot', hdescribes⟩ := h.spot j site hj
    have hpc' := spot'.toNat_pc
    rw [heq, hdescribes.pc_node] at hpc
    obtain rfl : j = 0 := by omega
    exact ⟨site, by rw [List.head?_eq_getElem?, hj]⟩
  · rintro ⟨site, hsite⟩
    obtain ⟨rest, rfl⟩ := List.head?_eq_some_iff.mp hsite
    obtain ⟨spot', hspot', hdescribes⟩ := h.spot 0 site rfl
    have hpc' := spot'.toNat_pc
    refine ⟨site, by rw [List.reduceOption_cons_of_some]; rfl, VirtAddr.eq_of_toNat_eq ?_⟩
    rw [hdescribes.pc_node]
    omega

end Rows

/-! ### Flags -/

section Flags

variable {t : Table} {i : Nat} {a : Site} {cells : List (Option Site)} {spot : w.Spot}

/-- The next site is the delay slot of a likely branch exactly if its entry is not empty. -/
theorem slotDescribed_eq (h : Rows config source w handles t (i + 1) cells)
    (hspot : spot.index.val = i) (ha : Site.Describes config source spot.pc a) :
    slotDescribed (.ofWindow config source w) t (i + 1 + cells.length) a.node =
      .ok (.likelyBranch ∈ a.node.flags && cells.reduceOption.head?.any fun b ↦
        a.node.pc + BitVec.ofNat 64 a.node.length = b.node.pc) := by
  have hpc : a.node.pc + BitVec.ofNat 64 a.node.length = spot.pc + 4#64 := by
    rw [ha.pc_node, ha.length_node]
    rfl
  have hany : (cells.reduceOption.head?.any fun b ↦ spot.pc + 4#64 = b.node.pc) = true ↔
      ∃ site, cells.head? = some (some site) := by
    rw [← h.pc_eq_iff hspot, Option.any_eq_true]
    simp
  have hnext := spot.toNat_pc_add_four
  rw [slotDescribed, hpc]
  dsimp only
  by_cases hlikely : .likelyBranch ∈ a.node.flags
  · rw [if_pos hlikely, contains_eq, Checked.ok_bind, decide_eq_true hlikely, Bool.true_and]
    by_cases hinside : w.Contains (spot.pc + 4#64)
    · have hindex : index (.ofWindow config source w) (spot.pc + 4#64) = .ok (i + 1) := by
        have hplace := (⟨spot.pc + 4#64, hinside⟩ : w.Spot).toNat_pc
        dsimp only at hplace
        refine (index_eq (⟨spot.pc + 4#64, hinside⟩ : w.Spot)).trans (congrArg Except.ok ?_)
        omega
      rw [if_pos (decide_eq_true hinside), hindex, Checked.ok_bind]
      cases cells with
      | nil =>
        rw [if_neg (by rw [List.length_nil]; omega)]
        rfl
      | cons cell cells =>
        rw [if_pos (by rw [List.length_cons]; omega), h.head, Checked.ok_bind, Checked.pure_eq]
        congr 1
        rw [Bool.eq_iff_iff, hany]
        cases cell with
        | none => simp
        | some site => simp [h.handle site List.mem_cons_self]
    · -- a site at the next entry would be at the next word, which is outside
      have hnone : ¬ ∃ site, cells.head? = some (some site) := by
        rintro ⟨site, hsite⟩
        obtain ⟨spot', hspot', -⟩ := h.spot 0 site (by rw [← List.head?_eq_getElem?, hsite])
        have hpc' := spot'.toNat_pc
        refine hinside ?_
        rw [← VirtAddr.eq_of_toNat_eq (a := spot'.pc) (b := spot.pc + 4#64) (by omega)]
        exact spot'.inside
      rw [if_neg (by simpa using hinside), Bool.eq_false_iff.mpr (mt hany.mp hnone)]
      rfl
  · rw [if_neg hlikely, decide_eq_false hlikely, Bool.false_and]
    rfl

/-- How each range is left after its last instruction. -/
def exitFor (w : Window) : RangeEnd → Analysis → RangeExit
  | .dispatch => Outline.frontExit w
  | .wrap => fun _ ↦ .returnToStart

theorem exitOf_eq (rangeEnd : RangeEnd) (ha : Site.Describes config source spot.pc a) :
    exitOf (.ofWindow config source w) rangeEnd a.node = .ok (exitFor w rangeEnd a.node) := by
  have hskip : a.node.skipSlots ≤ 1 := by
    rw [ha.map_node (g := Analysis.skipSlots) fun _ _ ↦ rfl]
    exact Analysis.skipSlots_describe_le ..
  cases rangeEnd with
  | wrap => rfl
  | dispatch =>
    rw [exitOf, fallthrough_eq ha.length_node hskip]
    change (if w.start = w.min then _ else _) = Except.ok (Outline.frontExit w a.node)
    rw [Outline.frontExit]
    by_cases hstart : w.start = w.min
    · rw [if_pos hstart, Checked.ok_bind, Checked.pure_eq]
      by_cases hfall : w.max ≤ a.node.fallthrough
      · rw [if_pos (show w.start = w.min ∧ w.max ≤ a.node.fallthrough from ⟨hstart, hfall⟩)]
        exact congrArg Except.ok (if_pos hfall)
      · rw [if_neg fun h : w.start = w.min ∧ w.max ≤ a.node.fallthrough ↦ hfall h.2]
        exact congrArg Except.ok (if_neg hfall)
    · rw [if_neg hstart, if_neg fun h ↦ hstart h.1, Checked.pure_eq]

/-- A site gets in place the flags that it has in the walk over its range. -/
theorem endFlags_eq (rangeEnd : RangeEnd) (h : Rows config source w handles t (i + 1) cells)
    (hspot : spot.index.val = i) (ha : Site.Describes config source spot.pc a) (position : Nat)
    {next : Option Descriptor}
    (hnext : next.map Descriptor.toAnalysis = cells.reduceOption.head?.map Site.node) :
    endFlags (.ofWindow config source w) rangeEnd t (i + 1 + cells.length) position a.node next =
      .ok (Outline.endFlags config.maxSequence (exitFor w rangeEnd) position a
        cells.reduceOption.head?) := by
  rw [endFlags, slotDescribed_eq h hspot ha, Checked.ok_bind]
  cases hhead : cells.reduceOption.head? with
  | none =>
    rw [hhead, Option.map_none, Option.map_eq_none_iff] at hnext
    rw [hnext, Outline.endFlags, Outline.exitFlags]
    simp only [Option.any_none, Bool.and_false, Bool.or_self, if_neg Bool.false_ne_true,
      Flags.union_empty]
    by_cases hredispatch : .redispatch ∈ a.node.flags
    · rw [if_pos hredispatch, if_pos hredispatch]
      rfl
    · rw [if_neg hredispatch, if_neg hredispatch, exitOf_eq rangeEnd ha]
      rfl
  | some b =>
    rw [hhead, Option.map_some, Option.map_eq_some_iff] at hnext
    obtain ⟨d, rfl, hd⟩ := hnext
    rw [Outline.endFlags, Outline.apart]
    dsimp only
    rw [Option.any_some, Option.any_some, hd, Bool.or_comm]
    rfl

end Flags

/-! ### Entries -/

section Entries

variable {trace : Array VirtAddr} {l : Linker} {i : Nat} {a : Site} {cells : List (Option Site)}
  {others done : List Site} {opened : Sequence}

/-- The linker reads the analysis of the next site. -/
theorem exists_next_eq (hrows : Rows config source w (p₀.handlesFor trace) l.table i cells)
    (hwaiting : ∀ site ∈ cells.reduceOption,
      ∃ h, l.pool.Cell (p₀.handlesFor trace) h site none) :
    ∃ next, l.next (places i cells) = .ok next ∧
      next.map Descriptor.toAnalysis = cells.reduceOption.head?.map Site.node := by
  obtain ⟨j, site, hj, hsite, hentry⟩ | ⟨hj, hsite⟩ := hrows.head?_places
  · obtain ⟨rest, hplaces⟩ := List.head?_eq_some_iff.mp hj
    obtain ⟨h, hcell⟩ := hwaiting site (List.mem_of_mem_head? hsite)
    obtain ⟨d, hget, hnode⟩ : ∃ d : Descriptor, l.pool.get? h = some d ∧ d.toAnalysis = site.node :=
      ⟨_, hcell.get, rfl⟩
    refine ⟨some d, ?_, by rw [hsite, Option.map_some, Option.map_some, hnode]⟩
    rw [hplaces, Linker.next, hentry, hcell.handle, Checked.ok_bind]
    dsimp only
    rw [read_eq hget]
    rfl
  · rw [List.head?_eq_none_iff.mp hj, hsite]
    exact ⟨none, rfl, rfl⟩

/-- An entry is linked as its site is in the walk over the range. -/
theorem exists_linkEntry_eq (hp₀ : p₀.Accounts used) (rangeEnd : RangeEnd)
    (hrows : Rows config source w (p₀.handlesFor trace) l.table i (some a :: cells))
    (hl : l.Links p₀ trace (done ++ opened) (a :: (cells.reduceOption ++ others)))
    (hnames : Pool.Names (p₀.handlesFor trace) l.sequence opened) {b : Site}
    (hb : b = a.flag (Outline.endFlags config.maxSequence (exitFor w rangeEnd) opened.length a
      cells.reduceOption.head?)) :
    ∃ l', linkEntry (.ofWindow config source w) rangeEnd (i + 1 + cells.length) l i
        (places (i + 1) cells) = .ok l' ∧
      (∀ j, j ≠ i → l'.table[j]? = l.table[j]?) ∧
      (b.node.endsSequence = true ∧ l'.sequence = [] ∧
          l'.Links p₀ trace (done ++ Sequence.require (opened ++ [b]))
            (cells.reduceOption ++ others) ∨
        b.node.endsSequence = false ∧
          Pool.Names (p₀.handlesFor trace) l'.sequence (opened ++ [b]) ∧
          l'.Links p₀ trace (done ++ (opened ++ [b])) (cells.reduceOption ++ others)) := by
  obtain ⟨h, hh⟩ := Option.isSome_iff_exists.mp (hrows.handle a List.mem_cons_self)
  obtain ⟨spot, hspot, hdescribes⟩ := hrows.spot 0 a rfl
  obtain ⟨next, hnext, hanalysis⟩ := exists_next_eq hrows.tail fun site hsite ↦
    hl.holds.waiting site (List.mem_cons_of_mem _ (List.mem_append.mpr (.inl hsite)))
  obtain ⟨d, hget, hnode⟩ := hl.get? hh
  have hflags := endFlags_eq rangeEnd hrows.tail hspot hdescribes opened.length hanalysis
  have hmodify := hl.modify hp₀ hh (Outline.endFlags config.maxSequence (exitFor w rangeEnd)
    opened.length a cells.reduceOption.head?)
  rw [← hb] at hmodify
  have hhb : (p₀.handlesFor trace)[b.order]? = some h := by rw [hb]; exact hh
  have hi : i < l.table.size := (Array.getElem?_eq_some_iff.mp (hrows.entry 0 _ rfl)).1
  rw [linkEntry, hrows.head, Checked.ok_bind, Option.bind_some, hh]
  dsimp only
  rw [hnext, Checked.ok_bind, read_eq hget, Checked.ok_bind, hnames.length_eq, hnode, hflags,
    Checked.ok_bind, write_eq hget, Checked.ok_bind]
  by_cases hends : b.node.endsSequence = true
  · obtain ⟨q, init, last, hrequire, hlast, hextend, hlinks⟩ :=
      hmodify.exists_extend_eq hp₀ hnames hhb hends
    obtain ⟨l', hmove, hl', hsequence, htable⟩ := hlinks.exists_move_eq hp₀ hlast hi
    rw [List.append_assoc, ← hrequire] at hl'
    rw [hextend, Checked.ok_bind]
    exact ⟨l', hmove, htable, .inl ⟨hends, hsequence, hl'⟩⟩
  · have hnot := Bool.eq_false_iff.mpr hends
    obtain ⟨l', hmove, hl', hsequence, htable⟩ :=
      (hmodify.update l.table (l.sequence ++ [h])).exists_move_eq hp₀ hhb hi
    rw [List.append_assoc] at hl'
    rw [hmodify.extend_eq hhb hnot, Checked.ok_bind]
    refine ⟨l', hmove, htable, .inr ⟨hnot, ?_, hl'⟩⟩
    rw [hsequence]
    exact hnames.concat hhb

/-- The entries of a range are linked as the sites are in the walk over the range. -/
theorem exists_linkEntries_eq (hp₀ : p₀.Accounts used) (rangeEnd : RangeEnd) {stop : Nat}
    (hstop : i + cells.length = stop)
    (hrows : Rows config source w (p₀.handlesFor trace) l.table i cells)
    (hl : l.Links p₀ trace (done ++ opened) (cells.reduceOption ++ others))
    (hnames : Pool.Names (p₀.handlesFor trace) l.sequence opened)
    (hopened : opened ≠ [] → cells.reduceOption ≠ []) :
    ∃ l', linkEntries (.ofWindow config source w) rangeEnd stop l (places i cells) = .ok l' ∧
      (∀ j, j < i ∨ stop ≤ j → l'.table[j]? = l.table[j]?) ∧
      l'.Links p₀ trace (done ++ (Outline.linkFrom config.maxSequence (exitFor w rangeEnd) opened
        cells.reduceOption).flatten) others := by
  -- what is linked and what is open changes with every entry, and the walk that is left with it
  induction cells generalizing i l done opened with
  | nil =>
    have hnil : opened = [] := by
      by_contra hne
      exact hopened hne rfl
    subst hnil
    exact ⟨l, rfl, fun _ _ ↦ rfl, hl⟩
  | cons cell cells ih =>
    rw [List.length_cons] at hstop
    cases cell with
    | none =>
      obtain ⟨l', hlink, htable, hl'⟩ := ih (by omega) hrows.tail hl hnames hopened
      exact ⟨l', hlink, fun j hj ↦ htable j (by omega), hl'⟩
    | some a =>
      rw [List.reduceOption_cons_of_some] at hl ⊢
      obtain ⟨l₁, hentry, htable₁, hnext⟩ := exists_linkEntry_eq hp₀ rangeEnd hrows hl hnames rfl
      have hrows₁ : Rows config source w (p₀.handlesFor trace) l₁.table (i + 1) cells :=
        hrows.tail.congr fun j hj _ ↦ htable₁ j (by omega)
      have hkeep {l' : Linker} (h : ∀ j, j < i + 1 ∨ stop ≤ j → l'.table[j]? = l₁.table[j]?)
          (j : Nat) (hj : j < i ∨ stop ≤ j) : l'.table[j]? = l.table[j]? :=
        (h j (by omega)).trans (htable₁ j (by omega))
      have hplace : i + 1 + cells.length = stop := by omega
      rw [hplace] at hentry
      rw [places, linkEntries, hentry, Checked.ok_bind, Outline.linkFrom]
      obtain ⟨hends, hsequence, hl₁⟩ | ⟨hends, hnames₁, hl₁⟩ := hnext
      · rw [← List.append_nil (done ++ _)] at hl₁
        obtain ⟨l', hlink, htable, hl'⟩ := ih hplace hrows₁ hl₁ (by rw [hsequence]; exact .nil)
          fun h ↦ absurd rfl h
        refine ⟨l', hlink, hkeep htable, ?_⟩
        rw [if_pos hends, List.flatten_cons, ← List.append_assoc]
        exact hl'
      · obtain ⟨-, -, b, hb, -⟩ := Outline.of_not_ends hends
        obtain ⟨l', hlink, htable, hl'⟩ := ih hplace hrows₁ hl₁ hnames₁ fun _ hnil ↦ by
          rw [hnil] at hb
          cases hb
        refine ⟨l', hlink, hkeep htable, ?_⟩
        rw [if_neg (Bool.eq_false_iff.mp hends)]
        exact hl'

/-- A range is linked as its sequences are, and the rest of the table stays as it is. -/
theorem exists_linkRange_eq (valid : config.Valid) (hp₀ : p₀.Accounts used) (rangeEnd : RangeEnd)
    {stop : Nat} (hstop : i + cells.length = stop)
    (hrows : Rows config source w (p₀.handlesFor trace) l.table i cells)
    (hl : l.Links p₀ trace done (cells.reduceOption ++ others)) :
    ∃ l', linkRange (.ofWindow config source w) rangeEnd i stop l = .ok l' ∧
      (∀ j, j < i ∨ stop ≤ j → l'.table[j]? = l.table[j]?) ∧
      l'.Links p₀ trace (done ++ (Outline.range config.maxSequence (exitFor w rangeEnd)
        cells.reduceOption).flatten) others := by
  rw [← List.append_nil done] at hl
  obtain ⟨l', hlink, htable, hl'⟩ := exists_linkEntries_eq (l := { l with sequence := [] }) hp₀
    rangeEnd hstop hrows (hl.update l.table []) .nil fun h ↦ absurd rfl h
  refine ⟨l', ?_, htable, ?_⟩
  · rw [linkRange, ← hstop, Nat.add_sub_cancel_left, hrows.occupied_eq, Checked.ok_bind, hstop]
    exact hlink
  · rw [← Outline.linkFrom_eq_range valid.maxSequence_ne_zero]
    exact hl'

end Entries

/-! ### The whole block -/

/-- The table of a survey has its sites in rows. -/
theorem Tabulates.rows {t : Table} {p : Pool} (ht : Tabulates p₀ t (Survey.run config source w))
    (hs : Stores p₀ p (Survey.run config source w)) {i : Nat} {cells : List (Option Site)}
    (hcells : ∀ j cell, cells[j]? = some cell →
      (Survey.run config source w).table.toList[i + j]? = some cell) :
    Rows config source w (p₀.handlesFor (Survey.run config source w).trace) t i cells where
  entry := fun j cell hcell ↦ by
    have hcell := hcells j cell hcell
    have hlt : i + j < w.words := by
      have hlength := (List.getElem?_eq_some_iff.mp hcell).1
      rwa [Vector.length_toList] at hlength
    have hlookup := Survey.getElem?_table (Survey.run config source w) (w.spotAt ⟨i + j, hlt⟩)
    have hentry := ht.entry (w.spotAt ⟨i + j, hlt⟩)
    rw [Window.index_spotAt] at hlookup hentry
    rw [hentry, ← Option.some.inj (hlookup.symm.trans hcell)]
  handle := fun site hsite ↦ by
    obtain ⟨j, hj⟩ := List.mem_iff_getElem?.mp hsite
    obtain ⟨spot, -, hlookup⟩ := Survey.exists_spot_of_getElem? (hcells j _ hj)
    obtain ⟨h, hcell⟩ := hs.cells spot site hlookup
    rw [hcell.handle]
    rfl
  spot := fun j site hj ↦ by
    obtain ⟨spot, hspot, hlookup⟩ := Survey.exists_spot_of_getElem? (hcells j _ hj)
    exact ⟨spot, hspot, Survey.describes_of_lookup_run hlookup⟩

/-- Before anything is linked, all sites of the survey wait. -/
theorem Explorer.Represents.links {e : Explorer}
    (he : e.Represents p₀ (Survey.run config source w)) :
    ({ pool := e.pool, table := e.table } : Linker).Links p₀ (Survey.run config source w).trace []
      ((Survey.run config source w).front ++ (Survey.run config source w).back) where
  acquired := he.stores.acquired
  holds := ⟨trivial, fun site hsite ↦ by
    obtain ⟨spot, hlookup⟩ := Survey.mem_front_append_back_iff.mp hsite
    exact he.stores.cells spot site hlookup⟩
  numbers := by
    have hperm := (Survey.perm_front_append_back (Survey.run config source w)).flatMap_right
      Site.numbers
    exact (hperm.trans (Survey.numbered_run config source w)).nodup_iff.mpr List.nodup_range
  head := rfl
  tail := rfl

/-- Linking both ranges links the sites of the outline. -/
theorem exists_links_eq (valid : config.Valid) (hp₀ : p₀.Accounts used) {e : Explorer}
    (he : e.Represents p₀ (Survey.run config source w)) :
    ∃ l₁ l₂, linkRange (.ofWindow config source w) .dispatch w.startSpot.index e.table.size
        { pool := e.pool, table := e.table } = .ok l₁ ∧
      linkRange (.ofWindow config source w) .wrap 0 w.startSpot.index l₁ = .ok l₂ ∧
      l₂.Links p₀ (Survey.run config source w).trace (Outline.describe config source w).sites
        [] := by
  have hlength := (Survey.run config source w).table.length_toList
  have hsplit : (Survey.run config source w).split ≤ w.words := w.startSpot.index.isLt.le
  have hfrontStop : (Survey.run config source w).split +
      ((Survey.run config source w).table.toList.drop (Survey.run config source w).split).length =
        e.table.size := by
    rw [List.length_drop, hlength, he.tabulates.size]
    exact Nat.add_sub_cancel' hsplit
  have hbackStop : 0 +
      ((Survey.run config source w).table.toList.take (Survey.run config source w).split).length =
        (Survey.run config source w).split := by
    rw [List.length_take, hlength, Nat.min_eq_left hsplit, Nat.zero_add]
  have hfrontRows := he.tabulates.rows he.stores
    fun j cell (hj : ((Survey.run config source w).table.toList.drop
      (Survey.run config source w).split)[j]? = some cell) ↦ by rwa [List.getElem?_drop] at hj
  have hbackRows := he.tabulates.rows he.stores
    fun j cell (hj : ((Survey.run config source w).table.toList.take
      (Survey.run config source w).split)[j]? = some cell) ↦ by
        obtain ⟨hlt, -⟩ := List.getElem?_eq_some_iff.mp hj
        rw [List.length_take] at hlt
        rwa [Nat.zero_add, ← List.getElem?_take_of_lt (Nat.lt_min.mp hlt).1]
  obtain ⟨l₁, hfront, htable, hl₁⟩ :=
    exists_linkRange_eq valid hp₀ .dispatch hfrontStop hfrontRows he.links
  have hbackRows₁ := hbackRows.congr fun j _ hj ↦ htable j (.inl (hbackStop ▸ hj))
  rw [← List.append_nil (Survey.run config source w).back] at hl₁
  obtain ⟨l₂, hback, -, hl₂⟩ := exists_linkRange_eq valid hp₀ .wrap hbackStop hbackRows₁ hl₁
  refine ⟨l₁, l₂, hfront, hback, ?_⟩
  rw [List.nil_append, ← List.flatten_append] at hl₂
  exact hl₂

/-- The builder leaves the pool in which the outline is installed. -/
theorem build_eq (valid : config.Valid) (hp₀ : p₀.Accounts used)
    (hroom : (Survey.run config source w).trace.size + used.length ≤ slotLimit) :
    ∃ h, (p₀.handlesFor (Survey.run config source w).trace)[0]? = some h ∧
      build (.ofWindow config source w) p₀ = .ok (h,
        (p₀.acquireAll (Survey.run config source w).trace).2.installAll
          (p₀.handlesFor (Survey.run config source w).trace)
          (Outline.describe config source w).sites) := by
  obtain ⟨h, e, hexplore, he, hh⟩ := exists_explore_eq valid hp₀ hroom
  obtain ⟨l₁, l₂, hfront, hback, hl⟩ := exists_links_eq valid hp₀ he
  obtain ⟨first, hfirst, horder⟩ := Outline.head?_sites_describe config source w
  have hhead : l₂.head = some h := by
    rw [hl.head, Pool.entry, hfirst, Option.bind_some, horder, hh]
  have hnumbers := Outline.perm_numbers_describe config source w
  have hpool := Pool.eq_installAll (Pool.nodup_handlesFor hp₀ _)
    (fun k hk ↦ (Pool.accounts_acquireAll hp₀ _).index_lt (List.mem_append.mpr (.inl hk)))
    (by rw [p₀.size_handlesFor]; exact hnumbers) hl.acquired.free hl.holds.linked
    fun k hk ↦ (hl.acquired.get k hk).trans (Pool.get?_acquireAll _ hk).symm
  refine ⟨h, hh, ?_⟩
  rw [build, hexplore, Checked.ok_bind]
  dsimp only
  change (index _ w.startSpot.pc >>= _) = _
  rw [index_eq, Checked.ok_bind, hfront, Checked.ok_bind, hback, Checked.ok_bind, if_pos hhead,
    hpool]
  rfl

end Builder

end MipsBlocks
