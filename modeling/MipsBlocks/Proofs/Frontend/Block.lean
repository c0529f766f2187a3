import MipsBlocks.Proofs.Pool.Chain

/-!
# Described blocks

The views of a block in a frontend: the analyses of its chain (`Frontend.analyses`), the sequences
that the chain is cut into after each descriptor that ends one (`Frontend.sequences`), the handles
that the block owns, those of its chain and of their delay slots (`Frontend.owned`), and the
descriptors under them (`Frontend.descriptors`).

Describing a window adds a block and leaves all others as they are (`Frontend.Adds`,
`adds_describeWindow`). The chain of the new block holds the sites of the outline, one descriptor
for each, and it owns every slot that was acquired for it. A descriptor of the chain is the
description of its address with flags that only the block can give (`exists_gained`). Assumes: the
slots that are in use are accounted for (`Pool.Accounts`).
-/

set_option autoImplicit false
set_option relaxedAutoImplicit false

namespace MipsBlocks

/-- The flags that the descriptors of a chain get from the rest of their block. -/
def Flags.ofBlock : Flags :=
  {.branchTarget, .endSequence, .redispatch, .returnToStart, .intrablockBranch, .validateTlb,
    .canCauseException}

namespace Frontend

/-! ### Views -/

/-- The analyses of the chain of a block. -/
def analyses (f : Frontend) (b : Block) : List Analysis := (f.chain b).map fun e ↦ e.2.toAnalysis

/-- The analyses of a block, cut after each one that ends its sequence. -/
def sequences (f : Frontend) (b : Block) : List (List Analysis) :=
  (f.analyses b).splitBy fun a _ ↦ !a.endsSequence

/-- The handles of a descriptor with its delay slot. -/
def handlesOf (e : Handle × Descriptor) : List Handle := e.2.delaySlot.toList ++ [e.1]

/-- The handles of a block: those of its chain, each after that of its delay slot. -/
def owned (f : Frontend) (b : Block) : List Handle := (f.chain b).flatMap handlesOf

/-- The descriptors of a block, those of its delay slots too. -/
def descriptors (f : Frontend) (b : Block) : List Descriptor := (f.owned b).filterMap f.descriptor?

/-- The links of a block lead to an end. -/
def Complete (f : Frontend) (b : Block) : Prop := f.pool.Chain (some b.head) (f.chain b)

variable {f : Frontend} {b : Block}

theorem chain_eq {l : List (Handle × Descriptor)} (h : f.pool.Chain (some b.head) l)
    (hl : l.length ≤ f.pool.slots.size) : f.chain b = l := by
  rw [chain, Pool.toList_follow h hl]
  rfl

/-- A frontend with a block with the given sites, besides what another one has. -/
structure Adds (f f' : Frontend) (b : Block) (used : List Handle) (sites : List Site) : Prop where
  config : f'.config = f.config
  complete : f'.Complete b
  installed : ∃ handles, List.Forall₂ (f'.pool.Installed handles) (f'.chain b) sites
  accounts : f'.pool.Accounts (f'.owned b ++ used)
  size : f'.pool.slots.size = max f.pool.slots.size ((f'.owned b).length + used.length)
  get : ∀ h ∉ f'.owned b, f'.pool.get? h = f.pool.get? h

/-- The chain of an added block holds the analyses of the sites. -/
theorem Adds.analyses_eq {f f' : Frontend} {b : Block} {used : List Handle} {sites : List Site}
    (h : f.Adds f' b used sites) : f'.analyses b = sites.map Site.node := by
  obtain ⟨handles, hinstalled⟩ := h.installed
  exact map_eq_of_forall₂ hinstalled fun e site he ↦ he.toAnalysis

/-- The descriptors of a site in the pool hold its analyses. -/
theorem descriptors_of_installed {p : Pool} {handles : Array Handle} {e : Handle × Descriptor}
    {site : Site} (h : p.Installed handles e site) :
    ((handlesOf e).filterMap p.get?).map Descriptor.toAnalysis = site.analyses := by
  have hnode := h.get
  have hslot := h.delaySlot
  rw [handlesOf, hslot, Site.analyses, ← h.toAnalysis]
  cases hsite : site.slot with
  | none => simp [hnode]
  | some slot =>
    obtain ⟨k, hk, hget⟩ := h.slot slot hsite
    simp [hnode, hk, hget]

/-- The descriptors of an added block hold the analyses of the sites, each once. -/
theorem Adds.descriptors_eq {f f' : Frontend} {b : Block} {used : List Handle} {sites : List Site}
    (h : f.Adds f' b used sites) :
    (f'.descriptors b).map Descriptor.toAnalysis = sites.flatMap Site.analyses := by
  obtain ⟨handles, hinstalled⟩ := h.installed
  have hsites := map_eq_of_forall₂ hinstalled fun e site he ↦ descriptors_of_installed he
  rw [descriptors, owned, List.filterMap_flatMap, List.map_flatMap, List.flatMap_def,
    List.flatMap_def, ← hsites]
  rfl

/-! ### Installing an outline -/

theorem filterMap_getElem?_range (l : List Handle) :
    (List.range l.length).filterMap (fun i ↦ l[i]?) = l := by
  induction l with
  | nil => rfl
  | cons a l ih =>
    have htail : (List.range l.length).filterMap (fun i ↦ (a :: l)[i + 1]?) = l := by
      simpa using ih
    rw [List.length_cons, List.range_succ_eq_map, List.filterMap_cons, List.filterMap_map]
    exact congrArg (a :: ·) htail

/-- A site in the pool has the handles with its numbers. -/
theorem perm_handlesOf {p : Pool} {handles : Array Handle} {e : Handle × Descriptor} {site : Site}
    (h : p.Installed handles e site) :
    (handlesOf e).Perm (site.numbers.filterMap fun i ↦ handles[i]?) := by
  have hnode := h.handle
  have hslot := h.delaySlot
  rw [handlesOf, hslot, Site.numbers, Site.pcs]
  cases hsite : site.slot with
  | none => simp [hnode]
  | some slot =>
    obtain ⟨k, hk, -⟩ := h.slot slot hsite
    simp [hnode, hk, List.range'_succ]
    exact List.Perm.swap _ _ _

/-- The chain of a block owns as many handles as its sites have numbers. -/
theorem perm_owned {p : Pool} {handles : Array Handle} {l : List (Handle × Descriptor)}
    {sites : List Site} (h : List.Forall₂ (p.Installed handles) l sites)
    (hnumbers : (sites.flatMap Site.numbers).Perm (List.range handles.size)) :
    (l.flatMap handlesOf).Perm handles.toList := by
  have hsites : (l.flatMap handlesOf).Perm
      ((sites.flatMap Site.numbers).filterMap fun i ↦ handles[i]?) := by
    clear hnumbers
    induction h with
    | nil => exact .nil
    | cons hab _ ih =>
      rw [List.flatMap_cons, List.flatMap_cons, List.filterMap_append]
      exact (perm_handlesOf hab).append ih
  refine hsites.trans ((hnumbers.filterMap _).trans (List.Perm.of_eq ?_))
  have hrange := filterMap_getElem?_range handles.toList
  simpa using hrange

theorem length_le_flatMap_numbers (sites : List Site) :
    sites.length ≤ (sites.flatMap Site.numbers).length := by
  induction sites with
  | nil => exact Nat.le_refl 0
  | cons site sites ih =>
    have hpos : 0 < site.numbers.length := by simp [Site.numbers, Site.pcs]
    rw [List.flatMap_cons, List.length_append, List.length_cons]
    omega

/-- Installing sites behind acquired handles adds a block with them. Assumes: the sites have the
numbers of the handles, and the block is known by the handle of the first site. -/
theorem adds_of_installAll {f f' : Frontend} {b : Block} {used : List Handle} {acquired : Pool}
    {handles : Array Handle} {sites : List Site} (hconfig : f'.config = f.config)
    (hpool : f'.pool = acquired.installAll handles sites)
    (hhead : some b.head = Pool.entry handles sites)
    (hnumbers : (sites.flatMap Site.numbers).Perm (List.range handles.size))
    (haccounts : acquired.Accounts (handles.toList ++ used))
    (hsize : acquired.slots.size = max f.pool.slots.size (handles.size + used.length))
    (hget : ∀ h ∉ handles.toList, acquired.get? h = f.pool.get? h) :
    f.Adds f' b used sites ∧ List.Forall₂ (f'.pool.Installed handles) (f'.chain b) sites := by
  have hnodup : handles.toList.Nodup := haccounts.nodup.of_append_left.of_append_left
  have hindex : ∀ h ∈ handles.toList, h.index < acquired.slots.size :=
    fun h hh ↦ haccounts.index_lt (List.mem_append.mpr (.inl hh))
  have hbounds : ∀ i ∈ sites.flatMap Site.numbers, i < handles.size :=
    fun i hi ↦ List.mem_range.mp (hnumbers.mem_iff.mp hi)
  obtain ⟨l, hchain, hinstalled⟩ := Pool.exists_chain_installAll hnodup hindex hbounds
    (hnumbers.nodup_iff.mpr List.nodup_range)
  rw [← hhead, ← hpool] at hchain
  rw [← hpool] at hinstalled
  have hslots : f'.pool.slots.size = acquired.slots.size := by
    rw [hpool, Pool.size_installAll]
  have hlength : l.length ≤ f'.pool.slots.size := by
    have hsites := length_le_flatMap_numbers sites
    have hall := hnumbers.length_eq
    have hused := haccounts.size_slots
    rw [List.length_range] at hall
    rw [List.length_append, Array.length_toList] at hused
    rw [hinstalled.length_eq, hslots]
    omega
  have hl := chain_eq hchain hlength
  rw [← hl] at hinstalled
  have howned : (f'.owned b).Perm handles.toList := perm_owned hinstalled hnumbers
  refine ⟨⟨hconfig, ?_, ⟨handles, hinstalled⟩, ?_, ?_, ?_⟩, hinstalled⟩
  · rw [Complete, hl]
    exact hchain
  · rw [hpool]
    exact Pool.accounts_installAll (haccounts.perm (howned.symm.append_right used)) sites
  · have hcount : (f'.owned b).length = handles.size := howned.length_eq.trans Array.length_toList
    rw [hslots, hsize, hcount]
  · intro h hh
    have hother : h ∉ handles.toList := fun hmem ↦ hh (howned.mem_iff.mpr hmem)
    rw [hpool, Pool.get?_installAll _ hother, hget h hother]

/-- A block is known by the first handle acquired for its trace. -/
theorem head_install (f : Frontend) (o : Outline) :
    (f.pool.acquireAll o.trace).1[0]? = some (f.install o).1.head := by
  have hpos : 0 < (f.pool.acquireAll o.trace).1.size := by
    rw [Pool.size_acquireAll]
    exact o.trace_size_pos
  rw [Array.getElem?_eq_getElem hpos]
  rfl

/-- Installing an outline adds a block with its sites, under the handles acquired for its trace.
Assumes: the sites have the numbers of the trace, and the first one has the first number. -/
theorem adds_install {used : List Handle} (hp : f.pool.Accounts used) {o : Outline}
    (hnumbers : (o.sites.flatMap Site.numbers).Perm (List.range o.trace.size))
    (hfirst : ∃ site, o.sites.head? = some site ∧ site.order = 0) :
    f.Adds (f.install o).2 (f.install o).1 used o.sites ∧
      List.Forall₂ ((f.install o).2.pool.Installed (f.pool.acquireAll o.trace).1)
        ((f.install o).2.chain (f.install o).1) o.sites := by
  have hhead : some (f.install o).1.head =
      Pool.entry (f.pool.acquireAll o.trace).1 o.sites := by
    obtain ⟨site, hsite, horder⟩ := hfirst
    rw [Pool.entry, hsite, Option.bind_some, horder, head_install]
  rw [← Pool.size_acquireAll f.pool] at hnumbers
  exact adds_of_installAll rfl rfl hhead hnumbers (Pool.accounts_acquireAll hp o.trace)
    (Pool.size_acquireAll_eq_max hp o.trace) fun _ hh ↦ Pool.get?_acquireAll o.trace hh

/-- Describing a window adds a block with the sites of its outline. -/
theorem adds_describeWindow {used : List Handle} (hp : f.pool.Accounts used) (source : Source)
    (w : Window) :
    f.Adds (f.describeWindow source w).2 (f.describeWindow source w).1 used
      (Outline.describe f.config source w).sites :=
  (adds_install hp (Outline.perm_numbers_describe f.config source w)
    (Outline.head?_sites_describe f.config source w)).1

/-- The sites of a described window are under the handles acquired for them. -/
theorem installed_describeWindow {used : List Handle} (hp : f.pool.Accounts used) (source : Source)
    (w : Window) :
    List.Forall₂ ((f.describeWindow source w).2.pool.Installed
        (f.pool.acquireAll (Outline.describe f.config source w).trace).1)
      ((f.describeWindow source w).2.chain (f.describeWindow source w).1)
      (Outline.describe f.config source w).sites :=
  (adds_install hp (Outline.perm_numbers_describe f.config source w)
    (Outline.head?_sites_describe f.config source w)).2

/-! ### The chain of a described window -/

section Added

variable {config : Config} {source : Source} {w : Window} {before f : Frontend} {b : Block}
  {used : List Handle}

/-- A descriptor of the chain holds the analysis of a site that the survey found. -/
theorem exists_found_of_mem (h : before.Adds f b used (Outline.describe config source w).sites)
    {a : Analysis} (ha : a ∈ f.analyses b) :
    ∃ spot found site, (Survey.run config source w).lookup spot = some found ∧
      Site.Gains .ofEnds found site ∧ site.node = a := by
  rw [h.analyses_eq] at ha
  obtain ⟨site, hsite, rfl⟩ := List.mem_map.mp ha
  obtain ⟨spot, found, hlookup, hgains⟩ := Outline.exists_lookup_of_mem hsite
  exact ⟨spot, found, site, hlookup, hgains, rfl⟩

/-- The addresses of the chain are those of instructions in the window. -/
theorem contains_pc (h : before.Adds f b used (Outline.describe config source w).sites)
    {a : Analysis} (ha : a ∈ f.analyses b) : w.Contains a.pc := by
  obtain ⟨spot, found, site, hlookup, hgains, rfl⟩ := exists_found_of_mem h ha
  rw [hgains.pc, Survey.pc_of_lookup_run hlookup]
  exact spot.inside

theorem isAligned_pc (h : before.Adds f b used (Outline.describe config source w).sites)
    {a : Analysis} (ha : a ∈ f.analyses b) : a.pc.IsAligned :=
  Window.Spot.isAligned_pc ⟨a.pc, contains_pc h ha⟩

/-- A descriptor of the chain is the description of its address with flags of the block. -/
theorem exists_gained (h : before.Adds f b used (Outline.describe config source w).sites)
    {a : Analysis} (ha : a ∈ f.analyses b) : ∃ gained ⊆ Flags.ofBlock, ∃ required,
      a = { (config.analyze source a.pc).flag gained with required } := by
  obtain ⟨spot, found, site, hlookup, hgains, rfl⟩ := exists_found_of_mem h ha
  have hdescribes := Survey.describes_of_lookup_run hlookup
  rw [hgains.pc, hdescribes.pc_node]
  obtain ⟨flags, hflags, hfound⟩ := hdescribes
  obtain ⟨more, hmore, required, hnode⟩ := hgains.node
  have hsurvey : Flags.ofSurvey ⊆ Flags.ofBlock := by decide
  have hends : Flags.ofEnds ⊆ Flags.ofBlock := by decide
  refine ⟨flags ∪ more, Flags.union_subset (fun g hg ↦ hsurvey g (hflags g hg))
    (fun g hg ↦ hends g (hmore g hg)), required, ?_⟩
  rw [hnode, hfound, ← Analysis.flag_flag]
  rfl

theorem mem_flags_iff (h : before.Adds f b used (Outline.describe config source w).sites)
    {a : Analysis} (ha : a ∈ f.analyses b) {g : Flag} (hg : g ∉ Flags.ofBlock) :
    g ∈ a.flags ↔ g ∈ (config.analyze source a.pc).flags := by
  obtain ⟨gained, hgained, required, heq⟩ := exists_gained h ha
  have hflags : a.flags = (config.analyze source a.pc).flags ∪ gained :=
    congrArg Analysis.flags heq
  rw [hflags, Flags.mem_union]
  exact or_iff_left fun hmem ↦ hg (hgained g hmem)

theorem fallthrough_eq (h : before.Adds f b used (Outline.describe config source w).sites)
    {a : Analysis} (ha : a ∈ f.analyses b) :
    a.fallthrough = (config.analyze source a.pc).fallthrough := by
  obtain ⟨gained, -, required, heq⟩ := exists_gained h ha
  exact (congrArg Analysis.fallthrough heq).trans rfl

/-- A descriptor of the chain is a stand-in exactly where the address cannot be fetched. -/
theorem isFault_iff (h : before.Adds f b used (Outline.describe config source w).sites)
    {a : Analysis} (ha : a ∈ f.analyses b) :
    a.isFault = true ↔ source.translate config.addressSpace a.pc = none := by
  rw [← Analysis.isFault_describe_iff config.flavor, Analysis.isFault, Analysis.isFault,
    decide_eq_true_eq, decide_eq_true_eq, mem_flags_iff h ha (by decide)]
  rfl

/-- A descriptor of the chain is that of a site. -/
theorem exists_site_of_mem (h : before.Adds f b used (Outline.describe config source w).sites)
    {e : Handle × Descriptor} (he : e ∈ f.chain b) :
    ∃ handles, ∃ site ∈ (Outline.describe config source w).sites,
      f.pool.Installed handles e site := by
  obtain ⟨handles, hinstalled⟩ := h.installed
  have hflip : List.Forall₂ (flip (f.pool.Installed handles))
      (Outline.describe config source w).sites (f.chain b) := hinstalled.flip
  obtain ⟨site, hsite, hsame⟩ := exists_mem_of_forall₂ hflip he
  exact ⟨handles, site, hsite, hsame⟩

/-- The delay slot of a descriptor of the chain is in the pool. -/
theorem exists_slot_of_mem (h : before.Adds f b used (Outline.describe config source w).sites)
    {e : Handle × Descriptor} (he : e ∈ f.chain b) {k : Handle} (hk : k ∈ e.2.delaySlot) :
    ∃ site ∈ (Outline.describe config source w).sites, site.node = e.2.toAnalysis ∧
      ∃ slot ∈ site.slot, f.descriptor? k = some { slot with owner := some e.1 } := by
  obtain ⟨handles, site, hsite, hsame⟩ := exists_site_of_mem h he
  rw [hsame.delaySlot] at hk
  obtain ⟨slot, hslot, hhandle⟩ := Option.bind_eq_some_iff.mp hk
  obtain ⟨k', hk', hget⟩ := hsame.slot slot hslot
  obtain rfl : k' = k := Option.some.inj (hk'.symm.trans hhandle)
  exact ⟨site, hsite, hsame.toAnalysis.symm, slot, hslot, hget⟩

/-- Every site that the survey found has its descriptor on the chain. -/
theorem exists_mem_of_found (h : before.Adds f b used (Outline.describe config source w).sites)
    {spot : w.Spot} {found : Site}
    (hlookup : (Survey.run config source w).lookup spot = some found) :
    ∃ site, Site.Gains .ofEnds found site ∧ site.node ∈ f.analyses b := by
  obtain ⟨site, hsite, hgains⟩ := Outline.exists_mem_of_lookup hlookup
  refine ⟨site, hgains, ?_⟩
  rw [h.analyses_eq]
  exact List.mem_map_of_mem hsite

end Added

end Frontend

end MipsBlocks
