import MipsBlocks.Proofs.Block.Cut
import MipsBlocks.Proofs.Survey.Closure

/-!
# Surveys in the order of addresses

The front range of a survey holds the sites from the start on and the back range the others
(`mem_front_iff`, `mem_back_iff`), both in the order of addresses (`pairwise_front`,
`pairwise_back`); the first site of the front range is the start (`head?_front`).

Neighbours of a range touch: where a site does not end its sequence and can be in one sequence with
the next one of its range, that one is where it falls through to (`touching_front`,
`touching_back`). The address was followed, so it has a site, and nothing lies between neighbours.
-/

set_option autoImplicit false
set_option relaxedAutoImplicit false

namespace MipsBlocks

namespace Window

variable {w : Window}

theorem Spot.toNat_pc (s : w.Spot) : s.pc.toNat = w.min.toNat + 4 * s.index := by
  obtain ⟨hmin, _, haligned⟩ := s.inside
  rw [VirtAddr.le_iff] at hmin
  simp only [index, insnWidth] at haligned ⊢
  omega

theorem Spot.isAligned_pc (s : w.Spot) : s.pc.IsAligned := by
  have hmin : w.min.toNat % 4 = 0 := w.min_aligned
  rw [VirtAddr.IsAligned, s.toNat_pc]
  omega

theorem Spot.add_le_max (s : w.Spot) : s.pc.toNat + 4 ≤ w.max.toNat := by
  have hmax := VirtAddr.lt_iff.mp s.inside.2.1
  have hend : w.max.toNat % 4 = 0 := w.max_aligned
  have haligned : s.pc.toNat % 4 = 0 := s.isAligned_pc
  omega

/-- The address after a word of the window does not wrap around; it may be the end. -/
theorem Spot.toNat_add (s : w.Spot) : (s.pc + 4#64).toNat = s.pc.toNat + 4 := by
  have hmax := s.add_le_max
  have hlast := w.max.toNat_lt
  rw [VirtAddr.toNat_add]
  exact Nat.mod_eq_of_lt (Nat.lt_of_le_of_lt hmax hlast)

theorem Spot.pc_lt_iff {s t : w.Spot} : s.pc < t.pc ↔ s.index < t.index := by
  rw [VirtAddr.lt_iff, s.toNat_pc, t.toNat_pc, Fin.lt_def]
  omega

theorem Spot.start_le_iff {s : w.Spot} : w.start ≤ s.pc ↔ w.startSpot.index ≤ s.index := by
  have hstart := w.startSpot.toNat_pc
  have hpc : w.startSpot.pc = w.start := rfl
  rw [hpc] at hstart
  rw [VirtAddr.le_iff, s.toNat_pc, hstart, Fin.le_def]
  omega

/-- The address of a word of the window. -/
def spotAt (w : Window) (i : Fin w.words) : w.Spot where
  pc := .ofNat (w.min.toNat + 4 * i)
  inside := by
    have hi := i.isLt
    have hlt := w.max.toNat_lt
    have hmin := VirtAddr.le_iff.mp w.min_le_start
    have hmax := VirtAddr.lt_iff.mp w.start_lt_max
    simp only [words, insnWidth] at hi
    simp only [Contains, VirtAddr.le_iff, VirtAddr.lt_iff, VirtAddr.toNat_ofNat, insnWidth]
    omega

theorem index_spotAt (i : Fin w.words) : (w.spotAt i).index = i := by
  have hlt := (w.spotAt i).pc.toNat_lt
  have hpc := (w.spotAt i).toNat_pc
  have hi : (w.spotAt i).pc.toNat = (w.min.toNat + 4 * i) % 0x10000000000000000 :=
    VirtAddr.toNat_ofNat _
  have hbound := i.isLt
  have hmax := w.max.toNat_lt
  simp only [words, insnWidth] at hbound
  apply Fin.ext
  omega

/-- Falling through before an address of the window goes at most as far as that address: what is
skipped is at most the word after it, and then that word is not the address. -/
theorem toNat_fallthrough_of_lt {config : Config} {source : Source} {u v : w.Spot}
    (hlt : u.pc < v.pc)
    (hslot : .likelyBranch ∈ (config.analyze source u.pc).flags → u.pc + 4#64 ≠ v.pc) :
    (config.analyze source u.pc).fallthrough.toNat =
        u.pc.toNat + (if .likelyBranch ∈ (config.analyze source u.pc).flags then 8 else 4) ∧
      (config.analyze source u.pc).fallthrough.toNat ≤ v.pc.toNat := by
  have hfall := Config.toNat_fallthrough_analyze config source u.pc
  have hbound := v.pc.toNat_lt
  have hnear : u.pc.toNat + (if .likelyBranch ∈ (config.analyze source u.pc).flags then 8 else 4) ≤
      v.pc.toNat := by
    have hupc := u.toNat_pc
    have hvpc := v.toNat_pc
    rw [VirtAddr.lt_iff] at hlt
    split
    · rename_i hlikely
      have hne : v.pc.toNat ≠ u.pc.toNat + 4 := by
        intro heq
        refine hslot hlikely (VirtAddr.eq_of_toNat_eq ?_)
        rw [VirtAddr.toNat_add, heq]
        show (u.pc.toNat + 4) % _ = _
        omega
      omega
    · omega
  omega

/-- What does not end its sequence before an address of the window falls through inside the window,
at most as far as that address. -/
theorem exists_fallEdge_of_lt {config : Config} {source : Source} {u v : w.Spot}
    (hlt : u.pc < v.pc) (hends : (config.analyze source u.pc).endsSequence = false)
    (hslot : .likelyBranch ∈ (config.analyze source u.pc).flags → u.pc + 4#64 ≠ v.pc) :
    ∃ t : w.Spot, w.FallEdge config source u.pc t.pc ∧ u.pc < t.pc ∧ t.pc ≤ v.pc := by
  obtain ⟨htoNat, hbefore⟩ := toNat_fallthrough_of_lt hlt hslot
  have hafter : u.pc.toNat < (config.analyze source u.pc).fallthrough.toNat := by
    rw [htoNat]
    split <;> omega
  have hinside : w.Contains (config.analyze source u.pc).fallthrough := by
    obtain ⟨humin, -, hualigned⟩ := u.inside
    obtain ⟨-, hvmax, -⟩ := v.inside
    rw [VirtAddr.le_iff] at humin
    rw [VirtAddr.lt_iff] at hvmax
    refine ⟨VirtAddr.le_iff.mpr (by omega), VirtAddr.lt_iff.mpr (by omega), ?_⟩
    simp only [insnWidth] at hualigned ⊢
    rw [htoNat]
    split <;> omega
  exact ⟨⟨_, hinside⟩, ⟨Config.translate_ne_none_of_endsSequence hends, hends, rfl, hinside⟩,
    hafter, hbefore⟩

end Window

namespace Survey

variable {w : Window}

/-! ### Ranges -/

theorem exists_spot_of_getElem? {s : Survey w} {i : Nat} {site : Site}
    (h : s.table.toList[i]? = some (some site)) :
    ∃ spot : w.Spot, spot.index = i ∧ s.lookup spot = some site := by
  have hi : i < w.words := by
    by_contra hle
    rw [List.getElem?_eq_none (by simpa using hle)] at h
    cases h
  refine ⟨w.spotAt ⟨i, hi⟩, by rw [Window.index_spotAt], ?_⟩
  have hentry := getElem?_table s (w.spotAt ⟨i, hi⟩)
  rw [Window.index_spotAt, h] at hentry
  exact (Option.some.inj hentry).symm

theorem mem_front_iff {s : Survey w} {site : Site} :
    site ∈ s.front ↔ ∃ spot, s.lookup spot = some site ∧ w.start ≤ spot.pc := by
  rw [front, List.reduceOption_mem_iff, List.mem_iff_getElem?]
  simp only [List.getElem?_drop, Window.Spot.start_le_iff, Fin.le_def]
  constructor
  · rintro ⟨i, hi⟩
    obtain ⟨spot, hspot, hlookup⟩ := exists_spot_of_getElem? hi
    exact ⟨spot, hlookup, by rw [hspot]; exact Nat.le_add_right _ i⟩
  · rintro ⟨spot, hlookup, hle⟩
    refine ⟨spot.index - s.split, ?_⟩
    have hindex : s.split + (spot.index - s.split) = spot.index.val := Nat.add_sub_cancel' hle
    rw [hindex, getElem?_table, hlookup]

theorem mem_back_iff {s : Survey w} {site : Site} :
    site ∈ s.back ↔ ∃ spot, s.lookup spot = some site ∧ spot.pc < w.start := by
  rw [back, List.reduceOption_mem_iff, List.mem_iff_getElem?]
  constructor
  · rintro ⟨i, hi⟩
    have hsplit : i < s.split := by
      by_contra hle
      rw [List.getElem?_take_eq_none (Nat.le_of_not_lt hle)] at hi
      cases hi
    rw [List.getElem?_take_of_lt hsplit] at hi
    obtain ⟨spot, hspot, hlookup⟩ := exists_spot_of_getElem? hi
    refine ⟨spot, hlookup, (Window.Spot.pc_lt_iff (t := w.startSpot)).mpr (Fin.lt_def.mpr ?_)⟩
    rw [hspot]
    exact hsplit
  · rintro ⟨spot, hlookup, hlt⟩
    have hindex : spot.index.val < s.split :=
      Fin.lt_def.mp ((Window.Spot.pc_lt_iff (t := w.startSpot)).mp hlt)
    exact ⟨spot.index, by rw [List.getElem?_take_of_lt hindex, getElem?_table, hlookup]⟩

theorem mem_front_append_back_iff {s : Survey w} {site : Site} :
    site ∈ s.front ++ s.back ↔ ∃ spot, s.lookup spot = some site := by
  rw [List.mem_append, mem_front_iff, mem_back_iff]
  constructor
  · rintro (⟨spot, h, -⟩ | ⟨spot, h, -⟩) <;> exact ⟨spot, h⟩
  · rintro ⟨spot, h⟩
    by_cases hstart : w.start ≤ spot.pc
    · exact .inl ⟨spot, h, hstart⟩
    · exact .inr ⟨spot, h, Nat.lt_of_not_le hstart⟩

/-- The two ranges hold all sites. -/
theorem perm_front_append_back (s : Survey w) : (s.front ++ s.back).Perm s.sites := by
  rw [front, back, sites, ← List.reduceOption_append]
  have hperm : (s.table.toList.drop s.split ++ s.table.toList.take s.split).Perm
      s.table.toList := by
    conv_rhs => rw [← List.take_append_drop s.split s.table.toList]
    exact List.perm_append_comm
  exact hperm.filterMap id

theorem head?_front {s : Survey w} {site : Site} (h : s.lookup w.startSpot = some site) :
    s.front.head? = some site := by
  have hentry := getElem?_table s w.startSpot
  have hlt : s.split < s.table.toList.length := by simp [split]
  change s.table.toList[s.split]? = _ at hentry
  have hfirst : s.table.toList[s.split] = some site := by
    rw [List.getElem?_eq_getElem hlt, h] at hentry
    exact Option.some.inj hentry
  rw [front, List.drop_eq_getElem_cons hlt, hfirst, List.reduceOption_cons_of_some]
  rfl

/-! ### Neighbours -/

/-- Every site stands at its place. -/
theorem pc_of_lookup_run {config : Config} {source : Source} {spot : w.Spot} {site : Site}
    (h : (run config source w).lookup spot = some site) : site.node.pc = spot.pc :=
  (describes_of_lookup_run h).pc_node

theorem lt_start_of_mem_back {config : Config} {source : Source} {spot : w.Spot} {site : Site}
    (h : (run config source w).lookup spot = some site)
    (hback : site ∈ (run config source w).back) : spot.pc < w.start := by
  obtain ⟨spot', h', hlt⟩ := mem_back_iff.mp hback
  rwa [← pc_of_lookup_run h', pc_of_lookup_run h] at hlt

theorem notMem_back_of_mem_front {config : Config} {source : Source} {site : Site}
    (h : site ∈ (run config source w).front) : site ∉ (run config source w).back := by
  intro hback
  obtain ⟨spot, hlookup, hfront⟩ := mem_front_iff.mp h
  exact absurd (lt_start_of_mem_back hlookup hback) (Nat.not_lt_of_le hfront)

theorem pairwise_sites_run (config : Config) (source : Source) (w : Window) :
    (run config source w).table.toList.Pairwise fun a b ↦
      ∀ x, id a = some x → ∀ y, id b = some y → x.node.pc < y.node.pc := by
  rw [List.pairwise_iff_getElem]
  intro i j hi hj hij x hx y hy
  obtain ⟨s, hs, hsx⟩ := exists_spot_of_getElem? (List.getElem?_eq_some_iff.mpr ⟨hi, hx⟩)
  obtain ⟨t, ht, hty⟩ := exists_spot_of_getElem? (List.getElem?_eq_some_iff.mpr ⟨hj, hy⟩)
  rw [pc_of_lookup_run hsx, pc_of_lookup_run hty, Window.Spot.pc_lt_iff, Fin.lt_def]
  omega

theorem pairwise_front (config : Config) (source : Source) (w : Window) :
    (run config source w).front.Pairwise fun a b ↦ a.node.pc < b.node.pc :=
  List.pairwise_filterMap.mpr ((pairwise_sites_run config source w).drop)

theorem pairwise_back (config : Config) (source : Source) (w : Window) :
    (run config source w).back.Pairwise fun a b ↦ a.node.pc < b.node.pc :=
  List.pairwise_filterMap.mpr ((pairwise_sites_run config source w).take)

/-- Where the start cannot be fetched, a survey finds the start alone. -/
theorem exists_front_eq_singleton {config : Config} {source : Source}
    (hnone : source.translate config.addressSpace w.start = none) :
    ∃ first, (run config source w).lookup w.startSpot = some first ∧
      (run config source w).front = [first] ∧ (run config source w).back = [] := by
  have hall (spot : w.Spot) (found : Site)
      (hlookup : (run config source w).lookup spot = some found) : spot.pc = w.start := by
    rcases (reaches_of_lookup_run hlookup).cases_head with heq | ⟨next, hedge | hedge, -⟩
    · exact heq.symm
    · exact absurd hnone hedge.fetched
    · exact absurd hnone hedge.fetched
  obtain ⟨first, hlookup, -⟩ := startFirst_run config source w
  refine ⟨first, hlookup, ?_, ?_⟩
  · have hpc : ∀ a ∈ (run config source w).front, a.node.pc = w.start := by
      intro a ha
      obtain ⟨spot, hspot, -⟩ := mem_front_iff.mp ha
      rw [pc_of_lookup_run hspot, hall spot a hspot]
    have hhead := head?_front hlookup
    have hsorted := pairwise_front config source w
    match hsites : (run config source w).front with
    | [] =>
      rw [hsites] at hhead
      cases hhead
    | [a] =>
      rw [hsites] at hhead
      rw [← Option.some.inj hhead]
    | a :: c :: rest =>
      rw [hsites] at hpc hsorted
      have hlt := List.rel_of_pairwise_cons hsorted List.mem_cons_self
      rw [hpc a (by simp), hpc c (by simp)] at hlt
      exact absurd hlt (Nat.lt_irrefl _)
  · refine List.eq_nil_iff_forall_not_mem.mpr fun a ha ↦ ?_
    obtain ⟨spot, hspot, hlt⟩ := mem_back_iff.mp ha
    rw [hall spot a hspot] at hlt
    exact Nat.lt_irrefl _ hlt

/-- Nothing lies between the neighbours of a sorted list. -/
theorem isChain_neighbours {l : List Site} (hl : l.Pairwise fun a b ↦ a.node.pc < b.node.pc) :
    l.IsChain fun a b ↦ a.node.pc < b.node.pc ∧
      ∀ c ∈ l, c.node.pc ≤ a.node.pc ∨ b.node.pc ≤ c.node.pc := by
  rw [List.pairwise_iff_getElem] at hl
  rw [List.isChain_iff_getElem]
  intro i hi
  refine ⟨hl i (i + 1) _ hi (Nat.lt_succ_self i), fun c hc ↦ ?_⟩
  obtain ⟨j, hj, rfl⟩ := List.mem_iff_getElem.mp hc
  rcases Nat.lt_trichotomy j i with hlt | rfl | hgt
  · exact .inl (Nat.le_of_lt (hl j i hj _ hlt))
  · exact .inl (Nat.le_refl _)
  · rcases Nat.eq_or_lt_of_le hgt with rfl | hgt
    · exact .inr (Nat.le_refl _)
    · exact .inr (Nat.le_of_lt (hl (i + 1) j hi hj hgt))

/-- A site that can be in one sequence with a later one falls through to an address of the window,
at most as far as the later one. -/
theorem exists_fallEdge_of_joined {config : Config} {source : Source} {u v : w.Spot} {a b : Site}
    (hu : (run config source w).lookup u = some a) (hv : (run config source w).lookup v = some b)
    (hlt : u.pc < v.pc) (hjoined : Sequence.joined a b = true) :
    ∃ t : w.Spot, w.FallEdge config source u.pc t.pc ∧ t.pc = a.node.fallthrough ∧
      u.pc < t.pc ∧ t.pc ≤ v.pc := by
  have ha := describes_of_lookup_run hu
  obtain ⟨hends, -, hslot⟩ := Sequence.joined_iff.mp hjoined
  rw [ha.endsSequence_node] at hends
  rw [ha.mem_flags_iff (by decide), ha.pc_node, pc_of_lookup_run hv, ha.length_node] at hslot
  obtain ⟨t, hedge, hafter, hbefore⟩ := Window.exists_fallEdge_of_lt hlt hends hslot
  exact ⟨t, hedge, by rw [ha.fallthrough_node, hedge.fallthrough], hafter, hbefore⟩

/-- The sites of a survey at consecutive places of a range. Assumes: the list holds, in the order of
addresses, the sites at the spots that have a property which all spots between two of them have. -/
theorem isChain_touching {config : Config} {source : Source} {l : List Site} {P : w.Spot → Prop}
    (hmem : ∀ site, site ∈ l ↔ ∃ spot, (run config source w).lookup spot = some site ∧ P spot)
    (hconvex : ∀ u v t, P u → P v → u.pc < t.pc → t.pc ≤ v.pc → P t)
    (hl : l.Pairwise fun a b ↦ a.node.pc < b.node.pc) :
    l.IsChain fun a b ↦ Sequence.joined a b = true → b.node.pc = a.node.fallthrough := by
  refine (isChain_neighbours hl).imp_of_mem_imp ?_
  rintro a b ha hb ⟨hlt, hbetween⟩ hjoined
  obtain ⟨u, hu, hPu⟩ := (hmem a).mp ha
  obtain ⟨v, hv, hPv⟩ := (hmem b).mp hb
  rw [pc_of_lookup_run hu, pc_of_lookup_run hv] at hlt
  obtain ⟨t, hedge, ht, hafter, hbefore⟩ := exists_fallEdge_of_joined hu hv hlt hjoined
  obtain ⟨next, hnext⟩ := found_of_fallEdge_run hu hedge
  have hmemNext := (hmem next).mpr ⟨t, hnext, hconvex u v t hPu hPv hafter hbefore⟩
  rcases hbetween next hmemNext with hle | hge
  · rw [pc_of_lookup_run hnext, pc_of_lookup_run hu] at hle
    exact absurd hle (Nat.not_le_of_lt hafter)
  · rw [pc_of_lookup_run hnext, pc_of_lookup_run hv] at hge
    rw [pc_of_lookup_run hv, ← ht]
    exact VirtAddr.eq_of_toNat_eq (Nat.le_antisymm hge hbefore)

theorem touching_front (config : Config) (source : Source) (w : Window) :
    (run config source w).front.IsChain fun a b ↦
      Sequence.joined a b = true → b.node.pc = a.node.fallthrough :=
  isChain_touching (P := fun spot ↦ w.start ≤ spot.pc) (fun _ ↦ mem_front_iff)
    (fun _ _ _ hu _ hut _ ↦ Nat.le_trans hu (Nat.le_of_lt hut)) (pairwise_front config source w)

theorem touching_back (config : Config) (source : Source) (w : Window) :
    (run config source w).back.IsChain fun a b ↦
      Sequence.joined a b = true → b.node.pc = a.node.fallthrough :=
  isChain_touching (P := fun spot ↦ spot.pc < w.start) (fun _ ↦ mem_back_iff)
    (fun _ _ _ _ hv _ htv ↦ Nat.lt_of_le_of_lt htv hv) (pairwise_back config source w)

end Survey

end MipsBlocks
