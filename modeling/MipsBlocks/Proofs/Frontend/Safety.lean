import MipsBlocks.Proofs.Builder.Ranges
import MipsBlocks.Proofs.Frontend.Order

/-!
# Safety

No check of the builder that works in place fails. In every state of a session in which there is
room for the new descriptors, describing three addresses gives in place what the frontend gives
(`Builder.describeBlock_eq`); it fails exactly for addresses that make no window. Following the
links of a block that is held, and releasing it, come to an end without a breach, too
(`Frontend.Safe`, `Session.safe_run`). The main statement is `guarded_of_hasRoom`.

Room is what the pool needs after the description (`Frontend.HasRoom`). A block needs at most two
descriptors for each word of its window (`hasRoom_of_live_le`).
-/

set_option autoImplicit false
set_option relaxedAutoImplicit false

namespace MipsBlocks

/-! ### Room -/

namespace Survey

/-- A survey describes a word and its delay slot at most. -/
theorem size_trace_run_le (config : Config) (source : Source) (w : Window) :
    (run config source w).trace.size ≤ 2 * w.words := by
  have hnumbers := (numbered_run config source w).length_eq
  have hsites := (run config source w).length_sites_le
  have hall : ∀ sites : List Site, (sites.flatMap Site.numbers).length ≤ 2 * sites.length := by
    intro sites
    induction sites with
    | nil => exact Nat.le_refl 0
    | cons site sites ih =>
      have hsite : site.numbers.length ≤ 2 := by
        rw [Site.numbers, List.length_range', Site.pcs]
        cases site.slot <;> simp
      rw [List.flatMap_cons, List.length_append, List.length_cons]
      omega
  have hle := hall (run config source w).sites
  rw [List.length_range] at hnumbers
  omega

end Survey

namespace Frontend

/-- The pool has no more slots than words can tell apart after a description. -/
def HasRoom (f : Frontend) (source : Source) (start min max : VirtAddr) : Prop :=
  ∀ b f', f.describeBlock source start min max = .ok (b, f') →
    f'.poolStats.allocated ≤ Builder.slotLimit

variable {f : Frontend} {b : Block} {used : List Handle} {source : Source}
  {start min max : VirtAddr}

/-- After a description the pool has room for what is in use together. -/
theorem allocated_describeWindow (hp : f.pool.Accounts used) (source : Source) (w : Window) :
    (f.describeWindow source w).2.poolStats.allocated =
      f.poolStats.allocated ⊔ ((Survey.run f.config source w).trace.size + used.length) := by
  have hsize := Pool.size_acquireAll_eq_max hp (Survey.run f.config source w).trace
  rw [Pool.size_acquireAll] at hsize
  exact (Pool.size_installAll _ _ _).trans hsize

/-- There is room where there are two more slots for each word of the window. -/
theorem hasRoom_of_live_le (hp : f.pool.Accounts used)
    (hallocated : f.poolStats.allocated ≤ Builder.slotLimit)
    (hlive : f.poolStats.live + 2 * ((max.toNat - min.toNat) / insnWidth) ≤ Builder.slotLimit) :
    f.HasRoom source start min max := by
  intro b f' h
  obtain ⟨w, hcheck, hw⟩ := Session.describeBlock_eq_ok_iff.mp h
  obtain ⟨rfl, rfl, rfl⟩ := Window.check_eq_ok hcheck
  have hsize := Survey.size_trace_run_le f.config source w
  have hused : f.poolStats.live = used.length := hp.live_stats
  have hresult := allocated_describeWindow hp source w
  rw [hw] at hresult
  rw [hresult]
  rw [Window.words] at hsize
  refine Nat.max_le.mpr ⟨hallocated, ?_⟩
  omega

end Frontend

/-! ### Describing -/

namespace Builder

variable {f : Frontend} {used : List Handle} {source : Source} {start min max : VirtAddr}

/-- A description in place is that of the frontend. -/
theorem describeBlock_eq (hp : f.pool.Accounts used) (hroom : f.HasRoom source start min max) :
    describeBlock f source start min max = .ok (f.describeBlock source start min max) := by
  rw [describeBlock, defect?_eq, Checked.ok_bind, Frontend.describeBlock]
  cases hcheck : Window.check start min max with
  | error defect => rfl
  | ok w =>
    obtain ⟨rfl, rfl, rfl⟩ := Window.check_eq_ok hcheck
    have hlimit : (f.describeWindow source w).2.poolStats.allocated ≤ slotLimit :=
      hroom _ _ (Session.describeBlock_eq_ok_iff.mpr ⟨w, hcheck, rfl⟩)
    rw [Frontend.allocated_describeWindow hp] at hlimit
    obtain ⟨h, hh, hbuild⟩ := build_eq f.valid hp (Nat.max_le.mp hlimit).2
    have hhead : (f.pool.handlesFor (Survey.run f.config source w).trace)[0]? =
        some (f.describeWindow source w).1.head :=
      Frontend.head_install f (Outline.describe f.config source w)
    obtain rfl := Option.some.inj (hh.symm.trans hhead)
    dsimp only
    change (build (.ofWindow f.config source w) f.pool >>= _) = _
    rw [hbuild]
    rfl

/-! ### Following and releasing -/

variable {p q : Pool} {cursor : Option Handle} {l : List (Handle × Descriptor)}

theorem follow_eq (h : p.Chain cursor l) {fuel : Nat} (hfuel : l.length ≤ fuel) :
    follow p fuel cursor = .ok l := by
  induction h generalizing fuel with
  | nil => cases fuel <;> rfl
  | cons head _ ih =>
    rw [List.length_cons] at hfuel
    obtain ⟨fuel, rfl⟩ : ∃ n, fuel = n + 1 := ⟨fuel - 1, by omega⟩
    rw [follow, read_eq head, Checked.ok_bind, ih (by omega)]
    rfl

theorem release_eq {h : Handle} {d : Descriptor} (hd : p.get? h = some d) :
    release p h = .ok (p.release h) :=
  if_pos (Pool.index_lt_of_get? hd)

/-- Releasing changes no slot. -/
theorem slots_releaseSite (p : Pool) (h : Handle) (d : Descriptor) :
    (p.releaseSite h d).slots = p.slots := by
  rw [Pool.releaseSite]
  cases d.delaySlot <;> rfl

/-- The links are read from slots that releasing leaves as they are. -/
theorem releaseFrom_eq (h : p.Chain cursor l) {fuel : Nat} (hfuel : l.length ≤ fuel)
    (hslots : ∀ e ∈ l, ∀ k ∈ e.2.delaySlot,
      ∃ d : Descriptor, p.get? k = some d ∧ d.delaySlot = none) (hq : q.slots = p.slots) :
    releaseFrom fuel q cursor = .ok (l.foldl (fun p e ↦ p.releaseSite e.1 e.2) q) := by
  induction h generalizing fuel q with
  | nil => cases fuel <;> rfl
  | @cons h d l head _ ih =>
    rw [List.length_cons] at hfuel
    obtain ⟨fuel, rfl⟩ : ∃ n, fuel = n + 1 := ⟨fuel - 1, by omega⟩
    have hget (k : Handle) : q.get? k = p.get? k := by rw [Pool.get?, hq, Pool.get?]
    have hhead := (hget h).trans head
    have hnext : releaseFrom fuel (q.releaseSite h d) d.next =
        .ok (l.foldl (fun p e ↦ p.releaseSite e.1 e.2) (q.releaseSite h d)) :=
      ih (by omega) (fun e he ↦ hslots e (List.mem_cons_of_mem _ he))
        ((slots_releaseSite q h d).trans hq)
    rw [releaseFrom, read_eq hhead, Checked.ok_bind, List.foldl_cons]
    have hlast (p' : Pool) (hp' : p'.slots = p.slots) : release p' h = .ok (p'.release h) :=
      release_eq (d := d) (by rw [Pool.get?, hp', ← Pool.get?, head])
    rw [Pool.releaseSite] at hnext ⊢
    cases hslot : d.delaySlot with
    | none =>
      rw [hslot] at hnext
      rw [releaseSlot, Checked.pure_eq, Checked.ok_bind, hlast q hq]
      exact hnext
    | some k =>
      obtain ⟨d', hd', hnone⟩ := hslots (h, d) List.mem_cons_self k hslot
      rw [hslot] at hnext
      rw [releaseSlot, read_eq ((hget k).trans hd'), Checked.ok_bind, hnone,
        if_pos Option.isNone_none, release_eq ((hget k).trans hd'), Checked.ok_bind,
        hlast (q.release k) hq]
      exact hnext

end Builder

/-! ### Blocks -/

namespace Frontend

variable {f : Frontend} {b : Block} {used : List Handle} {source : Source}
  {start min max : VirtAddr}

/-- A block can be followed and released without a breach. -/
structure Safe (f : Frontend) (b : Block) : Prop where
  /-- No delay slot has a delay slot itself. -/
  slots : ∀ e ∈ f.chain b, ∀ k ∈ e.2.delaySlot,
    ∃ d, f.descriptor? k = some d ∧ d.delaySlot = none
  chain : Builder.chain f b = .ok (f.chain b)
  release : Builder.releaseBlock f b = .ok (f.releaseBlock b)

theorem Complete.safe (h : f.Complete b)
    (hslots : ∀ e ∈ f.chain b, ∀ k ∈ e.2.delaySlot,
      ∃ d, f.descriptor? k = some d ∧ d.delaySlot = none) : f.Safe b := by
  have hlength := f.length_chain_le b
  refine ⟨hslots, Builder.follow_eq h hlength, ?_⟩
  rw [Builder.releaseBlock, Builder.releaseFrom_eq h hlength hslots rfl]
  rfl

/-- A new block is safe. -/
theorem Adds.safe {config : Config} {w : Window} {f' : Frontend}
    (h : f.Adds f' b used (Outline.describe config source w).sites) : f'.Safe b := by
  refine h.complete.safe fun e he k hk ↦ ?_
  obtain ⟨site, -, -, slot, -, hget⟩ := exists_slot_of_mem h he hk
  exact ⟨_, hget, rfl⟩

/-- A block that is kept stays safe. -/
theorem Safe.keeps {f' : Frontend} (h : f.Safe b) (hf' : f'.Complete b) (hkeeps : f.Keeps f' b) :
    f'.Safe b := by
  refine hf'.safe fun e he k hk ↦ ?_
  rw [hkeeps.chain] at he
  obtain ⟨d, hd, hnone⟩ := h.slots e he k hk
  have hslot : k ∈ handlesOf e := List.mem_append.mpr (.inl (Option.mem_toList.mpr hk))
  have hmem : k ∈ f.owned b := List.mem_flatMap.mpr ⟨e, he, hslot⟩
  exact ⟨d, (hkeeps.descriptor k hmem).trans hd, hnone⟩

end Frontend

namespace Session

variable {config : Config} {valid : config.Valid} {ops : List Op}

/-- A block that is held after a call was held before or is new. -/
theorem held_step {s : Session} (hs : s.Sound) (op : Op) {b : Block} (hb : b ∈ (s.step op).held) :
    b ∈ s.held ∨ ∃ source w, s.frontend.Adds (s.step op).frontend b s.used
      (Outline.describe s.frontend.config source w).sites := by
  have hdescribe (source : Source) (start min max : VirtAddr)
      (hb : b ∈ (s.hold (s.frontend.describeBlock source start min max)).held) :
      b ∈ s.held ∨ ∃ source' w,
        s.frontend.Adds (s.hold (s.frontend.describeBlock source start min max)).frontend b s.used
          (Outline.describe s.frontend.config source' w).sites := by
    rcases describeBlock_cases s.frontend source start min max with ⟨e, he⟩ | ⟨w, -, -, -, hw⟩
    · rw [he] at hb
      exact .inl hb
    · rw [hw] at hb ⊢
      rcases List.mem_cons.mp hb with rfl | hb
      · exact .inr ⟨source, w, Frontend.adds_describeWindow hs.accounts source w⟩
      · exact .inl hb
  cases op with
  | describeBlock source start min max => exact hdescribe source start min max hb
  | describeCode source start => exact hdescribe source start _ _ hb
  | release place =>
    left
    rw [step] at hb
    split at hb
    · exact List.mem_of_mem_eraseIdx hb
    · exact hb

/-- In every state of a session the held blocks are safe. -/
theorem safe_run (config : Config) (valid : config.Valid) (ops : List Op) :
    ∀ b ∈ (run config valid ops).held, (run config valid ops).frontend.Safe b := by
  induction ops using List.reverseRecOn with
  | nil => exact fun b hb ↦ by cases hb
  | append_singleton ops op ih =>
    have hstep := carries_step (sound_run config valid ops) op
    rw [run_append]
    intro b hb
    rcases held_step (sound_run config valid ops) op hb with hold | ⟨source, w, hadds⟩
    · exact (ih b hold).keeps (hstep.sound.complete b hb) (hstep.keeps b hold)
    · exact hadds.safe

end Session

/-! ### Guarded descriptions -/

/-- Three addresses that make a window. -/
def IsWindow (start min max : VirtAddr) : Prop :=
  min < max ∧ (min ≤ start ∧ start < max) ∧ start.IsAligned ∧ min.IsAligned ∧ max.IsAligned ∧
    max.toNat - min.toNat ≤ maxWindowBytes

namespace Frontend

/-- A description of three addresses comes to an end without a breach. It gives a block exactly if
they make a window, and what is found wrong with them otherwise. -/
structure Guarded (f : Frontend) (source : Source) (start min max : VirtAddr) : Prop where
  /-- The builder that works in place has a result, and it is that of the frontend. -/
  describes :
    Builder.describeBlock f source start min max = .ok (f.describeBlock source start min max)
  rejects : (∃ name value message, f.describeBlock source start min max =
    .error (.core (.invalidParameter name value message))) ↔ ¬ IsWindow start min max
  accepts : (∃ b f', f.describeBlock source start min max = .ok (b, f')) ↔ IsWindow start min max
  /-- A block is known by the descriptor of its start. -/
  head : ∀ b f', f.describeBlock source start min max = .ok (b, f') →
    ∃ d, f'.descriptor? b.head = some d ∧ d.pc = start
  safe : ∀ b f', f.describeBlock source start min max = .ok (b, f') → f'.Safe b

theorem exists_describeBlock_iff (f : Frontend) (source : Source) (start min max : VirtAddr) :
    (∃ b f', f.describeBlock source start min max = .ok (b, f')) ↔ IsWindow start min max := by
  rw [IsWindow, ← Window.check_isOk_iff, describeBlock]
  cases Window.check start min max with
  | ok w => exact iff_of_true ⟨_, _, rfl⟩ rfl
  | error defect => exact iff_of_false (by rintro ⟨b, f', ⟨⟩⟩) Bool.false_ne_true

/-- The only error of a description is that of a parameter. -/
theorem exists_invalidParameter_iff (f : Frontend) (source : Source) (start min max : VirtAddr) :
    (∃ name value message, f.describeBlock source start min max =
      .error (.core (.invalidParameter name value message))) ↔ ¬ IsWindow start min max := by
  rw [IsWindow, ← Window.check_isOk_iff, describeBlock]
  cases Window.check start min max with
  | ok w => exact iff_of_false (by rintro ⟨name, value, message, ⟨⟩⟩) (not_not.mpr rfl)
  | error defect =>
    refine iff_of_true ?_ Bool.false_ne_true
    cases defect <;> exact ⟨_, _, _, rfl⟩

/-- In every state of a session with room for the new descriptors, three addresses are described
without a breach, and the blocks that are held can be followed and released. -/
theorem guarded_of_hasRoom {config : Config} {valid : config.Valid} {ops : List Session.Op}
    {source : Source} {start min max : VirtAddr}
    (h : (Session.run config valid ops).frontend.HasRoom source start min max) :
    (Session.run config valid ops).frontend.Guarded source start min max ∧
      ∀ b ∈ (Session.run config valid ops).held,
        (Session.run config valid ops).frontend.Safe b := by
  have hsound := Session.sound_run config valid ops
  refine ⟨⟨Builder.describeBlock_eq hsound.accounts h, exists_invalidParameter_iff _ _ _ _ _,
    exists_describeBlock_iff _ _ _ _ _, fun b f hok ↦ ?_, fun b f hok ↦ ?_⟩,
    Session.safe_run config valid ops⟩
  · obtain ⟨w, rfl, -, -, hadds⟩ := Session.exists_window_of_describeBlock hok
    obtain ⟨d, rest, hchain, hpc⟩ := exists_chain_eq_cons hadds
    have hcomplete := hadds.complete
    rw [Complete, hchain] at hcomplete
    cases hcomplete with
    | cons head _ => exact ⟨d, head, hpc⟩
  · obtain ⟨w, -, -, -, hadds⟩ := Session.exists_window_of_describeBlock hok
    exact hadds.safe

/-- The loop is described next to a block that is held, where slots are free. -/
theorem guarded_loop :
    let f := (Session.run {} Config.valid_default [.describeCode .loop ⟨0x1000⟩,
      .describeBlock .loop ⟨0x1014⟩ ⟨0x1014⟩ ⟨0x1018⟩, .release 1]).frontend
    f.HasRoom .loop ⟨0x1008⟩ ⟨0x1000⟩ ⟨0x1018⟩ ∧ f.Guarded .loop ⟨0x1008⟩ ⟨0x1000⟩ ⟨0x1018⟩ := by
  intro f
  have hroom : f.HasRoom .loop ⟨0x1008⟩ ⟨0x1000⟩ ⟨0x1018⟩ :=
    hasRoom_of_live_le (Session.sound_run {} Config.valid_default _).accounts (by decide +kernel)
      (by decide +kernel)
  exact ⟨hroom, (guarded_of_hasRoom hroom).1⟩

end Frontend

end MipsBlocks
