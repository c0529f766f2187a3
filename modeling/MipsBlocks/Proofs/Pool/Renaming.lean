import MipsBlocks.Proofs.Pool.Chain

/-!
# Chains under other handles

Two pools can hold the same sites under different handles. Where `ρ` takes the handles of the first
pool to those of the second one, it takes every descriptor of the first chain, with its links, to
the descriptor in the same position of the second chain (`Chain.map_eq`, `Installed.map`). The
analyses may differ by a function `g`, which does not look at handles.
-/

set_option autoImplicit false
set_option relaxedAutoImplicit false

namespace MipsBlocks

/-- Two lists of one length, the first one without repetition, differ by a renaming. -/
theorem exists_eq_map {α : Type} [DecidableEq α] {l m : List α} (hl : l.Nodup)
    (hlength : l.length = m.length) : ∃ ρ : α → α, m = l.map ρ := by
  induction l generalizing m with
  | nil => exact ⟨id, List.length_eq_zero_iff.mp hlength.symm⟩
  | cons a l ih =>
    cases m with
    | nil => cases hlength
    | cons b m =>
      obtain ⟨ha, hl⟩ := List.nodup_cons.mp hl
      obtain ⟨ρ, rfl⟩ := ih hl (Nat.succ.inj hlength)
      refine ⟨Function.update ρ a b, ?_⟩
      rw [List.map_cons, Function.update_self]
      refine congrArg (b :: ·) (List.map_congr_left fun c hc ↦ ?_)
      have hne : c ≠ a := by
        rintro rfl
        exact ha hc
      rw [Function.update_of_ne hne]

namespace Descriptor

/-- The handles that a descriptor holds. -/
def links (d : Descriptor) : List Handle := d.next.toList ++ d.delaySlot.toList ++ d.owner.toList

/-- The descriptor with its handles renamed, and with what `g` makes of its analysis. -/
def map (ρ : Handle → Handle) (g : Analysis → Analysis) (d : Descriptor) : Descriptor where
  toAnalysis := g d.toAnalysis
  next := d.next.map ρ
  delaySlot := d.delaySlot.map ρ
  owner := d.owner.map ρ

end Descriptor

namespace Pool

variable {p p' : Pool} {cursor cursor' : Option Handle} {l l' : List (Handle × Descriptor)}
  {ρ : Handle → Handle} {g : Analysis → Analysis}

theorem Chain.get?_eq (h : p.Chain cursor l) {e : Handle × Descriptor} (he : e ∈ l) :
    p.get? e.1 = some e.2 := by
  induction h with
  | nil => cases he
  | cons head _ ih =>
    rcases List.mem_cons.mp he with rfl | he
    · exact head
    · exact ih he

theorem Chain.mem_of_cursor (h : p.Chain cursor l) {k : Handle} (hk : k ∈ cursor) :
    ∃ e ∈ l, e.1 = k := by
  cases h with
  | nil => cases hk
  | cons _ _ => exact ⟨_, List.mem_cons_self, Option.some.inj hk⟩

/-- The links of a chain stay in it. -/
theorem Chain.mem_of_next (h : p.Chain cursor l) {e : Handle × Descriptor} (he : e ∈ l)
    {k : Handle} (hk : k ∈ e.2.next) : ∃ e' ∈ l, e'.1 = k := by
  induction h with
  | nil => cases he
  | @cons _ _ rest _ tail ih =>
    obtain ⟨e', he', heq⟩ : ∃ e' ∈ rest, e'.1 = k := by
      rcases List.mem_cons.mp he with rfl | he
      · exact tail.mem_of_cursor hk
      · exact ih he
    exact ⟨e', List.mem_cons_of_mem _ he', heq⟩

/-- Two chains whose descriptors agree up to a renaming of handles and but for the links to the
next ones agree in these links too. -/
theorem Chain.map_eq (h : p.Chain cursor l) (h' : p'.Chain cursor' l')
    (hsame : List.Forall₂ (fun e e' ↦ ∃ next, e' = (ρ e.1, { e.2.map ρ g with next })) l l') :
    cursor' = cursor.map ρ ∧ l' = l.map fun e ↦ (ρ e.1, e.2.map ρ g) := by
  induction h generalizing cursor' l' with
  | nil =>
    cases hsame
    cases h'
    exact ⟨rfl, rfl⟩
  | cons _ _ ih =>
    obtain ⟨-, rest, ⟨next, rfl⟩, hrest, rfl⟩ := List.forall₂_cons_left_iff.mp hsame
    cases h' with
    | cons _ tail' =>
      obtain ⟨hnext, rfl⟩ := ih tail' hrest
      obtain rfl : next = _ := hnext
      exact ⟨rfl, rfl⟩

section Installed

variable {handles handles' : Array Handle} {e e' : Handle × Descriptor} {site : Site}

/-- A site under renamed handles has a descriptor with renamed handles, but for the link to the next
one, which the site does not determine. -/
theorem Installed.map (h : p.Installed handles e site) (h' : p'.Installed handles' e' (site.map g))
    (hρ : ∀ i : Nat, handles'[i]? = (handles[i]?).map ρ) :
    ∃ next, e' = (ρ e.1, { e.2.map ρ g with next }) := by
  have hhandle : some e'.1 = some (ρ e.1) := by
    rw [← h'.handle, hρ]
    exact congrArg (Option.map ρ) h.handle
  have hslot : e'.2.delaySlot = e.2.delaySlot.map ρ := by
    rw [h'.delaySlot, h.delaySlot, hρ]
    cases hsite : site.slot <;> simp [Site.map, hsite]
  have hanalysis : e'.2.toAnalysis = g e.2.toAnalysis := by
    rw [h'.toAnalysis, h.toAnalysis]
    rfl
  refine ⟨e'.2.next, Prod.ext (Option.some.inj hhandle) ?_⟩
  obtain ⟨k, a, next, slot, owner⟩ := e'
  obtain rfl : owner = none := h'.owner
  obtain rfl : slot = _ := hslot
  obtain rfl : a = _ := hanalysis
  rw [Descriptor.map, h.owner]
  rfl

/-- The same for the delay slot of the site. -/
theorem Installed.map_slot (h : p.Installed handles e site)
    (h' : p'.Installed handles' e' (site.map g))
    (hρ : ∀ i : Nat, handles'[i]? = (handles[i]?).map ρ) {k : Handle} (hk : k ∈ e.2.delaySlot) :
    ∃ d : Descriptor, d.links = [e.1] ∧ p.get? k = some d ∧ p'.get? (ρ k) = some (d.map ρ g) := by
  rw [h.delaySlot] at hk
  obtain ⟨slot, hslot, hhandle⟩ := Option.bind_eq_some_iff.mp hk
  obtain ⟨j, hj, hget⟩ := h.slot slot hslot
  obtain rfl : j = k := Option.some.inj (hj.symm.trans hhandle)
  have hslot' : g slot ∈ (site.map g).slot := Option.mem_map_of_mem g hslot
  obtain ⟨j', hj', hget'⟩ := h'.slot _ hslot'
  rw [hρ] at hj'
  obtain rfl : j' = ρ j := by
    rw [show handles[(site.map g).order + 1]? = some j from hj] at hj'
    exact (Option.some.inj hj').symm
  obtain ⟨next, rfl⟩ := h.map h' hρ
  exact ⟨_, rfl, hget, hget'⟩

end Installed

end Pool

end MipsBlocks
