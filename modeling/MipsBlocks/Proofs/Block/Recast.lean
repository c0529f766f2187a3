import MipsBlocks.Proofs.Block.Outline
import MipsBlocks.Proofs.Survey.Recast

/-!
# Recast outlines

What becomes of a survey depends no more on physical addresses and literals than the survey itself:
the ranges, the sequences and the required registers of the recast survey are the recast ones of the
survey (`range_site`). So code that agrees, in recast form, with other code on the addresses of the
sites found there has the recast outline (`sequences_describe_recast`, `trace_describe_recast`).

Scope. The exit of the front range compares a fall-through with the end of the window. A window that
is moved past the end of the address space would change it, so that the two exits agree is a
hypothesis.
-/

set_option autoImplicit false
set_option relaxedAutoImplicit false

namespace MipsBlocks

/-- Splitting commutes with a map that keeps the relation of neighbours. -/
theorem splitBy_map {α β : Type} {R : β → β → Bool} {S : α → α → Bool} {f : α → β}
    (h : ∀ a b, R (f a) (f b) = S a b) (l : List α) :
    (l.map f).splitBy R = (l.splitBy S).map (List.map f) := by
  refine List.splitBy_eq_iff.mpr ⟨?_, ?_, ?_, ?_⟩
  · rw [← List.map_flatten, List.flatten_splitBy]
  · intro hnil
    obtain ⟨group, hgroup, hempty⟩ := List.mem_map.mp hnil
    rw [List.map_eq_nil_iff.mp hempty] at hgroup
    exact List.nil_notMem_splitBy S l hgroup
  · intro m hm
    obtain ⟨group, hgroup, rfl⟩ := List.mem_map.mp hm
    rw [List.isChain_map]
    simpa only [h] using List.isChain_of_mem_splitBy hgroup
  · rw [List.isChain_map]
    refine (List.isChain_getLast_head_splitBy S l).imp ?_
    rintro a b ⟨ha, hb, hseam⟩
    refine ⟨by simpa using ha, by simpa using hb, ?_⟩
    rw [List.getLast_map, List.head_map, h]
    exact hseam

namespace Sequence

theorem inPieces_map (limit : Nat) (f : Site → Site) (s : Sequence) :
    inPieces limit (s.map f) = (inPieces limit s).map (List.map f) := by
  match s with
  | [] => simp
  | a :: rest =>
    have hrest := inPieces_map limit f (rest.drop (limit - 1))
    rw [List.map_drop] at hrest
    rw [List.map_cons, inPieces_cons, inPieces_cons, List.map_cons, hrest, List.map_cons,
      List.map_take]
termination_by s.length
decreasing_by simp only [List.length_drop, List.length_cons]; omega

variable {config : Config} {w w' : Window} (r : Recast config w w')

theorem joined_site (a b : Site) : joined (r.site a) (r.site b) = joined a b := by
  have hnext : r.move a.node.pc + BitVec.ofNat 64 a.node.length = r.move b.node.pc ↔
      a.node.pc + BitVec.ofNat 64 a.node.length = b.node.pc := by
    rw [← r.move_add, r.injective.eq_iff]
  rw [Bool.eq_iff_iff, joined_iff, joined_iff]
  exact and_congr_right' (and_congr_right' (imp_congr_right fun _ ↦ not_congr hnext))

theorem cut_site (limit : Nat) (sites : List Site) :
    cut limit (sites.map r.site) = (cut limit sites).map (List.map r.site) := by
  rw [cut, cut, splitBy_map (joined_site r), List.flatMap_map, List.map_flatMap]
  exact List.flatMap_congr fun group _ ↦ inPieces_map limit r.site group

theorem delimit_site (s : Sequence) :
    delimit (s.map r.site) = (delimit s).map r.site := by
  have hlast : ∀ flags, flagLast flags (s.map r.site) = (flagLast flags s).map r.site := by
    intro flags
    rcases List.eq_nil_or_concat s with rfl | ⟨s, last, rfl⟩
    · rfl
    · rw [List.concat_eq_append, List.map_append, List.map_singleton, flagLast_concat,
        flagLast_concat, List.map_append]
      rfl
  rw [delimit, delimit, hlast]
  cases flagLast {.endSequence} s <;> rfl

/-- Required registers depend on nothing that is recast. -/
theorem require_site (s : Sequence) : require (s.map r.site) = (require s).map r.site ∧
    (pass (s.map r.site)).2 = (pass s).2 := by
  have hone : ∀ (a : Site) (live : RegSet),
      (r.site a).require live = (r.site (a.require live).1, (a.require live).2) := by
    rintro ⟨node, slot, order⟩ live
    cases slot <;> rfl
  induction s with
  | nil => exact ⟨rfl, rfl⟩
  | cons a s ih =>
    obtain ⟨hdone, hlive⟩ := ih
    rw [List.map_cons]
    constructor
    · rw [require_cons, require_cons, hdone, hlive, hone, List.map_cons]
    · show ((r.site a).require (pass (s.map r.site)).2).2 = (a.require (pass s).2).2
      rw [hlive, hone]

end Sequence

namespace Outline

variable {config : Config} {w w' : Window} (r : Recast config w w')

theorem close_site {exit exit' : Analysis → RangeExit} {sites : List Site}
    (hexit : ∀ last ∈ sites.getLast?, exit' (r.analysis last.node) = exit last.node) :
    close exit' (sites.map r.site) = (close exit sites).map r.site := by
  rcases List.eq_nil_or_concat sites with rfl | ⟨sites, last, rfl⟩
  · rfl
  · rw [List.concat_eq_append] at hexit ⊢
    have hflags : exitFlags exit' (r.site last).node = exitFlags exit last.node := by
      have hlast : exit' (r.site last).node = exit last.node := hexit last (by simp)
      have hsame : (r.site last).node.flags = last.node.flags := rfl
      rw [exitFlags, exitFlags, hlast, hsame]
    rw [List.map_append, List.map_singleton, close_concat, close_concat, hflags, List.map_append]
    rfl

/-- The sequences of a recast range are the recast sequences of the range. -/
theorem range_site (limit : Nat) {exit exit' : Analysis → RangeExit} {sites : List Site}
    (hexit : ∀ last ∈ sites.getLast?, exit' (r.analysis last.node) = exit last.node) :
    range limit exit' (sites.map r.site) = (range limit exit sites).map (List.map r.site) := by
  rw [range, range, close_site r hexit, Sequence.cut_site, List.map_map, List.map_map]
  refine List.map_congr_left fun s _ ↦ ?_
  rw [Function.comp_apply, Function.comp_apply, Sequence.delimit_site,
    (Sequence.require_site r _).1]

end Outline

namespace Survey

variable {config : Config} {w w' : Window} (r : Recast config w w') (s : Survey w)

theorem split_survey : (r.survey s).split = s.split := by
  rw [split, split, ← r.startSpot, r.index_spot]

theorem toList_table_survey :
    (r.survey s).table.toList = s.table.toList.map (Option.map r.site) := by
  rw [Recast.survey, Vector.toList_cast, Vector.toList_map]

theorem front_survey : (r.survey s).front = s.front.map r.site := by
  rw [front, front, toList_table_survey, split_survey, List.map_drop.symm, List.reduceOption_map]

theorem back_survey : (r.survey s).back = s.back.map r.site := by
  rw [back, back, toList_table_survey, split_survey, List.map_take.symm, List.reduceOption_map]

end Survey

namespace Outline

section Describe

variable {config : Config} {w w' : Window} (r : Recast config w w') {source source' : Source}
  (h : ∀ t site, (Survey.run config source w).lookup t = some site →
    ∀ a ∈ site.pcs, r.Agrees source source' a)

include h

theorem trace_describe_recast : (describe config source' w').trace =
    (describe config source w).trace.map r.move :=
  congrArg Survey.trace (Survey.run_survey r h)

/-- The sequences of the recast code are the recast sequences. Assumes: the two sources agree on the
addresses of the sites that the first survey finds, and the front ranges have the same exit. -/
theorem sequences_describe_recast
    (hexit : ∀ last ∈ (Survey.run config source w).front.getLast?,
      frontExit w' (r.analysis last.node) = frontExit w last.node) :
    (describe config source' w').sequences =
      (describe config source w).sequences.map (List.map r.site) := by
  have hback : ∀ sites : List Site,
      range config.maxSequence (fun _ ↦ .returnToStart) (sites.map r.site) =
        (range config.maxSequence (fun _ ↦ .returnToStart) sites).map (List.map r.site) :=
    fun _ ↦ range_site r _ fun _ _ ↦ rfl
  show ofSurvey config (Survey.run config source' w') =
    (ofSurvey config (Survey.run config source w)).map _
  rw [Survey.run_survey r h, ofSurvey, ofSurvey, Survey.front_survey, Survey.back_survey,
    range_site r _ hexit, hback, List.map_append]

/-- The same of the sites of all sequences. -/
theorem sites_describe_recast
    (hexit : ∀ last ∈ (Survey.run config source w).front.getLast?,
      frontExit w' (r.analysis last.node) = frontExit w last.node) :
    (describe config source' w').sites = (describe config source w).sites.map r.site := by
  rw [sites, sites, sequences_describe_recast r h hexit, List.map_flatten]

end Describe

/-- An outline depends on no address but those of the sites that the survey finds. -/
theorem describe_congr {config : Config} {w : Window} {source source' : Source}
    (h : ∀ t site, (Survey.run config source w).lookup t = some site →
      ∀ a ∈ site.pcs, config.analyze source' a = config.analyze source a) :
    describe config source' w = describe config source w := by
  simp only [describe, Survey.run_congr h]

end Outline

end MipsBlocks
