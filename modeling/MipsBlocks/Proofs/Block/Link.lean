import MipsBlocks.Proofs.Block.Ends

/-!
# Linking from the front

The sequences of a range can be found in one walk over its sites: a site gets its flags when it
comes, from its position in the sequence that is not ended yet and from the site after it, and the
required registers of a sequence are computed as soon as it ends (`Outline.linkFrom`). That gives
the sequences of the range (`linkFrom_eq_range`).

The induction is on the sites that are left. The sequence that is not ended yet is one that could go
on: its sites can be together, the next one too, and it is shorter than the limit.
-/

set_option autoImplicit false
set_option relaxedAutoImplicit false

namespace MipsBlocks

namespace Flags

theorem union_comm (s t : Flags) : s ∪ t = t ∪ s := congrArg mk (BitVec.or_comm s.bits t.bits)

theorem union_self (s : Flags) : s ∪ s = s := congrArg mk (BitVec.or_self)

instance : Std.Associative (fun s t : Flags ↦ s ∪ t) := ⟨union_assoc⟩
instance : Std.Commutative (fun s t : Flags ↦ s ∪ t) := ⟨union_comm⟩
instance : Std.IdempotentOp (fun s t : Flags ↦ s ∪ t) := ⟨union_self⟩
instance : Std.LawfulIdentity (fun s t : Flags ↦ s ∪ t) ∅ where
  left_id := fun s ↦ (union_comm ∅ s).trans (union_empty s)
  right_id := union_empty

/-- A flag that is there adds nothing. -/
theorem union_singleton_of_mem {s : Flags} {f : Flag} (h : f ∈ s) : s ∪ {f} = s := by
  refine congrArg mk (BitVec.eq_of_getLsbD_eq fun i _ ↦ ?_)
  change (s.bits ||| (1#32 <<< f.bit)).getLsbD i = s.bits.getLsbD i
  rw [BitVec.getLsbD_or]
  by_cases hi : i = f.bit
  · rw [hi, mem_def.mp h, Bool.true_or]
  · have hother : (1#32 <<< f.bit).getLsbD i = false := by
      simp only [BitVec.getLsbD_shiftLeft, BitVec.getLsbD_one, Bool.and_eq_false_iff,
        Bool.not_eq_false', decide_eq_false_iff_not, decide_eq_true_eq]
      omega
    rw [hother, Bool.or_false]

end Flags

namespace Outline

/-- Whether a sequence ends between two neighbours, whatever flags the first one has. -/
def apart (a b : Site) : Bool :=
  .branchTarget ∈ b.node.flags ||
    (.likelyBranch ∈ a.node.flags && a.node.pc + BitVec.ofNat 64 a.node.length = b.node.pc)

/-- The flags that the site at a position of a sequence has for being entered. -/
def entryFlags (position : Nat) : Flags := if position = 0 then {.branchTarget} else ∅

/-- The flags of a site at a position of its sequence and before `next`. -/
def endFlags (limit : Nat) (exit : Analysis → RangeExit) (position : Nat) (a : Site)
    (next : Option Site) : Flags :=
  let full : Flags := if limit ≤ position + 1 then {.endSequence} else ∅
  match next with
  | some b => entryFlags position ∪ (if apart a b then {.endSequence} else ∅) ∪ full
  | none => entryFlags position ∪ exitFlags exit a.node ∪ full

/-- The sequences of the sites of a range, after the sites of a sequence that is not ended yet. -/
def linkFrom (limit : Nat) (exit : Analysis → RangeExit) : Sequence → List Site → List Sequence
  | _, [] => []
  | opened, a :: rest =>
    let b := a.flag (endFlags limit exit opened.length a rest.head?)
    if b.node.endsSequence then Sequence.require (opened ++ [b]) :: linkFrom limit exit [] rest
    else linkFrom limit exit (opened ++ [b]) rest

theorem joined_eq (a b : Site) :
    Sequence.joined a b = (!a.node.endsSequence && !apart a b) := by
  rw [Sequence.joined, apart, Bool.or_assoc, Bool.not_or]

theorem endSequence_mem_exitFlags (exit : Analysis → RangeExit) (last : Analysis) :
    .endSequence ∈ exitFlags exit last := by
  unfold exitFlags
  split <;> simp

/-! ### The site that comes -/

section EndFlags

variable {limit : Nat} {exit : Analysis → RangeExit} {position : Nat} {a : Site}
  {rest : List Site}

/-- The flags that the first one of some sites has for being the last one of its range. -/
def closeFlags (exit : Analysis → RangeExit) (a : Site) (rest : List Site) : Flags :=
  if rest = [] then exitFlags exit a.node else ∅

theorem closeFlags_subset (exit : Analysis → RangeExit) (a : Site) (rest : List Site) :
    closeFlags exit a rest ⊆ Flags.ofExit := by
  unfold closeFlags
  split
  · exact exitFlags_subset exit a.node
  · exact Flags.empty_subset _

theorem flag_empty (a : Site) : a.flag ∅ = a := by
  rw [Site.flag, Analysis.flag, Flags.union_empty]

theorem close_cons (exit : Analysis → RangeExit) (a : Site) (rest : List Site) :
    close exit (a :: rest) = a.flag (closeFlags exit a rest) :: close exit rest := by
  rcases List.eq_nil_or_concat rest with rfl | ⟨init, last, rfl⟩
  · rfl
  · rw [List.concat_eq_append, closeFlags, if_neg (List.append_ne_nil_of_right_ne_nil _
      (List.cons_ne_nil _ _)), flag_empty, close_concat, ← List.cons_append, close_concat,
      List.cons_append]

theorem endsSequence_flag {a : Site} {flags : Flags} :
    (a.flag flags).node.endsSequence = true ↔
      a.node.endsSequence = true ∨ .endSequence ∈ flags := by
  rw [Analysis.endsSequence, Analysis.endsSequence, decide_eq_true_eq, decide_eq_true_eq,
    Site.mem_flags_flag]

/-- Where its sequence goes on, a site is only marked as the entry. -/
theorem of_not_ends
    (h : (a.flag (endFlags limit exit position a rest.head?)).node.endsSequence = false) :
    endFlags limit exit position a rest.head? = entryFlags position ∧ position + 1 < limit ∧
      ∃ b, rest.head? = some b ∧ Sequence.joined a b = true := by
  rw [Bool.eq_false_iff, Ne, endsSequence_flag, not_or] at h
  obtain ⟨hends, hflags⟩ := h
  cases rest with
  | nil =>
    refine absurd ?_ hflags
    simp [endFlags, endSequence_mem_exitFlags]
  | cons b rest =>
    dsimp only [List.head?_cons, endFlags] at hflags ⊢
    have hfull : ¬ limit ≤ position + 1 := fun hle ↦ hflags (by simp [hle])
    have hapart : apart a b = false := by
      by_contra hne
      exact hflags (by simp [hne])
    refine ⟨?_, Nat.lt_of_not_le hfull, b, rfl, ?_⟩
    · rw [if_neg hfull, hapart, if_neg Bool.false_ne_true, Flags.union_empty, Flags.union_empty]
    · rw [joined_eq, hapart, Bool.eq_false_iff.mpr hends]
      rfl

theorem endSequence_notMem_entryFlags (position : Nat) :
    Flag.endSequence ∉ entryFlags position := by
  unfold entryFlags
  split <;> decide

theorem flag_congr {a : Site} {s t : Flags} (h : a.node.flags ∪ s = a.node.flags ∪ t) :
    a.flag s = a.flag t := by
  rw [Site.flag, Site.flag, Analysis.flag, Analysis.flag, h]

/-- Where its sequence ends, a site has the flags of the last one of a sequence. -/
theorem of_ends
    (h : (a.flag (endFlags limit exit position a rest.head?)).node.endsSequence = true) :
    a.flag (endFlags limit exit position a rest.head?) =
        ((a.flag (closeFlags exit a rest)).flag {.endSequence}).flag (entryFlags position) ∧
      (limit ≤ position + 1 ∨ ∀ b ∈ rest.head?, Sequence.joined a b = false) := by
  rw [endsSequence_flag] at h
  rw [Site.flag_flag, Site.flag_flag]
  cases rest with
  | nil =>
    refine ⟨flag_congr ?_, .inr fun b hb ↦ by cases hb⟩
    have hend := Flags.union_singleton_of_mem (endSequence_mem_exitFlags exit a.node)
    dsimp only [List.head?_nil, endFlags]
    rw [closeFlags, if_pos rfl]
    split
    · ac_rfl
    · rw [← Flags.union_assoc (exitFlags exit a.node), hend]
      ac_rfl
  | cons b rest =>
    dsimp only [List.head?_cons, endFlags] at h ⊢
    rw [closeFlags, if_neg (List.cons_ne_nil _ _)]
    -- nothing but these three sets the flag
    have hreason : limit ≤ position + 1 ∨ apart a b = true ∨ a.node.endsSequence = true := by
      by_contra hnot
      rw [not_or, not_or] at hnot
      obtain ⟨hfull, hapart, hends⟩ := hnot
      rw [if_neg hfull, if_neg hapart, or_iff_right hends, Flags.union_empty,
        Flags.union_empty] at h
      exact endSequence_notMem_entryFlags position h
    refine ⟨flag_congr ?_, ?_⟩
    · rcases hreason with hfull | hapart | hends
      · rw [if_pos hfull]
        split <;> ac_rfl
      · rw [if_pos hapart]
        split <;> ac_rfl
      · rw [← Flags.union_singleton_of_mem (of_decide_eq_true hends)]
        split <;> split <;> ac_rfl
    · refine hreason.imp_right fun hreason c hc ↦ ?_
      obtain rfl : b = c := Option.some.inj hc
      rw [joined_eq]
      rcases hreason with hapart | hends
      · rw [hapart, Bool.not_true, Bool.and_false]
      · rw [hends, Bool.not_true, Bool.false_and]

end EndFlags

/-! ### The walk -/

open Sequence

theorem length_flagFirst (flags : Flags) (s : Sequence) :
    (flagFirst flags s).length = s.length := by
  cases s <;> rfl

/-- The entry of a sequence is marked when its first site comes. -/
theorem flagFirst_concat (s : Sequence) (a : Site) :
    flagFirst {.branchTarget} (s ++ [a]) =
      flagFirst {.branchTarget} s ++ [a.flag (entryFlags s.length)] := by
  cases s with
  | nil => rfl
  | cons b s =>
    rw [entryFlags, if_neg (by simp), flag_empty]
    rfl

/-- The piece that a site ends can be cut off. -/
theorem cut_of_ends {limit : Nat} (exit : Analysis → RangeExit) {opened : Sequence} {a : Site}
    {rest : List Site} (hlength : opened.length < limit)
    (hjoined : (opened ++ [a]).IsChain fun a b ↦ joined a b = true)
    (hreason : limit ≤ opened.length + 1 ∨ ∀ b ∈ rest.head?, joined a b = false) :
    cut limit (opened ++ close exit (a :: rest)) =
      (opened ++ [a.flag (closeFlags exit a rest)]) :: cut limit (close exit rest) := by
  rw [close_cons, List.append_cons]
  refine cut_append (by omega) (by simp) ?_ (by rw [List.length_append]; exact hlength) ?_
  · obtain ⟨hchain, -, hlast⟩ := List.isChain_append.mp hjoined
    refine List.isChain_append.mpr ⟨hchain, .singleton _, fun x hx y hy ↦ ?_⟩
    obtain rfl := Option.some.inj hy
    rw [joined_flag (closeFlags_subset exit a rest)]
    exact hlast x hx a rfl
  · rcases hreason with hfull | hapart
    · left
      rw [List.length_append, List.length_singleton]
      omega
    · right
      intro x hx y hy
      cases rest with
      | nil => cases hy
      | cons b rest =>
        rw [close_cons] at hy
        obtain rfl := Option.some.inj hy
        rw [List.getLast?_concat, closeFlags, if_neg (List.cons_ne_nil _ _), flag_empty] at hx
        obtain rfl := Option.some.inj hx
        rw [joined_flag (closeFlags_subset exit b rest)]
        exact hapart b rfl

theorem linkFrom_eq {limit : Nat} (exit : Analysis → RangeExit) (opened : Sequence)
    {sites : List Site} (hopened : opened ≠ [] → sites ≠ []) (hlength : opened.length < limit)
    (hjoined : (opened ++ sites.take 1).IsChain fun a b ↦ joined a b = true) :
    linkFrom limit exit (flagFirst {.branchTarget} opened) sites =
      (cut limit (opened ++ close exit sites)).map fun s ↦ s.delimit.require := by
  -- a sequence that is open is never long enough to be cut, so it is cut where the walk ends it
  induction sites generalizing opened with
  | nil =>
    have hnil : opened = [] := by
      by_contra hne
      exact hopened hne rfl
    subst hnil
    rfl
  | cons a rest ih =>
    rw [linkFrom, length_flagFirst]
    by_cases hends :
        (a.flag (endFlags limit exit opened.length a rest.head?)).node.endsSequence = true
    · obtain ⟨hflags, hreason⟩ := of_ends hends
      have hsingle : ([] ++ rest.take 1).IsChain fun a b ↦ joined a b = true := by
        cases rest <;> simp
      have hrest := ih [] (fun h ↦ absurd rfl h) (Nat.zero_lt_of_lt hlength) hsingle
      rw [if_pos hends, cut_of_ends exit hlength hjoined hreason, List.map_cons, hflags, delimit,
        flagLast_concat, flagFirst_concat]
      exact congrArg _ hrest
    · obtain ⟨hflags, hroom, b, hb, hab⟩ := of_not_ends (Bool.eq_false_iff.mpr hends)
      obtain ⟨more, rfl⟩ : ∃ more, rest = b :: more := List.head?_eq_some_iff.mp hb
      rw [if_neg hends, hflags, ← flagFirst_concat, close_cons, closeFlags,
        if_neg (List.cons_ne_nil _ _), flag_empty, List.append_cons opened a (close exit _)]
      refine ih (opened ++ [a]) (fun _ ↦ List.cons_ne_nil _ _)
        (by rw [List.length_append]; exact hroom) ?_
      refine List.isChain_append.mpr ⟨hjoined, .singleton _, fun x hx y hy ↦ ?_⟩
      rw [List.getLast?_concat] at hx
      obtain rfl := Option.some.inj hx
      obtain rfl := Option.some.inj hy
      exact hab

/-- The walk gives the sequences of the range. -/
theorem linkFrom_eq_range {limit : Nat} (hlimit : limit ≠ 0) (exit : Analysis → RangeExit)
    (sites : List Site) : linkFrom limit exit [] sites = range limit exit sites := by
  have hsingle : ([] ++ sites.take 1).IsChain fun a b ↦ joined a b = true := by
    cases sites <;> simp
  exact linkFrom_eq exit [] (fun h ↦ absurd rfl h) (Nat.pos_of_ne_zero hlimit) hsingle

end Outline

end MipsBlocks
