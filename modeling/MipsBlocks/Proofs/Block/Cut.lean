import MipsBlocks.Block.Sequence
import Mathlib.Data.List.SplitBy

/-!
# Cutting a range into sequences

`Sequence.cut` loses nothing and changes no order (`flatten_cut`). Each sequence has at least one
site and at most as many as the limit (`nil_notMem_cut`, `length_le_of_mem_cut`), and its sites can
be in one sequence with their neighbours (`isChain_of_mem_cut`). Conversely there is no cut without
a reason (`Seam`, `isChain_cut`). After `delimit` the entry of a sequence is a branch target, its
last site ends it, and no site in between does either (`Sequence.Delimited`, `delimited_delimit`).
-/

set_option autoImplicit false
set_option relaxedAutoImplicit false

namespace MipsBlocks

theorem Site.mem_flags_flag {a : Site} {flags : Flags} {f : Flag} :
    f ∈ (a.flag flags).node.flags ↔ f ∈ a.node.flags ∨ f ∈ flags :=
  Flags.mem_union

namespace Sequence

theorem joined_iff {a b : Site} :
    joined a b = true ↔ a.node.endsSequence = false ∧ .branchTarget ∉ b.node.flags ∧
      (.likelyBranch ∈ a.node.flags → a.node.pc + BitVec.ofNat 64 a.node.length ≠ b.node.pc) := by
  simp [joined, and_assoc, imp_iff_not_or]

/-! ### Pieces -/

theorem go_eq_append (limit : Nat) (rest : Sequence) (done : List Sequence) :
    inPieces.go limit rest done = done.reverse ++ inPieces limit rest := by
  cases rest with
  | nil => simp [inPieces, inPieces.go]
  | cons a rest =>
    rw [inPieces, inPieces.go, inPieces.go, go_eq_append, go_eq_append _ _ [_]]
    simp
termination_by rest.length
decreasing_by all_goals simp only [List.length_drop, List.length_cons]; omega

@[simp] theorem inPieces_nil (limit : Nat) : inPieces limit [] = [] := by
  simp [inPieces, inPieces.go]

theorem inPieces_cons (limit : Nat) (a : Site) (rest : Sequence) :
    inPieces limit (a :: rest) =
      (a :: rest.take (limit - 1)) :: inPieces limit (rest.drop (limit - 1)) := by
  rw [inPieces, inPieces.go, go_eq_append]
  rfl

theorem flatten_inPieces (limit : Nat) (s : Sequence) : (inPieces limit s).flatten = s := by
  match s with
  | [] => simp
  | a :: rest =>
    rw [inPieces_cons, List.flatten_cons, flatten_inPieces limit (rest.drop (limit - 1)),
      List.cons_append, List.take_append_drop]
termination_by s.length
decreasing_by simp only [List.length_drop, List.length_cons]; omega

theorem nil_notMem_inPieces (limit : Nat) (s : Sequence) : [] ∉ inPieces limit s := by
  match s with
  | [] => simp
  | a :: rest =>
    rw [inPieces_cons, List.mem_cons, not_or]
    exact ⟨(List.cons_ne_nil _ _).symm, nil_notMem_inPieces limit (rest.drop (limit - 1))⟩
termination_by s.length
decreasing_by simp only [List.length_drop, List.length_cons]; omega

theorem length_le_of_mem_inPieces {limit : Nat} (hlimit : limit ≠ 0) (s : Sequence)
    {piece : Sequence} (h : piece ∈ inPieces limit s) : piece.length ≤ limit := by
  match s with
  | [] => simp at h
  | a :: rest =>
    rw [inPieces_cons, List.mem_cons] at h
    rcases h with rfl | h
    · rw [List.length_cons, List.length_take]
      omega
    · exact length_le_of_mem_inPieces hlimit (rest.drop (limit - 1)) h
termination_by s.length
decreasing_by simp only [List.length_drop, List.length_cons]; omega

/-! ### The cut -/

theorem flatten_cut (limit : Nat) (sites : List Site) : (cut limit sites).flatten = sites := by
  have hpieces : ∀ groups : List Sequence,
      (groups.flatMap (inPieces limit)).flatten = groups.flatten := by
    intro groups
    induction groups with
    | nil => rfl
    | cons group groups ih =>
      rw [List.flatMap_cons, List.flatten_append, ih, flatten_inPieces, List.flatten_cons]
  rw [cut, hpieces, List.flatten_splitBy]

theorem nil_notMem_cut (limit : Nat) (sites : List Site) : [] ∉ cut limit sites := by
  rw [cut, List.mem_flatMap]
  rintro ⟨group, -, hgroup⟩
  exact nil_notMem_inPieces limit group hgroup

theorem length_le_of_mem_cut {limit : Nat} (hlimit : limit ≠ 0) {sites : List Site} {s : Sequence}
    (h : s ∈ cut limit sites) : s.length ≤ limit := by
  obtain ⟨group, -, hs⟩ := List.mem_flatMap.mp h
  exact length_le_of_mem_inPieces hlimit group hs

theorem isChain_of_mem_cut {limit : Nat} {sites : List Site} {s : Sequence}
    (h : s ∈ cut limit sites) : s.IsChain fun a b ↦ joined a b = true := by
  obtain ⟨group, hgroup, hs⟩ := List.mem_flatMap.mp h
  have hchain := List.isChain_of_mem_splitBy hgroup
  rw [← flatten_inPieces limit group,
    List.isChain_flatten (nil_notMem_inPieces limit group)] at hchain
  exact hchain.1 s hs

/-- What holds of neighbours holds inside of the sequences and at the seams between them. -/
theorem isChain_iff_cut {R : Site → Site → Prop} (limit : Nat) {sites : List Site} :
    sites.IsChain R ↔ (∀ s ∈ cut limit sites, s.IsChain R) ∧
      (cut limit sites).IsChain fun s t ↦ ∀ a ∈ s.getLast?, ∀ b ∈ t.head?, R a b := by
  conv_lhs => rw [← flatten_cut limit sites]
  exact List.isChain_flatten (nil_notMem_cut limit sites)

/-! ### Seams -/

/-- Why there is a cut between two sequences: the first one is full, or its last site and the first
site of the second one cannot be in one sequence. -/
def Seam (limit : Nat) (s t : Sequence) : Prop :=
  s.length = limit ∨ ∀ a ∈ s.getLast?, ∀ b ∈ t.head?, joined a b = false

/-- All pieces but the last one are full. -/
theorem isChain_inPieces {limit : Nat} (hlimit : limit ≠ 0) (s : Sequence) :
    (inPieces limit s).IsChain fun piece _ ↦ piece.length = limit := by
  match s with
  | [] => simp
  | a :: rest =>
    rw [inPieces_cons]
    have hrest := isChain_inPieces hlimit (rest.drop (limit - 1))
    cases hdrop : rest.drop (limit - 1) with
    | nil =>
      rw [inPieces_nil]
      exact .singleton _
    | cons b more =>
      rw [hdrop, inPieces_cons] at hrest
      rw [inPieces_cons]
      refine List.isChain_cons_cons.mpr ⟨?_, hrest⟩
      have hlength := congrArg List.length hdrop
      rw [List.length_drop, List.length_cons] at hlength
      rw [List.length_cons, List.length_take]
      omega
termination_by s.length
decreasing_by simp only [List.length_drop, List.length_cons]; omega

theorem head?_of_mem_head?_inPieces {limit : Nat} {s piece : Sequence}
    (h : piece ∈ (inPieces limit s).head?) : piece.head? = s.head? := by
  cases s with
  | nil => simp at h
  | cons a rest =>
    rw [inPieces_cons] at h
    obtain rfl := Option.some.inj h
    rfl

theorem getLast?_of_mem_getLast?_inPieces {limit : Nat} {s piece : Sequence}
    (h : piece ∈ (inPieces limit s).getLast?) : piece.getLast? = s.getLast? := by
  have hne : piece ≠ [] := fun hnil ↦
    nil_notMem_inPieces limit s (hnil ▸ List.mem_of_getLast? h)
  rw [← flatten_inPieces limit s, ← List.dropLast_append_getLast? piece h, List.flatten_append,
    List.flatten_singleton, List.getLast?_append_of_ne_nil _ hne]

/-- There is no cut without a reason. -/
theorem isChain_cut {limit : Nat} (hlimit : limit ≠ 0) (sites : List Site) :
    (cut limit sites).IsChain (Seam limit) := by
  have hne : [] ∉ (sites.splitBy joined).map (inPieces limit) := by
    intro hmem
    obtain ⟨group, hgroup, hnil⟩ := List.mem_map.mp hmem
    refine List.ne_nil_of_mem_splitBy hgroup ?_
    rw [← flatten_inPieces limit group, hnil, List.flatten_nil]
  rw [cut, List.flatMap_def, List.isChain_flatten hne]
  constructor
  · intro pieces hpieces
    obtain ⟨group, -, rfl⟩ := List.mem_map.mp hpieces
    exact (isChain_inPieces hlimit group).imp fun _ _ ↦ .inl
  · rw [List.isChain_map]
    refine (List.isChain_getLast_head_splitBy joined sites).imp ?_
    rintro s t ⟨hs, ht, hapart⟩ piece hpiece next hnext
    refine .inr fun a ha b hb ↦ ?_
    rw [getLast?_of_mem_getLast?_inPieces hpiece] at ha
    rw [head?_of_mem_head?_inPieces hnext] at hb
    rwa [← List.getLast_of_mem_getLast? ha, ← List.head_of_mem_head? hb]

/-- What makes some sequences the cut of the sites in them. -/
structure IsCut (limit : Nat) (l : List Sequence) : Prop where
  ne_nil : [] ∉ l
  joined : ∀ s ∈ l, s.IsChain fun a b ↦ joined a b = true
  length_le : ∀ s ∈ l, s.length ≤ limit
  seam : l.IsChain (Seam limit)

theorem isCut_cut {limit : Nat} (hlimit : limit ≠ 0) (sites : List Site) :
    IsCut limit (cut limit sites) where
  ne_nil := nil_notMem_cut limit sites
  joined := fun _ ↦ isChain_of_mem_cut
  length_le := fun _ ↦ length_le_of_mem_cut hlimit
  seam := isChain_cut hlimit sites

namespace IsCut

variable {limit : Nat} {s t : Sequence} {l m : List Sequence}

theorem tail (h : IsCut limit (s :: l)) : IsCut limit l where
  ne_nil := fun hnil ↦ h.ne_nil (List.mem_cons_of_mem s hnil)
  joined := fun t ht ↦ h.joined t (List.mem_cons_of_mem s ht)
  length_le := fun t ht ↦ h.length_le t (List.mem_cons_of_mem s ht)
  seam := h.seam.tail

/-- Of two cuts of the same sites the one does not end a sequence inside the first sequence of the
other. -/
theorem length_le_of_append_eq (hl : IsCut limit (s :: l)) (hm : IsCut limit (t :: m))
    (h : s ++ l.flatten = t ++ m.flatten) : t.length ≤ s.length := by
  by_contra hlt
  obtain ⟨more, rfl, hmore⟩ : ∃ more, t = s ++ more ∧ l.flatten = more ++ m.flatten := by
    rcases List.append_eq_append_iff.mp h with ⟨more, ht, hl⟩ | ⟨more, hs, -⟩
    · exact ⟨more, ht, hl⟩
    · rw [hs, List.length_append] at hlt
      omega
  have hne : more ≠ [] := by
    rintro rfl
    rw [List.append_nil] at hlt
    exact hlt (Nat.le_refl _)
  obtain ⟨b, rest, rfl⟩ := List.exists_cons_of_ne_nil hne
  have hs : s ≠ [] := fun hnil ↦ hl.ne_nil (hnil ▸ List.mem_cons_self)
  have hjoined := (List.isChain_append.mp (hm.joined _ List.mem_cons_self)).2.2
  cases l with
  | nil => cases hmore
  | cons u l =>
    cases u with
    | nil => exact hl.ne_nil (List.mem_cons_of_mem s List.mem_cons_self)
    | cons c u =>
      obtain rfl : c = b := (List.cons.inj hmore).1
      rcases (List.isChain_cons_cons.mp hl.seam).1 with hfull | hapart
      · have hle := hm.length_le _ List.mem_cons_self
        rw [List.length_append, List.length_cons] at hle
        omega
      · have hlast := List.getLast?_eq_some_getLast hs
        have htrue := hjoined _ hlast c rfl
        rw [hapart _ hlast c rfl] at htrue
        cases htrue

/-- There is one cut of some sites. -/
theorem eq_of_flatten_eq (hl : IsCut limit l) (hm : IsCut limit m) (h : l.flatten = m.flatten) :
    l = m := by
  induction l generalizing m with
  | nil =>
    cases m with
    | nil => rfl
    | cons t m =>
      have ht : t = [] := (List.append_eq_nil_iff.mp h.symm).1
      exact absurd (ht ▸ List.mem_cons_self) hm.ne_nil
  | cons s l ih =>
    cases m with
    | nil =>
      have hs : s = [] := (List.append_eq_nil_iff.mp h).1
      exact absurd (hs ▸ List.mem_cons_self) hl.ne_nil
    | cons t m =>
      rw [List.flatten_cons, List.flatten_cons] at h
      have hlength := Nat.le_antisymm (length_le_of_append_eq hm hl h.symm)
        (length_le_of_append_eq hl hm h)
      obtain ⟨rfl, hrest⟩ := List.append_inj h hlength
      rw [ih hl.tail hm.tail hrest]

end IsCut

/-- A sequence is cut off where there is a reason for it. -/
theorem cut_append {limit : Nat} (hlimit : limit ≠ 0) {piece rest : List Site} (hne : piece ≠ [])
    (hjoined : piece.IsChain fun a b ↦ joined a b = true) (hle : piece.length ≤ limit)
    (hseam : Seam limit piece rest) :
    cut limit (piece ++ rest) = piece :: cut limit rest := by
  have hrest := isCut_cut hlimit rest
  refine (isCut_cut hlimit _).eq_of_flatten_eq ⟨?_, ?_, ?_, ?_⟩ ?_
  · rw [List.mem_cons, not_or]
    exact ⟨hne.symm, hrest.ne_nil⟩
  · rintro s hs
    rcases List.mem_cons.mp hs with rfl | hs
    · exact hjoined
    · exact hrest.joined s hs
  · rintro s hs
    rcases List.mem_cons.mp hs with rfl | hs
    · exact hle
    · exact hrest.length_le s hs
  · cases hcut : cut limit rest with
    | nil => exact .singleton _
    | cons t l =>
      rw [hcut] at hrest
      refine List.isChain_cons_cons.mpr ⟨?_, hrest.seam⟩
      have ht : t ≠ [] := fun hnil ↦ hrest.ne_nil (hnil ▸ List.mem_cons_self)
      have hhead : t.head? = rest.head? := by
        rw [← flatten_cut limit rest, hcut, List.flatten_cons, List.head?_append_of_ne_nil _ ht]
      rwa [Seam, hhead]
  · rw [flatten_cut, List.flatten_cons, flatten_cut]

/-! ### Delimited sequences -/

/-- A sequence is entered at its first site and ends at its last one, and nowhere else. -/
structure Delimited (s : Sequence) : Prop where
  ne_nil : s ≠ []
  first : ∀ a ∈ s.head?, .branchTarget ∈ a.node.flags
  last : ∀ a ∈ s.getLast?, .endSequence ∈ a.node.flags
  inner : s.IsChain fun a b ↦ .endSequence ∉ a.node.flags ∧ .branchTarget ∉ b.node.flags

theorem flagLast_concat (flags : Flags) (s : Sequence) (a : Site) :
    flagLast flags (s ++ [a]) = s ++ [a.flag flags] := by
  simp [flagLast]

/-- What holds of neighbours still does when the last site gets more flags. Assumes: the second
neighbour may have them. -/
theorem isChain_flagLast {R : Site → Site → Prop} (flags : Flags)
    (hflags : ∀ a b, R a b → R a (b.flag flags)) {s : Sequence} (hs : s.IsChain R) :
    (flagLast flags s).IsChain R := by
  rcases List.eq_nil_or_concat s with rfl | ⟨s, last, rfl⟩
  · exact .nil
  · rw [List.concat_eq_append] at hs ⊢
    obtain ⟨hinit, -, hlast⟩ := List.isChain_append.mp hs
    rw [flagLast_concat]
    refine List.isChain_append.mpr ⟨hinit, .singleton _, fun a ha b hb ↦ ?_⟩
    obtain rfl : last.flag flags = b := by simpa using hb
    exact hflags a last (hlast a ha last (by simp))

theorem isChain_flagFirst {R : Site → Site → Prop} (flags : Flags)
    (hflags : ∀ a b, R a b → R (a.flag flags) b) {s : Sequence} (hs : s.IsChain R) :
    (flagFirst flags s).IsChain R := by
  match s with
  | [] => exact .nil
  | [a] => exact .singleton _
  | a :: b :: rest =>
    obtain ⟨hab, hrest⟩ := List.isChain_cons_cons.mp hs
    exact List.isChain_cons_cons.mpr ⟨hflags a b hab, hrest⟩

/-- Marking the two ends of a sequence whose sites can be together delimits it. -/
theorem delimited_delimit {s : Sequence} (hne : s ≠ [])
    (hs : s.IsChain fun a b ↦ joined a b = true) : Delimited s.delimit := by
  have hinner : s.IsChain fun a b ↦
      .endSequence ∉ a.node.flags ∧ .branchTarget ∉ b.node.flags := by
    refine hs.imp fun a b hab ↦ ?_
    obtain ⟨hends, htarget, -⟩ := joined_iff.mp hab
    exact ⟨by simpa [Analysis.endsSequence] using hends, htarget⟩
  obtain ⟨init, last, rfl⟩ : ∃ init last, s = init ++ [last] :=
    ⟨_, _, (List.dropLast_append_getLast hne).symm⟩
  have hmarked := isChain_flagLast {.endSequence}
    (fun a b hab ↦ ⟨hab.1, by simpa [Site.mem_flags_flag] using hab.2⟩) hinner
  have hall := isChain_flagFirst {.branchTarget}
    (fun a b hab ↦ ⟨by simpa [Site.mem_flags_flag] using hab.1, hab.2⟩) hmarked
  rw [flagLast_concat] at hall
  rw [delimit, flagLast_concat]
  cases init with
  | nil =>
    exact ⟨by simp [flagFirst], by simp [flagFirst, Site.mem_flags_flag],
      by simp [flagFirst, Site.mem_flags_flag], hall⟩
  | cons first init =>
    refine ⟨by simp [flagFirst], by simp [flagFirst, Site.mem_flags_flag], ?_, hall⟩
    rw [List.cons_append, flagFirst, ← List.cons_append, List.getLast?_concat]
    simp [Site.mem_flags_flag]

end Sequence

end MipsBlocks
