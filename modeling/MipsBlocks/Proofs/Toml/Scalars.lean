import MipsBlocks.Toml.Value
import Mathlib.Data.List.Basic

/-!
# Integers and strings, written and read

At the end of a line `value?` reads back the integer or the string that was written there
(`Scalar.chars`, `value?_chars_append`). The digits of an integer are not taken for those of a date
or of a time, since no hyphen or colon follows them, nor for those of a floating-point number, since
neither a point nor an exponent does.
-/

set_option autoImplicit false
set_option relaxedAutoImplicit false

namespace MipsBlocks

namespace Toml

/-! ### Cursors -/

/-- The text does not start with a character of a class. -/
def Stops (p : Char → Bool) (rest : List Char) : Prop := ∀ c ∈ rest.head?, p c = false

/-- Nothing is left of a line. -/
def EndsLine (rest : List Char) : Prop := ∀ c ∈ rest.head?, c = '\n'

variable {p : Char → Bool} {text rest : List Char}

theorem EndsLine.stops (h : EndsLine rest) (hp : p '\n' = false) : Stops p rest := by
  intro c hc
  rw [h c hc, hp]

theorem stops_of_ne (h : ∀ mark others, p mark = true → rest ≠ mark :: others) :
    Stops p rest := by
  cases rest with
  | nil => simp [Stops]
  | cons c rest =>
    rintro _ ⟨⟩
    exact Bool.eq_false_iff.2 fun hc ↦ h c rest hc rfl

theorem EndsLine.eq_nil_or_cons (h : EndsLine rest) :
    rest = [] ∨ ∃ others, rest = '\n' :: others := by
  cases rest with
  | nil => exact .inl rfl
  | cons c others => exact .inr ⟨others, by rw [h c rfl]⟩

theorem Stops.takeWhile (h : Stops p rest) : rest.takeWhile p = [] := by
  cases rest with
  | nil => rfl
  | cons c rest => simp [h c rfl]

theorem Stops.dropWhile (h : Stops p rest) : rest.dropWhile p = rest := by
  cases rest with
  | nil => rfl
  | cons c rest => simp [h c rfl]

theorem byteSize_append (first second : List Char) :
    byteSize (first ++ second) = byteSize first + byteSize second := by
  have h : ∀ text, byteSize text = (text.map Char.utf8Size).sum := by
    intro text
    rw [List.sum_eq_foldl, List.foldl_map]
    rfl
  simp [h]

namespace Cursor

theorem split_append (text rest : List Char) (pos : Nat) :
    (⟨text ++ rest, pos⟩ : Cursor).split text.length = (text, ⟨rest, pos + byteSize text⟩) := by
  simp [split]

theorem run_append (h : ∀ c ∈ text, p c = true) (hrest : Stops p rest) (pos : Nat) :
    (⟨text ++ rest, pos⟩ : Cursor).run p = (text, ⟨rest, pos + byteSize text⟩) := by
  simp [run, List.takeWhile_append_of_pos h, List.dropWhile_append_of_pos h, hrest.takeWhile,
    hrest.dropWhile]

theorem skip_append (h : ∀ c ∈ text, p c = true) (hrest : Stops p rest) (pos : Nat) :
    (⟨text ++ rest, pos⟩ : Cursor).skip p = ⟨rest, pos + byteSize text⟩ := by
  rw [skip, run_append h hrest]

theorem skip_of_stops {c : Cursor} (h : Stops p c.rest) : c.skip p = c := by
  have hnil : ∀ char ∈ ([] : List Char), p char = true := by simp
  simpa [byteSize] using skip_append hnil h c.pos

theorem expect?_append (text rest : List Char) (pos : Nat) :
    (⟨text ++ rest, pos⟩ : Cursor).expect? text = some ⟨rest, pos + byteSize text⟩ := by
  simp [expect?, drop, split_append]

theorem expect?_eq_none {mark : Char} {marks : List Char} {c : Cursor}
    (h : c.rest.head? ≠ some mark) : c.expect? (mark :: marks) = none := by
  obtain ⟨_ | ⟨first, rest⟩, pos⟩ := c
  · simp [expect?]
  · have : mark ≠ first := fun heq ↦ h (by simp [heq])
    simp [expect?, this]

end Cursor

/-! ### Digits -/

variable {digits : List Char}

/-- Digits of a number in base ten, without leading zeros. -/
structure IsDecimal (digits : List Char) : Prop where
  ne_nil : digits ≠ []
  isDigit : ∀ c ∈ digits, isDigit c = true
  eq_zero : digits.head? = some '0' → digits = ['0']

theorem toDigits_head?_eq_zero (n : Nat) : (Nat.toDigits 10 n).head? = some '0' → n = 0 := by
  induction n using Nat.strongRecOn with
  | ind n ih =>
    intro h
    rcases Nat.lt_or_ge n 10 with hn | hn
    · simpa [Nat.toDigits_of_lt_base hn] using h
    · obtain ⟨d, ds, hds⟩ :=
        List.exists_cons_of_ne_nil (Nat.toDigits_ne_nil (n := n / 10) (b := 10))
      have := ih (n / 10) (by omega)
      rw [Nat.toDigits_of_base_le (by omega) hn] at h
      simp only [hds, List.cons_append, List.head?_cons] at h this
      have := this h
      omega

theorem isDecimal_toDigits (n : Nat) : IsDecimal (Nat.toDigits 10 n) where
  ne_nil := Nat.toDigits_ne_nil
  isDigit c hc := by
    have := Nat.isDigit_of_mem_toDigits (by omega) (by omega) hc
    simpa [isDigit, Char.isDigit, Char.le_def] using this
  eq_zero h := by rw [toDigits_head?_eq_zero n h, Nat.toDigits_zero]

theorem digitValue_of_isDigit {c : Char} (h : isDigit c = true) :
    digitValue c = c.toNat - '0'.toNat := by
  simp only [isDigit, Bool.and_eq_true, decide_eq_true_eq] at h
  simp [digitValue, h.2]

theorem numberOf_toDigits (n : Nat) : numberOf 10 (Nat.toDigits 10 n) = n := by
  have h : ∀ (digits : List Char) (start : Nat), (∀ c ∈ digits, isDigit c = true) →
      digits.foldl (fun n c ↦ 10 * n + digitValue c) start = Nat.ofDigitChars 10 digits start := by
    intro digits start hdigits
    rw [Nat.ofDigitChars_eq_foldl]
    exact List.foldl_ext _ _ _ fun n c hc ↦ by rw [digitValue_of_isDigit (hdigits c hc)]
  rw [numberOf, h _ _ (isDecimal_toDigits n).isDigit, Nat.ofDigitChars_ten_toDigits]

/-! ### Integers -/

/-- The sign that an integer is written with. -/
def signChars (n : Int) : List Char := if n < 0 then ['-'] else []

theorem toList_toString (n : Int) :
    (toString n).toList = signChars n ++ Nat.toDigits 10 n.natAbs := by
  rw [Int.toString_eq_repr, Int.repr_eq_if, signChars]
  split
  next h =>
    have : n.toNat = n.natAbs := by omega
    rw [if_neg (by omega), Nat.toList_repr, this, List.nil_append]
  next h =>
    have : (-n).toNat = n.natAbs := by omega
    rw [if_pos (by omega), String.toList_append, Nat.toList_repr, this]
    rfl

theorem ne_of_isDigit {d mark : Char} (hd : isDigit d = true) (hmark : isDigit mark = false) :
    d ≠ mark := by
  rintro rfl
  simp [hd] at hmark

theorem IsDecimal.exists_cons (h : IsDecimal digits) :
    ∃ d ds, digits = d :: ds ∧ Toml.isDigit d = true := by
  obtain ⟨d, ds, rfl⟩ := List.exists_cons_of_ne_nil h.ne_nil
  exact ⟨d, ds, rfl, h.isDigit d (by simp)⟩

theorem signLength_append (n : Int) (h : IsDecimal digits) (rest : List Char) :
    signLength (signChars n ++ (digits ++ rest)) = (signChars n).length := by
  obtain ⟨d, ds, rfl, hd⟩ := h.exists_cons
  have hplus : d ≠ '+' := ne_of_isDigit hd rfl
  have hminus : d ≠ '-' := ne_of_isDigit hd rfl
  unfold signChars
  split <;> simp [signLength, hplus, hminus]

theorem digitsLength_append (h : ∀ c ∈ digits, isDigit c = true) (hrest : EndsLine rest) :
    digitsLength isDigit (digits ++ rest) = digits.length := by
  induction digits with
  | nil =>
    obtain rfl | ⟨others, rfl⟩ := hrest.eq_nil_or_cons
    · rfl
    · simp [digitsLength, isDigit]
  | cons d digits ih =>
    have hd : isDigit d = true := h d (by simp)
    have : d ≠ '_' := ne_of_isDigit hd rfl
    rw [List.cons_append, digitsLength, if_pos hd, ih fun c hc ↦ h c (by simp [hc])]
    · simp [Nat.add_comm]
    · exact fun _ _ heq _ ↦ this heq

theorem decimalLength?_append (n : Int) (h : IsDecimal digits) (hrest : EndsLine rest) :
    decimalLength? (signChars n ++ (digits ++ rest)) =
      some (signChars n ++ digits).length := by
  have hzero := h.eq_zero
  have hdigits := h.isDigit
  rw [decimalLength?, signLength_append n h, List.drop_left]
  obtain ⟨d, ds, rfl, hd⟩ := h.exists_cons
  by_cases hd0 : d = '0'
  · subst hd0
    obtain rfl : ds = [] := by simpa using hzero
    simp
  · have hds : ∀ c ∈ ds, isDigit c = true := fun c hc ↦ hdigits c (by simp [hc])
    have hlength := digitsLength_append hds hrest
    simp [hd0, digitsLength?, hd, hlength, Nat.add_comm]

theorem floatLengths?_append (n : Int) (h : IsDecimal digits) (hrest : EndsLine rest) :
    floatLengths? (signChars n ++ (digits ++ rest)) = none := by
  rw [floatLengths?, decimalLength?_append n h hrest, ← List.append_assoc, Option.bind_some,
    List.drop_left]
  obtain rfl | ⟨others, rfl⟩ := hrest.eq_nil_or_cons <;> rfl

theorem float?_eq_none (n : Int) (h : IsDecimal digits) (hrest : EndsLine rest) (pos : Nat) :
    float? ⟨signChars n ++ (digits ++ rest), pos⟩ = none := by
  have hnamed : namedFloat? ⟨signChars n ++ (digits ++ rest), pos⟩ = none := by
    obtain ⟨d, ds, rfl, hd⟩ := h.exists_cons
    have hi : d ≠ 'i' := ne_of_isDigit hd rfl
    have hn : d ≠ 'n' := ne_of_isDigit hd rfl
    rw [namedFloat?, signLength_append n h, Cursor.drop, Cursor.split_append,
      Cursor.expect?_eq_none (by simpa using hi), Cursor.expect?_eq_none (by simpa using hn)]
    rfl
  rw [float?, hnamed, decimalFloat?, floatLengths?_append n h hrest]
  rfl

/-! ### Integers are no dates -/

/-- At the end of a line, an integer is not the number before a mark of a date or a time. -/
theorem append_ne_number (n : Int) (h : IsDecimal digits) (hrest : EndsLine rest)
    (number : List Char) (hne : number ≠ []) (hnumber : ∀ c ∈ number, isDigit c = true)
    {mark : Char} (hmark : isDigit mark = false) (hline : mark ≠ '\n') (others : List Char) :
    signChars n ++ (digits ++ rest) ≠ number ++ mark :: others := by
  intro heq
  obtain ⟨d, ds, rfl⟩ := List.exists_cons_of_ne_nil hne
  unfold signChars at heq
  split at heq
  · rw [List.singleton_append, List.cons_append, List.cons.injEq] at heq
    exact ne_of_isDigit (hnumber d (by simp)) rfl heq.1.symm
  · -- behind its digits the text ends its line on the left and has the mark on the right
    have hdrop := congrArg (List.dropWhile isDigit) heq
    rw [List.nil_append, List.dropWhile_append_of_pos h.isDigit,
      List.dropWhile_append_of_pos hnumber, (hrest.stops rfl).dropWhile,
      List.dropWhile_cons_of_neg (by simp [hmark])] at hdrop
    exact hline (hrest mark (by simp [hdrop]))

theorem exists_append_of_fixedNumber? {count low high value : Nat} {c d : Cursor}
    (h : fixedNumber? count low high c = some (value, d)) :
    ∃ number, c.rest = number ++ d.rest ∧ number.length = count ∧
      ∀ digit ∈ number, isDigit digit = true := by
  simp only [fixedNumber?, Cursor.split, Option.ite_none_right_eq_some, Bool.and_eq_true,
    List.all_eq_true, Option.some.injEq, Prod.mk.injEq] at h
  obtain ⟨⟨⟨⟨hlength, hdigits⟩, -⟩, -⟩, -, rfl⟩ := h
  exact ⟨c.rest.take count, (List.take_append_drop ..).symm, of_decide_eq_true hlength, hdigits⟩

theorem exists_cons_of_expect? {mark : Char} {c d : Cursor} (h : c.expect? [mark] = some d) :
    ∃ others, c.rest = mark :: others := by
  simp only [Cursor.expect?, Option.ite_none_right_eq_some, List.isPrefixOf_iff_prefix] at h
  obtain ⟨⟨others, hothers⟩, -⟩ := h
  exact ⟨others, hothers.symm⟩

theorem expect?_eq_none_of_fixedNumber? (n : Int) (h : IsDecimal digits) (hrest : EndsLine rest)
    {pos count low high value : Nat} {c : Cursor}
    (hnumber : fixedNumber? count low high ⟨signChars n ++ (digits ++ rest), pos⟩ = some (value, c))
    (hcount : count ≠ 0) (mark : Char) (hmark : isDigit mark = false) (hline : mark ≠ '\n') :
    c.expect? [mark] = none := by
  rw [Option.eq_none_iff_forall_ne_some]
  intro d hd
  obtain ⟨number, hsplit, hlength, hdigits⟩ := exists_append_of_fixedNumber? hnumber
  obtain ⟨others, hothers⟩ := exists_cons_of_expect? hd
  have hne : number ≠ [] := List.length_pos_iff.1 (by omega)
  exact append_ne_number n h hrest number hne hdigits hmark hline others (hothers ▸ hsplit)

theorem dateTime?_eq_none (n : Int) (h : IsDecimal digits) (hrest : EndsLine rest) (pos : Nat) :
    dateTime? ⟨signChars n ++ (digits ++ rest), pos⟩ = none := by
  have hdate : date? ⟨signChars n ++ (digits ++ rest), pos⟩ = none := by
    rw [date?]
    cases hyear : fixedNumber? 4 0 9999 ⟨signChars n ++ (digits ++ rest), pos⟩ with
    | none => rfl
    | some year =>
      have := expect?_eq_none_of_fixedNumber? n h hrest hyear (by omega) '-' rfl (by decide)
      simp [this]
  have htime : time? ⟨signChars n ++ (digits ++ rest), pos⟩ = none := by
    rw [time?]
    cases hhour : fixedNumber? 2 0 23 ⟨signChars n ++ (digits ++ rest), pos⟩ with
    | none => rfl
    | some hour =>
      have := expect?_eq_none_of_fixedNumber? n h hrest hhour (by omega) ':' rfl (by decide)
      simp [this]
  rw [dateTime?, hdate, htime]

/-! ### Reading integers -/

theorem withoutUnderscores_append (n : Int) (h : IsDecimal digits) :
    withoutUnderscores (signChars n ++ digits) = signChars n ++ digits := by
  rw [withoutUnderscores, List.filter_eq_self]
  intro c hc
  rcases List.mem_append.1 hc with hc | hc
  · unfold signChars at hc
    split at hc <;> simp_all
  · have hne : c ≠ '_' := ne_of_isDigit (h.isDigit c hc) rfl
    simpa using hne

theorem signedOf_append (n : Int) :
    signedOf (signChars n ++ Nat.toDigits 10 n.natAbs) = n := by
  have h := isDecimal_toDigits n.natAbs
  have hvalue := numberOf_toDigits n.natAbs
  unfold signChars
  split
  · rw [List.singleton_append, signedOf, hvalue]
    omega
  · obtain ⟨d, ds, hds, hd⟩ := h.exists_cons
    have hplus : d ≠ '+' := ne_of_isDigit hd rfl
    have hminus : d ≠ '-' := ne_of_isDigit hd rfl
    rw [hds] at hvalue ⊢
    have hsigned : signedOf (d :: ds) = numberOf 10 (d :: ds) := by
      simp [signedOf, hplus, hminus]
    rw [List.nil_append, hsigned, hvalue]
    omega

theorem integer?_append {n : Int} (hn : fitsInteger n = true) (hrest : EndsLine rest) (pos : Nat) :
    integer? ⟨(toString n).toList ++ rest, pos⟩ =
      some (n, ⟨rest, pos + byteSize (toString n).toList⟩) := by
  have h := isDecimal_toDigits n.natAbs
  have hmark : ∀ mark others, isDigit mark = false → mark ≠ '\n' →
      (toString n).toList ++ rest ≠ '0' :: mark :: others := by
    intro mark others hmark hline
    rw [toList_toString, List.append_assoc]
    exact append_ne_number n h hrest ['0'] (by simp) (by simp [isDigit]) hmark hline others
  have hlength : decimalLength? ((toString n).toList ++ rest) =
      some (toString n).toList.length := by
    rw [toList_toString, List.append_assoc, decimalLength?_append n h hrest]
  have hvalue : signedOf (withoutUnderscores (toString n).toList) = n := by
    rw [toList_toString, withoutUnderscores_append n h, signedOf_append]
  unfold integer?
  split
  next others heq => exact absurd heq (hmark _ _ rfl (by decide))
  next others heq => exact absurd heq (hmark _ _ rfl (by decide))
  next others heq => exact absurd heq (hmark _ _ rfl (by decide))
  next => simp only [hlength, Option.bind_some, Cursor.split_append, hvalue, hn, if_true]

/-! ### Strings -/

theorem toNat_lt_of_isTextChar_eq_false {c : Char} (h : isTextChar c = false) :
    c.toNat < 0x80 := by
  simp only [isTextChar, Bool.or_eq_false_iff, decide_eq_false_iff_not] at h
  have := h.2
  simpa [Char.le_def, UInt32.le_iff_toNat_le, UInt32.lt_iff_toNat_lt] using this

theorem digitValue_digitChar : ∀ n < 16, digitValue (Nat.digitChar n) = n := by decide

theorem isHexDigit_digitChar : ∀ n < 16, isHexDigit (Nat.digitChar n) = true := by decide

theorem numberOf_hexDigits (n : Nat) (hn : n < 0x100) : numberOf 16 (hexDigits n) = n := by
  have hzero : digitValue '0' = 0 := rfl
  simp only [numberOf, hexDigits, List.foldl_cons, List.foldl_nil, hzero,
    digitValue_digitChar (n / 16) (by omega), digitValue_digitChar (n % 16) (by omega)]
  omega

theorem isHexDigit_of_mem_hexDigits {n : Nat} (hn : n < 0x100) :
    (hexDigits n).all isHexDigit = true := by
  have hzero : isHexDigit '0' = true := rfl
  simp [hexDigits, hzero, isHexDigit_digitChar (n / 16) (by omega),
    isHexDigit_digitChar (n % 16) (by omega)]

theorem charOf?_toNat (c : Char) : charOf? c.toNat = some c := by
  have h : c.toNat.isValidChar := c.valid
  rw [charOf?, if_pos h, Char.ofNat_toNat]

theorem numbered?_hexDigits {c : Char} (hc : c.toNat < 0x100) (rest : List Char) (pos : Nat) :
    numbered? ⟨hexDigits c.toNat ++ rest, pos⟩ 4 =
      some (c, ⟨rest, pos + byteSize (hexDigits c.toNat)⟩) := by
  have hsplit := Cursor.split_append (hexDigits c.toNat) rest pos
  have hlength : (hexDigits c.toNat).length = 4 := rfl
  rw [hlength] at hsplit
  simp [numbered?, hsplit, hlength, isHexDigit_of_mem_hexDigits hc, numberOf_hexDigits _ hc,
    charOf?_toNat]

theorem basic?_escaped (fuel : Nat) (done : List Char) (c : Char) (rest : List Char) (pos : Nat) :
    basic? (fuel + 1) done ⟨escaped c ++ rest, pos⟩ =
      basic? fuel (c :: done) ⟨rest, pos + byteSize (escaped c)⟩ := by
  unfold escaped
  split
  next h => obtain rfl | rfl := h <;> rfl
  next h =>
    rw [not_or] at h
    split
    next htext =>
      have hdrop : (⟨c :: rest, pos⟩ : Cursor).drop 1 = ⟨rest, pos + byteSize [c]⟩ := rfl
      simp [basic?, h, htext, hdrop]
    next htext =>
      have hc := toNat_lt_of_isTextChar_eq_false (Bool.eq_false_iff.2 htext)
      have hsize : byteSize ('\\' :: 'u' :: hexDigits c.toNat) = 2 + byteSize (hexDigits c.toNat) :=
        byteSize_append ['\\', 'u'] (hexDigits c.toNat)
      calc basic? (fuel + 1) done ⟨'\\' :: 'u' :: hexDigits c.toNat ++ rest, pos⟩
        _ = (numbered? ⟨hexDigits c.toNat ++ rest, pos + 2⟩ 4).bind fun read ↦
            basic? fuel (read.1 :: done) read.2 := rfl
        _ = basic? fuel (c :: done) ⟨rest, pos + 2 + byteSize (hexDigits c.toNat)⟩ := by
          rw [numbered?_hexDigits (by omega), Option.bind_some]
        _ = _ := by rw [hsize, Nat.add_assoc]

theorem basic?_append (text : List Char) {fuel : Nat} (hfuel : text.length < fuel)
    (done rest : List Char) (pos : Nat) :
    basic? fuel done ⟨text.flatMap escaped ++ ['"'] ++ rest, pos⟩ =
      some (done.reverse ++ text, ⟨rest, pos + byteSize (text.flatMap escaped ++ ['"'])⟩) := by
  induction text generalizing fuel done pos with
  | nil =>
    obtain ⟨fuel, rfl⟩ := Nat.exists_eq_succ_of_ne_zero (by omega : fuel ≠ 0)
    have hdrop : (⟨'"' :: rest, pos⟩ : Cursor).drop 1 = ⟨rest, pos + byteSize ['"']⟩ := rfl
    simp [basic?, hdrop]
  | cons c text ih =>
    obtain ⟨fuel, rfl⟩ := Nat.exists_eq_succ_of_ne_zero (by omega : fuel ≠ 0)
    rw [List.length_cons, Nat.succ_lt_succ_iff] at hfuel
    rw [List.flatMap_cons, List.append_assoc, List.append_assoc, basic?_escaped,
      ← List.append_assoc, ih hfuel, List.append_assoc (escaped c), byteSize_append (escaped c)]
    simp [Nat.add_assoc]

theorem length_le_flatMap_escaped (text : List Char) :
    text.length ≤ (text.flatMap escaped).length := by
  have h : ∀ c, 1 ≤ (escaped c).length := by
    intro c
    unfold escaped
    split_ifs <;> simp
  induction text with
  | nil => simp
  | cons c text ih =>
    have := h c
    simp only [List.flatMap_cons, List.length_append, List.length_cons]
    omega

theorem lineString?_quotedChars (text rest : List Char) (pos : Nat) :
    lineString? ⟨quotedChars text ++ rest, pos⟩ =
      some (text, ⟨rest, pos + byteSize (quotedChars text)⟩) := by
  have hlength := length_le_flatMap_escaped text
  have hsize : byteSize (quotedChars text) = 1 + byteSize (text.flatMap escaped ++ ['"']) :=
    byteSize_append ['"'] _
  calc lineString? ⟨quotedChars text ++ rest, pos⟩
    _ = basic? ((text.flatMap escaped ++ ['"'] ++ rest).length + 1) []
        ⟨text.flatMap escaped ++ ['"'] ++ rest, pos + 1⟩ := rfl
    _ = some (text, ⟨rest, pos + 1 + byteSize (text.flatMap escaped ++ ['"'])⟩) := by
      rw [basic?_append text (by simp only [List.length_append]; omega), List.reverse_nil,
        List.nil_append]
    _ = _ := by rw [hsize, Nat.add_assoc]

/-- Behind an empty string at the end of a line there is no third quote. -/
theorem quotedChars_append_ne (text : List Char) (hrest : EndsLine rest) (others : List Char) :
    quotedChars text ++ rest ≠ '"' :: '"' :: '"' :: others := by
  intro h
  cases text with
  | nil =>
    obtain rfl : rest = '"' :: others := by simpa [quotedChars] using h
    simpa using hrest '"' rfl
  | cons c text =>
    simp only [quotedChars, escaped, List.flatMap_cons, List.cons_append, List.cons.injEq,
      true_and] at h
    split_ifs at h with hquote htext <;> simp_all

theorem string?_quotedChars (text : List Char) (hrest : EndsLine rest) (pos : Nat) :
    string? ⟨quotedChars text ++ rest, pos⟩ =
      some (text, ⟨rest, pos + byteSize (quotedChars text)⟩) := by
  rw [← lineString?_quotedChars, string?]
  split
  next heq => exact absurd heq (quotedChars_append_ne text hrest _)
  next heq => simp [quotedChars] at heq
  next => rfl

/-! ### Values -/

/-- The value at a place of a text. -/
def Scalar.node (span : Span) : Scalar → Node
  | integer n => .integer span n
  | string text => .string span text

theorem toList_toString_append_ne (n : Int) (mark : Char) (hminus : mark ≠ '-')
    (hmark : isDigit mark = false) (rest others : List Char) :
    (toString n).toList ++ rest ≠ mark :: others := by
  obtain ⟨d, ds, hds, hd⟩ := (isDecimal_toDigits n.natAbs).exists_cons
  rw [toList_toString, hds, signChars]
  split
  · simp [hminus.symm]
  · simp [ne_of_isDigit hd hmark]

theorem scalar?_chars_append {s : Scalar} (hs : s.fits = true) (hrest : EndsLine rest) (pos : Nat) :
    scalar? ⟨s.chars ++ rest, pos⟩ =
      some (s.node ⟨pos, pos + byteSize s.chars⟩, ⟨rest, pos + byteSize s.chars⟩) := by
  cases s with
  | string text =>
    calc scalar? ⟨quotedChars text.toList ++ rest, pos⟩
      _ = (string? ⟨quotedChars text.toList ++ rest, pos⟩).map fun read ↦
          (.string ⟨pos, read.2.pos⟩ (String.ofList read.1), read.2) := rfl
      _ = _ := by
        simp only [string?_quotedChars text.toList hrest, Option.map_some, String.ofList_toList]
        rfl
  | integer n =>
    have h := isDecimal_toDigits n.natAbs
    have hdate : dateTime? ⟨(toString n).toList ++ rest, pos⟩ = none := by
      rw [toList_toString, List.append_assoc, dateTime?_eq_none n h hrest]
    have hfloat : float? ⟨(toString n).toList ++ rest, pos⟩ = none := by
      rw [toList_toString, List.append_assoc, float?_eq_none n h hrest]
    have hne := fun mark hminus hmark ↦ toList_toString_append_ne n mark hminus hmark rest
    unfold scalar? Scalar.chars
    split
    next heq => exact absurd heq (hne _ (by decide) rfl _)
    next heq => exact absurd heq (hne _ (by decide) rfl _)
    next heq => exact absurd heq (hne _ (by decide) rfl _)
    next heq => exact absurd heq (hne _ (by decide) rfl _)
    next =>
      simp only [hdate, hfloat, integer?_append hs hrest, Option.map_some]
      rfl

theorem Scalar.chars_append_ne (s : Scalar) (mark : Char) (hquote : mark ≠ '"')
    (hminus : mark ≠ '-') (hmark : isDigit mark = false) (rest others : List Char) :
    s.chars ++ rest ≠ mark :: others := by
  cases s with
  | integer n => exact toList_toString_append_ne n mark hminus hmark rest others
  | string text => simp [Scalar.chars, quotedChars, hquote.symm]

/-- What is written is read back at the end of a line, with its place. -/
theorem value?_chars_append {s : Scalar} (hs : s.fits = true) (hrest : EndsLine rest)
    (nesting pos : Nat) :
    value? nesting ⟨s.chars ++ rest, pos⟩ =
      some (s.node ⟨pos, pos + byteSize s.chars⟩, ⟨rest, pos + byteSize s.chars⟩) := by
  have hne := fun mark hquote hminus hmark ↦ s.chars_append_ne mark hquote hminus hmark rest
  rw [← scalar?_chars_append hs hrest]
  cases nesting with
  | zero => rfl
  | succ nesting =>
    unfold value?
    split
    next heq => exact absurd heq (hne _ (by decide) (by decide) rfl _)
    next heq => exact absurd heq (hne _ (by decide) (by decide) rfl _)
    next => rfl

end Toml

end MipsBlocks
