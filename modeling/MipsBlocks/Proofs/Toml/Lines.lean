import MipsBlocks.Proofs.Toml.Scalars
import MipsBlocks.Toml.Document

/-!
# Lines, written and read

A document of `key = value` lines, with keys that need no quotes, is read back as the list of its
keys and values in the order of the lines (`parse?_writeLines`). Each key and each value has the
place where its characters stand in the text.
-/

set_option autoImplicit false
set_option relaxedAutoImplicit false

namespace MipsBlocks

namespace Toml

/-! ### Places -/

namespace Line

/-- The key of a line that is written at a place. -/
def keyAt (pos : Nat) (l : Line) : Key := ⟨l.key, ⟨pos, pos + byteSize l.key.toList⟩⟩

/-- The value of a line that is written at a place. -/
def nodeAt (pos : Nat) (l : Line) : Node :=
  l.value.node ⟨pos + byteSize l.key.toList + 3, pos + byteSize l.chars⟩

end Line

/-- The entries of a document with the given lines, the first of which is written at a place. -/
def entriesFrom (pos : Nat) : List Line → Entries
  | [] => []
  | l :: lines => (l.keyAt pos, l.nodeAt pos) :: entriesFrom (pos + byteSize l.chars + 1) lines

/-! ### Reading a line -/

theorem bare_append_ne {key rest : List Char} (hne : key ≠ [])
    (hbare : ∀ c ∈ key, isBareKeyChar c = true) {mark : Char} (hmark : isBareKeyChar mark = false)
    (others : List Char) : key ++ rest ≠ mark :: others := by
  obtain ⟨c, cs, rfl⟩ := List.exists_cons_of_ne_nil hne
  intro h
  obtain rfl : c = mark := (List.cons.inj h).1
  simp [hmark] at hbare

namespace Line

variable {l : Line} {rest : List Char}

theorem key?_append (hl : l.Valid) (hrest : Stops isBareKeyChar rest) (pos : Nat) :
    key? ⟨l.key.toList ++ rest, pos⟩ =
      some (l.keyAt pos, ⟨rest, pos + byteSize l.key.toList⟩) := by
  have hne : ∀ mark others, isBareKeyChar mark = false → l.key.toList ++ rest ≠ mark :: others :=
    fun _ others hmark ↦ bare_append_ne hl.key_ne_nil hl.bare hmark others
  unfold key?
  split
  next heq => exact absurd heq (hne _ _ rfl)
  next heq => exact absurd heq (hne _ _ rfl)
  next =>
    rw [Cursor.run_append hl.bare hrest]
    split
    next heq => exact absurd (congrArg Prod.fst heq) hl.key_ne_nil
    next heq =>
      obtain ⟨rfl, rfl⟩ := Prod.mk.inj heq
      rw [String.ofList_toList]
      rfl

theorem Valid.chars_append_ne (hl : l.Valid) (mark : Char) (hmark : isBareKeyChar mark = false)
    (rest others : List Char) : l.chars ++ rest ≠ mark :: others := by
  rw [chars, List.append_assoc]
  exact bare_append_ne hl.key_ne_nil hl.bare hmark others

theorem Valid.stops_isBlank (hl : l.Valid) : Stops Cursor.isBlank (l.key.toList ++ rest) := by
  refine stops_of_ne fun mark others hmark ↦ bare_append_ne hl.key_ne_nil hl.bare ?_ others
  simp only [Cursor.isBlank, Bool.or_eq_true, decide_eq_true_eq] at hmark
  obtain rfl | rfl := hmark <;> rfl

/-- The key of a line with the sign behind it. -/
theorem dottedKey?_append (hl : l.Valid) (rest : List Char) (pos : Nat) :
    dottedKey? ⟨l.key.toList ++ ' ' :: '=' :: rest, pos⟩ =
      some (⟨[], l.keyAt pos⟩, ⟨'=' :: rest, pos + byteSize l.key.toList + 1⟩) := by
  have hskip : (⟨l.key.toList ++ ' ' :: '=' :: rest, pos⟩ : Cursor).skipBlanks = _ :=
    Cursor.skip_of_stops hl.stops_isBlank
  have hstop : Stops isBareKeyChar (' ' :: '=' :: rest) := by
    rintro _ ⟨⟩
    rfl
  have hkey := key?_append hl hstop pos
  have hpath : keyPath? maxNesting ⟨l.key.toList ++ ' ' :: '=' :: rest, pos⟩ =
      some ([l.keyAt pos], ⟨'=' :: rest, pos + byteSize l.key.toList + 1⟩) := by
    rw [maxNesting, keyPath?, hskip, hkey]
    rfl
  rw [dottedKey?, hpath]
  rfl

theorem keyValue?_chars_append (hl : l.Valid) (hrest : EndsLine rest) (nesting pos : Nat) :
    keyValue? (value? nesting) ⟨l.chars ++ rest, pos⟩ =
      some (⟨[], l.keyAt pos⟩, l.nodeAt pos, ⟨rest, pos + byteSize l.chars⟩) := by
  have hblank : Stops Cursor.isBlank (l.value.chars ++ rest) := by
    refine stops_of_ne fun mark others hmark ↦ ?_
    simp only [Cursor.isBlank, Bool.or_eq_true, decide_eq_true_eq] at hmark
    obtain rfl | rfl := hmark
    · exact l.value.chars_append_ne ' ' (by decide) (by decide) rfl rest others
    · exact l.value.chars_append_ne '\t' (by decide) (by decide) rfl rest others
  have hspace : ∀ char ∈ [' '], Cursor.isBlank char = true := by simp [Cursor.isBlank]
  have hexpect : (⟨'=' :: ' ' :: (l.value.chars ++ rest), pos + byteSize l.key.toList + 1⟩ :
      Cursor).expect? ['='] =
        some ⟨' ' :: (l.value.chars ++ rest), pos + byteSize l.key.toList + 1 + 1⟩ :=
    Cursor.expect?_append ['='] _ _
  have hskip : (⟨' ' :: (l.value.chars ++ rest), pos + byteSize l.key.toList + 1 + 1⟩ :
      Cursor).skipBlanks = ⟨l.value.chars ++ rest, pos + byteSize l.key.toList + 3⟩ :=
    Cursor.skip_append hspace hblank _
  have hsize : byteSize l.chars = byteSize l.key.toList + 3 + byteSize l.value.chars := by
    rw [chars, byteSize_append, byteSize_append, ← Nat.add_assoc]
    rfl
  have hassoc : l.chars ++ rest =
      l.key.toList ++ ' ' :: '=' :: ' ' :: (l.value.chars ++ rest) := by
    simp [chars]
  rw [hassoc, keyValue?, dottedKey?_append hl]
  simp only [Option.bind_eq_bind, Option.bind_some, hexpect, hskip,
    value?_chars_append hl.fits hrest]
  rw [nodeAt, hsize, ← Nat.add_assoc, ← Nat.add_assoc]
  rfl

end Line

theorem lineEnd?_of_endsLine {rest : List Char} (hrest : EndsLine rest) (pos : Nat) :
    (⟨rest, pos⟩ : Cursor).lineEnd? = some ⟨rest.tail, pos + byteSize (rest.take 1)⟩ := by
  obtain rfl | ⟨others, rfl⟩ := hrest.eq_nil_or_cons <;> rfl

theorem read?_chars_append {l : Line} (hl : l.Valid) {rest : List Char} (hrest : EndsLine rest)
    (pos : Nat) :
    Statement.read? ⟨l.chars ++ rest, pos⟩ =
      some (.pair ⟨[], l.keyAt pos⟩ (l.nodeAt pos),
        ⟨rest.tail, pos + byteSize l.chars + byteSize (rest.take 1)⟩) := by
  have hne := fun mark hmark ↦ hl.chars_append_ne mark hmark rest
  have hpair := Line.keyValue?_chars_append hl hrest maxNesting pos
  unfold Statement.read?
  split
  next heq => exact absurd heq (hne _ rfl _)
  next heq => exact absurd heq (hne _ rfl _)
  next => simp [hpair, lineEnd?_of_endsLine hrest]

/-! ### Reading a document -/

/-- A text of lines begins with its first line; the end of that line is told apart. -/
theorem exists_writeLines_cons (ended : Bool) (l : Line) (lines : List Line) :
    ∃ rest, writeLines ended (l :: lines) = l.chars ++ rest ∧ EndsLine rest ∧
      rest.tail = writeLines ended lines ∧
      ∀ pos, entriesFrom (pos + byteSize (rest.take 1)) lines = entriesFrom (pos + 1) lines := by
  cases lines with
  | nil => cases ended <;> exact ⟨_, rfl, by simp [EndsLine], rfl, fun _ ↦ rfl⟩
  | cons next lines => exact ⟨_, rfl, by simp [EndsLine], rfl, fun _ ↦ rfl⟩

theorem length_le_writeLines (ended : Bool) (lines : List Line) :
    lines.length ≤ (writeLines ended lines).length := by
  induction lines with
  | nil => simp
  | cons l lines ih =>
    obtain ⟨rest, heq, -, htail, -⟩ := exists_writeLines_cons ended l lines
    rw [← htail, List.length_tail] at ih
    simp only [heq, Line.chars, List.length_append, List.length_cons, List.length_nil]
    omega

/-- The pair that an entry is written as: its key has one part. -/
def onePart (entry : Key × Node) : DottedKey × Node := (⟨[], entry.1⟩, entry.2)

/-- The statement that an entry is written as. -/
def pairOf (entry : Key × Node) : Statement := .pair (onePart entry).1 (onePart entry).2

theorem readAll?_writeLines (ended : Bool) (lines : List Line) (hlines : ∀ l ∈ lines, l.Valid)
    {fuel : Nat} (hfuel : lines.length < fuel) (done : List Statement) (pos : Nat) :
    Statement.readAll? fuel done ⟨writeLines ended lines, pos⟩ =
      some (done.reverse ++ (entriesFrom pos lines).map pairOf) := by
  induction lines generalizing fuel done pos with
  | nil =>
    obtain ⟨fuel, rfl⟩ := Nat.exists_eq_succ_of_ne_zero (by omega : fuel ≠ 0)
    rw [entriesFrom, List.map_nil, List.append_nil]
    rfl
  | cons l lines ih =>
    obtain ⟨fuel, rfl⟩ := Nat.exists_eq_succ_of_ne_zero (by omega : fuel ≠ 0)
    rw [List.length_cons, Nat.succ_lt_succ_iff] at hfuel
    obtain ⟨rest, heq, hends, htail, hentries⟩ := exists_writeLines_cons ended l lines
    have hl := hlines l (by simp)
    have hne := fun mark hmark ↦ hl.chars_append_ne mark hmark rest
    have hskip : (⟨l.chars ++ rest, pos⟩ : Cursor).skipBlanks = ⟨l.chars ++ rest, pos⟩ := by
      rw [Line.chars, List.append_assoc]
      exact Cursor.skip_of_stops hl.stops_isBlank
    rw [heq, Statement.readAll?]
    simp only [hskip]
    split
    next hnil => simp [Line.chars] at hnil
    next hmark => exact absurd hmark (hne _ rfl _)
    next hmark => exact absurd hmark (hne _ rfl _)
    next hmark => exact absurd hmark (hne _ rfl _)
    next =>
      rw [read?_chars_append hl hends, Option.bind_some, htail,
        ih (fun l hl ↦ hlines l (by simp [hl])) hfuel, hentries]
      simp [entriesFrom, pairOf, onePart]

theorem ofText?_writeLines (ended : Bool) {lines : List Line} (hlines : ∀ l ∈ lines, l.Valid) :
    Statement.ofText? (writeLines ended lines) = some ((entriesFrom 0 lines).map pairOf) := by
  have hmark : (writeLines ended lines).head? ≠ some Statement.byteOrderMark := by
    cases lines with
    | nil => simp [writeLines]
    | cons l lines =>
      obtain ⟨rest, heq, -⟩ := exists_writeLines_cons ended l lines
      have hne := (hlines l (by simp)).chars_append_ne Statement.byteOrderMark rfl rest
      intro h
      obtain ⟨others, hothers⟩ := List.head?_eq_some_iff.1 h
      exact hne others (heq ▸ hothers)
  have hlength := length_le_writeLines ended lines
  rw [Statement.ofText?, Cursor.start, Cursor.expect?_eq_none hmark, Option.getD_none,
    readAll?_writeLines ended lines hlines (by omega), List.reverse_nil, List.nil_append]

theorem ofStatements_pairs (entries : Entries) :
    Section.ofStatements (entries.map pairOf) =
      [⟨.document, entries.map onePart⟩] := by
  have h : ∀ current : Section,
      (entries.map pairOf).foldl Section.ofStatements.step ([], current) =
        ([], { current with pairs := (entries.map onePart).reverse ++ current.pairs }) := by
    induction entries with
    | nil => simp
    | cons entry entries ih =>
      intro current
      simp [pairOf, Section.ofStatements.step, ih]
  simp [Section.ofStatements, h, Section.ofStatements.finish]

theorem insertNew_of_notMem {key : Key} {node : Node} {entries : Entries}
    (h : ∀ entry ∈ entries, entry.1.text ≠ key.text) :
    entries.insertNew key node = some (entries ++ [(key, node)]) := by
  rw [Entries.insertNew]
  induction entries with
  | nil => rfl
  | cons entry entries ih =>
    rw [Entries.alter, if_neg (h entry (by simp)), ih fun e he ↦ h e (by simp [he])]
    rfl

/-- Pairs with distinct keys of one part are added in order. -/
theorem foldlM_assign (entries start : Entries) (h : ((start ++ entries).map (·.1.text)).Nodup) :
    (entries.map onePart).foldlM
      (fun entries (key, node) ↦ entries.assign key.path key.last node) start =
        some (start ++ entries) := by
  induction entries generalizing start with
  | nil => simp
  | cons entry entries ih =>
    have hnew : ∀ e ∈ start, e.1.text ≠ entry.1.text := by
      rw [List.map_append, List.nodup_append] at h
      intro e he
      exact h.2.2 _ (List.mem_map_of_mem he) _ (by simp)
    have hassign : start.assign [] entry.1 entry.2 = some (start ++ [entry]) :=
      insertNew_of_notMem hnew
    rw [List.map_cons, List.foldlM_cons]
    simp only [onePart, hassign, Option.bind_eq_bind, Option.bind_some]
    rw [ih _ (by simpa using h), List.append_assoc, List.singleton_append]

theorem map_text_entriesFrom (pos : Nat) (lines : List Line) :
    (entriesFrom pos lines).map (·.1.text) = lines.map (·.key) := by
  induction lines generalizing pos with
  | nil => rfl
  | cons l lines ih => rw [entriesFrom, List.map_cons, List.map_cons, ih]; rfl

/-- A document of lines with distinct keys is read as its keys and values in order. -/
theorem parse?_writeLines (ended : Bool) {lines : List Line} (hlines : ∀ l ∈ lines, l.Valid)
    (hkeys : (lines.map (·.key)).Nodup) :
    parse? (String.ofList (writeLines ended lines)) = some (entriesFrom 0 lines) := by
  have hfold := foldlM_assign (entriesFrom 0 lines) []
    (by rwa [List.nil_append, map_text_entriesFrom])
  rw [parse?, String.toList_ofList, ofText?_writeLines ended hlines]
  simp [ofStatements_pairs, Section.place, Section.fill, hfold]

end Toml

end MipsBlocks
