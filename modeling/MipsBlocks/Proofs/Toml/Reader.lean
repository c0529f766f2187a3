import MipsBlocks.Proofs.Toml.Lines
import MipsBlocks.Toml.Reader

/-!
# The library can be relied on

`Toml.reader` does what users rely on of a library (`lawful_reader`). The fields of a record are
read in the order of the document, but what they give does not depend on it: with distinct keys each
field is read from the only entry that has its name (`RecordShape.foldlM_readField`).
-/

set_option autoImplicit false
set_option relaxedAutoImplicit false

namespace MipsBlocks

namespace Toml

/-! ### Values -/

theorem readNat_integer {r : NatRange} {node : Node} {n : Nat}
    (h : node.scalar? = some (.integer n)) (hn : n < r.size) : readNat r node = .ok n := by
  cases node with
  | integer span m =>
    obtain rfl : m = n := by simpa [Node.scalar?] using h
    rw [readNat, if_pos (by omega), Int.toNat_natCast]
  | _ => simp [Node.scalar?] at h

theorem readName_string {α : Type} {choices : List α} {name : α → String} {node : Node} {a : α}
    (h : node.scalar? = some (.string (name a)))
    (hchoice : choices.find? (name · = name a) = some a) : readName choices name node = .ok a := by
  cases node with
  | string span text =>
    obtain rfl : text = name a := by simpa [Node.scalar?] using h
    rw [readName, readName.choose, hchoice]
  | _ => simp [Node.scalar?] at h

theorem readEntry_eq_ok {α : Type} {read : Node → Except LocatedMisfit α} {entry : Key × Node}
    {a : α} (h : read entry.2 = .ok a) : readEntry read entry = .ok a := by
  rw [readEntry, h]
  rfl

/-- Lines are read as entries with their keys and values. -/
theorem map_scalar?_entriesFrom (pos : Nat) (lines : List Line) :
    (entriesFrom pos lines).map (fun e ↦ (e.1.text, e.2.scalar?)) =
      lines.map fun l ↦ (l.key, some l.value) := by
  induction lines generalizing pos with
  | nil => rfl
  | cons l lines ih =>
    have hvalue : (l.nodeAt pos).scalar? = some l.value := by
      rw [Line.nodeAt]
      cases l.value <;> rfl
    rw [entriesFrom, List.map_cons, List.map_cons, ih, hvalue]
    rfl

/-! ### Records -/

namespace RecordShape

variable {Value Field Record : Type} (shape : RecordShape Value Field Record)

theorem field?_eq_some_iff {key : String} {f : Field} :
    shape.field? key = some f ↔ shape.name f = key := by
  have hnamed : ∀ g, shape.field? key = some g → shape.name g = key := fun g hg ↦ by
    rw [field?] at hg
    simpa using List.find?_some hg
  refine ⟨hnamed f, fun hf ↦ ?_⟩
  have hsome : (shape.field? key).isSome = true :=
    List.find?_isSome.mpr ⟨f, shape.mem_fields f, decide_eq_true hf⟩
  obtain ⟨g, hg⟩ := Option.isSome_iff_exists.mp hsome
  rw [hg, shape.name_injective g f ((hnamed g hg).trans hf.symm)]

variable [DecidableEq Field]

theorem give_self (given : (f : Field) → Option (shape.Content f)) (f : Field)
    (x : shape.Content f) : shape.give given f x f = some x := dif_pos rfl

theorem give_of_ne (given : (f : Field) → Option (shape.Content f)) {f g : Field}
    (x : shape.Content f) (h : f ≠ g) : shape.give given f x g = given g := dif_neg h

theorem lookup_cons_of_ne {key name : String} (value : Value) (entries : List (String × Value))
    (h : name ≠ key) : List.lookup name ((key, value) :: entries) = entries.lookup name := by
  rw [List.lookup_cons, beq_eq_false_iff_ne.mpr h]

/-- If the first entry gives a field, its value is read as what the field holds, and the other
entries give the other fields. -/
theorem exists_read_of_cons {f : Field} {value : Value} {entries : List (String × Value)}
    (hnew : shape.name f ∉ entries.map (·.1)) {given : (f : Field) → Option (shape.Content f)}
    (hread : ∀ g, (List.lookup (shape.name g) ((shape.name f, value) :: entries)).mapM
      (shape.read g) = .ok (given g)) :
    ∃ x, shape.read f value = .ok x ∧ given f = some x ∧
      ∀ g, (entries.lookup (shape.name g)).mapM (shape.read g) =
        .ok (if f = g then none else given g) := by
  have hf := hread f
  rw [List.lookup_cons_self, Option.mapM_some] at hf
  cases hx : shape.read f value with
  | error e => simp [hx] at hf
  | ok x =>
    refine ⟨x, rfl, by simpa [hx] using hf.symm, fun g ↦ ?_⟩
    by_cases h : f = g
    · subst h
      have hnone : entries.lookup (shape.name f) = none :=
        List.lookup_eq_none_iff.mpr fun entry hentry ↦ bne_iff_ne.mpr fun hname ↦
          hnew (List.mem_map.mpr ⟨entry, hentry, hname.symm⟩)
      rw [if_pos rfl, hnone]
      rfl
    · have hname : shape.name g ≠ shape.name f := fun hname ↦
        h (shape.name_injective f g hname.symm)
      rw [if_neg h, ← hread g, lookup_cons_of_ne value entries hname]

/-- By induction on the entries: the contents behind them are those that they give, and those from
before them elsewhere. -/
theorem foldlM_readField {entries : List (String × Value)} (hkeys : (entries.map (·.1)).Nodup)
    (before given : (f : Field) → Option (shape.Content f))
    (hread : ∀ f, (entries.lookup (shape.name f)).mapM (shape.read f) = .ok (given f)) :
    entries.foldlM shape.readField before = .ok fun f ↦ (given f).or (before f) := by
  induction entries generalizing before given with
  | nil =>
    have hnone : ∀ f, given f = none := fun f ↦ (Except.ok.inj (hread f)).symm
    simp only [hnone, Option.none_or]
    rfl
  | cons entry entries ih =>
    obtain ⟨key, value⟩ := entry
    rw [List.map_cons, List.nodup_cons] at hkeys
    cases hfield : shape.field? key with
    | none =>
      have hname : ∀ f, shape.name f ≠ key := fun f hf ↦
        absurd (shape.field?_eq_some_iff.mpr hf) (by simp [hfield])
      rw [List.foldlM_cons, readField, hfield]
      exact ih hkeys.2 before given fun f ↦
        (lookup_cons_of_ne value entries (hname f)) ▸ hread f
    | some f =>
      obtain rfl := shape.field?_eq_some_iff.mp hfield
      obtain ⟨x, hx, hgiven, hrest⟩ := shape.exists_read_of_cons hkeys.1 hread
      rw [List.foldlM_cons, readField, hfield]
      simp only [hx]
      refine (ih hkeys.2 (shape.give before f x) _ hrest).trans
        (congrArg Except.ok (funext fun g ↦ ?_))
      by_cases h : f = g
      · subst h
        rw [if_pos rfl, shape.give_self, Option.none_or, hgiven, Option.some_or]
      · rw [if_neg h, shape.give_of_ne before x h]

/-- A record is made of what its fields are read as. -/
theorem readAll_eq_ok {entries : List (String × Value)} (hkeys : (entries.map (·.1)).Nodup)
    {given : (f : Field) → Option (shape.Content f)}
    (hread : ∀ f, (entries.lookup (shape.name f)).mapM (shape.read f) = .ok (given f)) :
    shape.readAll entries = .ok (shape.make given) := by
  rw [readAll, shape.foldlM_readField hkeys _ given hread]
  simp only [Option.or_none]
  rfl

end RecordShape

/-! ### The library -/

theorem lawful_reader (unreadable : Refusal) : (reader unreadable).Lawful where
  parse_writeLines ended lines hlines hkeys := by
    refine ⟨(entriesFrom 0 lines).map fun entry ↦ (entry.1.text, entry), ?_, ?_⟩
    · simp only [reader, parse?_writeLines ended hlines hkeys]
    · have hmap : ((entriesFrom 0 lines).map fun entry ↦ (entry.1.text, entry)).map
          (fun e : String × Key × Node ↦ (e.1, e.2.2.scalar?)) =
            lines.map fun l ↦ (l.key, some l.value) := by
        rw [List.map_map]
        exact map_scalar?_entriesFrom 0 lines
      exact .of_eq hmap
  number_integer r v n hv hn := readEntry_eq_ok (readNat_integer hv hn)
  choice_string choices name v a hv hchoice := readEntry_eq_ok (readName_string hv hchoice)
  record_of_read shape entries given hkeys hread := shape.readAll_eq_ok hkeys hread

end Toml

end MipsBlocks
