import MipsBlocks.Config.Text
import MipsBlocks.Proofs.Toml.Reader

/-!
# Configurations, written and read

A configuration is written as a text with one line for each of some of its fields, in any order, and
with lines of other keys between them (`Config.text`). A library that can be relied on reads the
text as the configuration that keeps the written fields and has the defaults elsewhere
(`Config.keep`): the text gives what the validation of that configuration gives, so the order of the
lines does not matter (`Config.readsBack_of_representable`). Values are judged only when all lines
are read: a text that gives one bound of the window is valid if that bound goes with the default of
the other.

Assumes: the library does what `Toml.Library.Lawful` says, as `Toml.reader` does.
-/

set_option autoImplicit false
set_option relaxedAutoImplicit false

namespace MipsBlocks

open Toml (Library Line Scalar)

/-! ### What is written -/

namespace Config

/-- Whether the numbers of a configuration have the sizes of its fields. A text holds integers of 64
bits with a sign, so the largest depths cannot be written. -/
structure Representable (c : Config) : Prop where
  windowStart_lt : c.windowStart < UInt32.size
  windowEnd_lt : c.windowEnd < UInt32.size
  maxSequence_lt : c.maxSequence < UInt32.size
  maxStackDepth_lt : c.maxStackDepth < 0x8000000000000000
  pageShift_lt : c.pageShift < UInt8.size

/-- The value of a field as it is written. -/
def scalar (c : Config) : ConfigField → Scalar
  | .flavor => .string c.flavor.name
  | .windowStart => .integer c.windowStart
  | .windowEnd => .integer c.windowEnd
  | .maxSequence => .integer c.maxSequence
  | .maxStackDepth => .integer c.maxStackDepth
  | .pageShift => .integer c.pageShift
  | .addressSpace => .string c.addressSpace.name

/-- What a field of a configuration holds. -/
def get (c : Config) : (f : ConfigField) → f.Content
  | .flavor => c.flavor
  | .windowStart => c.windowStart
  | .windowEnd => c.windowEnd
  | .maxSequence => c.maxSequence
  | .maxStackDepth => c.maxStackDepth
  | .pageShift => c.pageShift
  | .addressSpace => c.addressSpace

/-- The configuration with some of its fields; the others have their defaults. -/
def keep (c : Config) (fields : List ConfigField) : Config :=
  let default : Config := {}
  { flavor := if .flavor ∈ fields then c.flavor else default.flavor
    windowStart := if .windowStart ∈ fields then c.windowStart else default.windowStart
    windowEnd := if .windowEnd ∈ fields then c.windowEnd else default.windowEnd
    maxSequence := if .maxSequence ∈ fields then c.maxSequence else default.maxSequence
    maxStackDepth := if .maxStackDepth ∈ fields then c.maxStackDepth else default.maxStackDepth
    pageShift := if .pageShift ∈ fields then c.pageShift else default.pageShift
    addressSpace := if .addressSpace ∈ fields then c.addressSpace else default.addressSpace }

end Config

/-- A line of a configuration text. -/
inductive ConfigLine where
  | field (f : ConfigField)
  /-- A line with the key of no field. -/
  | other (line : Line)
  deriving DecidableEq

namespace ConfigLine

def key : ConfigLine → String
  | field f => f.name
  | other line => line.key

def field? : ConfigLine → Option ConfigField
  | field f => some f
  | other _ => none

/-- The fields that are written. -/
def fields (lines : List ConfigLine) : List ConfigField := lines.filterMap field?

/-- The line as it is written for a configuration. -/
def line (c : Config) : ConfigLine → Line
  | field f => ⟨f.name, c.scalar f⟩
  | other line => line

/-- Whether a line can stand in a configuration text: those with other keys are lines of a document
whose keys are not names of fields. -/
def Valid : ConfigLine → Prop
  | field _ => True
  | other line => line.Valid ∧ ConfigField.ofName? line.key = none

/-- Lines that make up a configuration text: no key occurs twice. -/
structure WellFormed (lines : List ConfigLine) : Prop where
  valid : ∀ l ∈ lines, l.Valid
  distinct : (lines.map key).Nodup

end ConfigLine

namespace Config

/-- The text with the given lines; `ended` says whether the last one has an end. -/
def text (c : Config) (ended : Bool) (lines : List ConfigLine) : String :=
  String.ofList (Toml.writeLines ended (lines.map (·.line c)))

example : ({ flavor := .r5000, maxSequence := 32 } : Config).text false
    [.field .flavor, .field .maxSequence] = "flavor = \"r5000\"\nmax_sequence = 32" := by decide

/-- What a library makes of a text with the given lines. -/
structure ReadsBack (c : Config) (lib : Library) (ended : Bool) (lines : List ConfigLine) :
    Prop where
  validates : ofText lib (c.text ended lines) = (c.keep (ConfigLine.fields lines)).validate
  /-- What is valid is returned as it is. -/
  returns : ∀ v, ofText lib (c.text ended lines) = .ok v → v.1 = c.keep (ConfigLine.fields lines)
  /-- What is not valid is refused for its first defect. -/
  refuses : ∀ e, ofText lib (c.text ended lines) = .error e →
    ∃ d, (c.keep (ConfigLine.fields lines)).defect? = some d ∧ e = d.toError
  order : ∀ others, lines.Perm others →
    ofText lib (c.text ended others) = ofText lib (c.text ended lines)

/-! ### The lines are those of a document -/

variable {c : Config}

theorem fitsInteger_of_lt {n : Nat} (h : n < 0x8000000000000000) :
    Toml.fitsInteger n = true := by
  have hmin : Int64.minValue.toInt = -0x8000000000000000 := by decide
  have hmax : Int64.maxValue.toInt = 0x7fffffffffffffff := by decide
  simp only [Toml.fitsInteger, hmin, hmax, Bool.and_eq_true, decide_eq_true_eq]
  omega

theorem fits_scalar (hc : c.Representable) (f : ConfigField) : (c.scalar f).fits = true := by
  have hword : UInt32.size = 0x100000000 := rfl
  have hbyte : UInt8.size = 0x100 := rfl
  obtain ⟨hstart, hend, hsequence, hdepth, hshift⟩ := hc
  cases f with
  | flavor => rfl
  | addressSpace => rfl
  | windowStart => exact fitsInteger_of_lt (by omega)
  | windowEnd => exact fitsInteger_of_lt (by omega)
  | maxSequence => exact fitsInteger_of_lt (by omega)
  | maxStackDepth => exact fitsInteger_of_lt hdepth
  | pageShift => exact fitsInteger_of_lt (by omega)

theorem valid_line (hc : c.Representable) {l : ConfigLine} (hl : l.Valid) :
    (l.line c).Valid := by
  cases l with
  | other line => exact hl.1
  | field f =>
    have hname : f.name.toList ≠ [] ∧ f.name.toList.all Toml.isBareKeyChar = true := by
      cases f <;> decide
    exact ⟨hname.1, List.all_eq_true.1 hname.2, fits_scalar hc f⟩

theorem key_line (l : ConfigLine) : (l.line c).key = l.key := by
  cases l <;> rfl

/-! ### Reading the fields -/

variable {lib : Library}

theorem read_eq_get (hlib : lib.Lawful) (hc : c.Representable) {f : ConfigField} {v : lib.Value}
    (hv : lib.scalar? v = some (c.scalar f)) : f.read lib v = .ok (c.get f) := by
  cases f with
  | flavor => exact hlib.choice_string _ _ v c.flavor hv (Flavor.ofName?_name c.flavor)
  | addressSpace =>
    exact hlib.choice_string _ _ v c.addressSpace hv (AddressSpace.ofName?_name c.addressSpace)
  | windowStart => exact hlib.number_integer .word v c.windowStart hv hc.windowStart_lt
  | windowEnd => exact hlib.number_integer .word v c.windowEnd hv hc.windowEnd_lt
  | maxSequence => exact hlib.number_integer .word v c.maxSequence hv hc.maxSequence_lt
  | maxStackDepth =>
    have hdepth : c.maxStackDepth < Toml.NatRange.doubleWord.size :=
      Nat.lt_trans hc.maxStackDepth_lt (by decide)
    exact hlib.number_integer .doubleWord v c.maxStackDepth hv hdepth
  | pageShift => exact hlib.number_integer .byte v c.pageShift hv hc.pageShift_lt

theorem mem_fields_iff {f : ConfigField} {lines : List ConfigLine} :
    f ∈ ConfigLine.fields lines ↔ .field f ∈ lines := by
  rw [ConfigLine.fields, List.mem_filterMap]
  constructor
  · rintro ⟨l, hl, hf⟩
    cases l with
    | field g => exact Option.some.inj hf ▸ hl
    | other line => cases hf
  · exact fun h ↦ ⟨.field f, h, rfl⟩

/-- The only line with the name of a field as its key is that of the field. -/
theorem eq_field_of_key {l : ConfigLine} {f : ConfigField} (hl : l.Valid) (h : l.key = f.name) :
    l = .field f := by
  cases l with
  | field g => rw [ConfigField.name_injective g f h]
  | other line =>
    have hnone : ConfigField.ofName? f.name = none := h ▸ hl.2
    rw [ConfigField.ofName?_name] at hnone
    cases hnone

/-- The fields that are written are read as they were, and the others are not there. -/
theorem mapM_read_lookup (hlib : lib.Lawful) (hc : c.Representable) {lines : List ConfigLine}
    (hlines : ConfigLine.WellFormed lines) {entries : List (String × lib.Value)}
    (hentries : (entries.map fun e ↦ (e.1, lib.scalar? e.2)).Perm
      ((lines.map (·.line c)).map fun l ↦ (l.key, some l.value))) (f : ConfigField) :
    (entries.lookup f.name).mapM (f.read lib) =
      .ok (if f ∈ ConfigLine.fields lines then some (c.get f) else none) := by
  cases hlookup : entries.lookup f.name with
  | none =>
    have hnot : f ∉ ConfigLine.fields lines := fun hf ↦ by
      have hmem : (f.name, some (c.scalar f)) ∈ entries.map fun e ↦ (e.1, lib.scalar? e.2) :=
        hentries.mem_iff.mpr (List.mem_map.mpr ⟨⟨f.name, c.scalar f⟩,
          List.mem_map.mpr ⟨.field f, mem_fields_iff.mp hf, rfl⟩, rfl⟩)
      obtain ⟨e, he, heq⟩ := List.mem_map.mp hmem
      exact bne_iff_ne.mp (List.lookup_eq_none_iff.mp hlookup e he) (congrArg Prod.fst heq).symm
    rw [if_neg hnot]
    rfl
  | some v =>
    obtain ⟨before, after, rfl, -⟩ := List.lookup_eq_some_iff.mp hlookup
    have hmem : (f.name, lib.scalar? v) ∈
        (lines.map (·.line c)).map fun l ↦ (l.key, some l.value) :=
      hentries.mem_iff.mp (List.mem_map.mpr ⟨(f.name, v), by simp, rfl⟩)
    obtain ⟨_, hline, heq⟩ := List.mem_map.mp hmem
    obtain ⟨l, hl, rfl⟩ := List.mem_map.mp hline
    obtain rfl := eq_field_of_key (hlines.valid l hl)
      ((key_line l).symm.trans (congrArg Prod.fst heq))
    rw [if_pos (mem_fields_iff.mpr hl), Option.mapM_some,
      read_eq_get hlib hc (congrArg Prod.snd heq).symm]
    rfl

theorem eq_of_get {c d : Config} (h : ∀ f, c.get f = d.get f) : c = d := by
  cases c
  cases d
  exact Config.mk.injEq .. ▸ ⟨h .flavor, h .windowStart, h .windowEnd, h .maxSequence,
    h .maxStackDepth, h .pageShift, h .addressSpace⟩

theorem get_keep (fields : List ConfigField) (f : ConfigField) :
    (c.keep fields).get f = if f ∈ fields then c.get f else get {} f := by
  cases f <;> rfl

theorem get_withDefaults (given : (f : ConfigField) → Option f.Content) (f : ConfigField) :
    (withDefaults given).get f = (given f).getD (get {} f) := by
  cases f <;> rfl

theorem keep_eq_withDefaults (fields : List ConfigField) :
    c.keep fields = withDefaults fun f ↦ if f ∈ fields then some (c.get f) else none := by
  refine eq_of_get fun f ↦ ?_
  rw [get_keep, get_withDefaults]
  split <;> rfl

theorem read_text (hlib : lib.Lawful) (hc : c.Representable) (ended : Bool)
    {lines : List ConfigLine} (hlines : ConfigLine.WellFormed lines) :
    lib.read (shape lib) (c.text ended lines) = .ok (c.keep (ConfigLine.fields lines)) := by
  have hkeys : ((lines.map (·.line c)).map (·.key)).Nodup := by
    have hmap : (lines.map (·.line c)).map (·.key) = lines.map ConfigLine.key := by
      simp [key_line]
    exact hmap ▸ hlines.distinct
  obtain ⟨entries, hparse, hentries⟩ := hlib.parse_writeLines ended (lines.map (·.line c))
    (fun line hline ↦ by
      obtain ⟨l, hl, rfl⟩ := List.mem_map.mp hline
      exact valid_line hc (hlines.valid l hl)) hkeys
  have hnodup : (entries.map (·.1)).Nodup := by
    have hperm := hentries.map Prod.fst
    simp only [List.map_map, Function.comp_def] at hperm hkeys
    exact hperm.nodup_iff.mpr hkeys
  have hrecord := hlib.record_of_read (shape lib) entries _ hnodup
    (mapM_read_lookup hlib hc hlines hentries)
  rw [Library.read, text, hparse, keep_eq_withDefaults]
  exact hrecord

/-! ### The round trip -/

theorem ofText_text (hlib : lib.Lawful) (hc : c.Representable) (ended : Bool)
    {lines : List ConfigLine} (hlines : ConfigLine.WellFormed lines) :
    ofText lib (c.text ended lines) = (c.keep (ConfigLine.fields lines)).validate := by
  rw [ofText, read_text hlib hc ended hlines]
  rfl

theorem eq_of_validate {v : { c : Config // c.Valid }} (h : c.validate = .ok v) : v.1 = c := by
  unfold validate check at h
  split at h
  · exact congrArg Subtype.val (Except.ok.inj h).symm
  · cases h

theorem defect?_of_validate {e : Error} (h : c.validate = .error e) :
    ∃ d, c.defect? = some d ∧ e = d.toError := by
  unfold validate check at h
  split at h
  · cases h
  · next d hd => exact ⟨d, hd, (Except.error.inj h).symm⟩

theorem keep_congr {fields others : List ConfigField} (h : ∀ f, f ∈ fields ↔ f ∈ others) :
    c.keep fields = c.keep others := by
  simp only [keep, h]

/-- A configuration that is written as a text is read back by a library that can be relied on. -/
theorem readsBack_of_representable (hlib : lib.Lawful) (hc : c.Representable) (ended : Bool)
    {lines : List ConfigLine} (hlines : ConfigLine.WellFormed lines) :
    c.ReadsBack lib ended lines where
  validates := ofText_text hlib hc ended hlines
  returns v hv := eq_of_validate ((ofText_text hlib hc ended hlines).symm.trans hv)
  refuses e he := defect?_of_validate ((ofText_text hlib hc ended hlines).symm.trans he)
  order others hperm := by
    have hothers : ConfigLine.WellFormed others :=
      ⟨fun l hl ↦ hlines.valid l (hperm.mem_iff.2 hl),
        (hperm.map ConfigLine.key).nodup_iff.1 hlines.distinct⟩
    have hfields : ∀ f, f ∈ ConfigLine.fields others ↔ f ∈ ConfigLine.fields lines := fun f ↦
      (hperm.filterMap ConfigLine.field?).mem_iff.symm
    rw [ofText_text hlib hc ended hothers, ofText_text hlib hc ended hlines, keep_congr hfields]

/-- One bound of the window goes with the default of the other to the largest window; the bound
that is not written is not looked at. -/
theorem readsBack_largestWindow :
    ∃ v, ofText (Toml.reader ⟨"not a document", none⟩)
        (text { flavor := .r5000, windowStart := 1048064, windowEnd := 3 } true
          [.field .windowStart, .other ⟨"title", .string "a \"large\" window"⟩, .field .flavor]) =
            .ok v ∧ v.1 = { flavor := .r5000, windowStart := 1048064 } := by
  have h : ReadsBack { flavor := .r5000, windowStart := 1048064, windowEnd := 3 }
      (Toml.reader ⟨"not a document", none⟩) true
      [.field .windowStart, .other ⟨"title", .string "a \"large\" window"⟩, .field .flavor] :=
    readsBack_of_representable (Toml.lawful_reader _)
      ⟨by decide, by decide, by decide, by decide, by decide⟩ true
      ⟨by
        simp only [List.forall_mem_cons, List.not_mem_nil, false_imp_iff, implies_true, and_true]
        exact ⟨trivial, ⟨⟨by decide, List.all_eq_true.1 (by decide), rfl⟩, by decide⟩, trivial⟩,
        by decide⟩
  have hvalid : (keep { flavor := .r5000, windowStart := 1048064, windowEnd := 3 }
      [.windowStart, .flavor]).validate =
        .ok ⟨{ flavor := .r5000, windowStart := 1048064 }, by decide⟩ := rfl
  exact ⟨_, h.validates.trans hvalid, rfl⟩

end Config

end MipsBlocks
