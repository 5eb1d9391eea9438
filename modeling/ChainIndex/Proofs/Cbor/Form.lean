import Mathlib.Data.List.Forall2
import ChainIndex.Cbor.Writer

/-!
# Forms of an item

An item has more forms than the one that is written: numbers may take more octets than they need,
containers may be definite or indefinite, the entries of a map may stand in any order, and maps of
numbered fields may hold more than the fields of their record.

* `Head`, `DefiniteString`, `Container`: the octets of a number, a string and a container.
* `WellFormed`: the octets of an item of any kind, nested to any depth.
* `ListForm`, `RecordForm`: the octets of a list and of a record, given the forms of what they hold.
* `Head.write`, `ListForm.write`, `RecordForm.write`: what is written is one of the forms.
-/

namespace ChainIndex

/-- What stands in the one list has a partner in the other. -/
theorem exists_of_forall₂ {α β : Type} {R : α → β → Prop} {as : List α} {bs : List β}
    (h : List.Forall₂ R as bs) {a : α} (ha : a ∈ as) : ∃ b ∈ bs, R a b := by
  induction h with
  | nil => cases ha
  | cons head _ ih =>
    rcases List.mem_cons.1 ha with rfl | ha
    · exact ⟨_, List.mem_cons_self, head⟩
    · obtain ⟨b, hb, hR⟩ := ih ha
      exact ⟨b, List.mem_cons_of_mem _ hb, hR⟩

namespace Cbor

open Reader

/-! ## Heads -/

/-- The first octet of an item: its kind, and five bits. -/
def firstOctet (kind : Major) (bits : Nat) : UInt8 :=
  UInt8.ofNat (32 * Write.majorNumber kind + bits)

/-- How many octets spell the number, for each value of the bits that says that some do. -/
def widths : List (Nat × Nat) := [(24, 1), (25, 2), (26, 4), (27, 8)]

/-- The octets that begin an item of a kind with a number. -/
inductive Head (kind : Major) (n : Nat) : Bytes → Prop
  | short (small : n < 24) : Head kind n [firstOctet kind n]
  | long {bits size : Nat} {octets : Bytes} (width : (bits, size) ∈ widths)
      (length : octets.length = size) (value : ofBigEndian octets = n) :
      Head kind n (firstOctet kind bits :: octets)

theorem toNat_firstOctet (kind : Major) {bits : Nat} (h : bits < 32) :
    (firstOctet kind bits).toNat = 32 * Write.majorNumber kind + bits := by
  have hk : Write.majorNumber kind < 8 := by cases kind <;> decide
  rw [firstOctet, UInt8.toNat_ofNat']
  omega

theorem ofHead_firstOctet (kind : Major) {bits : Nat} (h : bits < 32) :
    Major.ofHead (firstOctet kind bits) = kind := by
  have hdiv : (32 * Write.majorNumber kind + bits) / 32 = Write.majorNumber kind := by omega
  rw [Major.ofHead, toNat_firstOctet kind h, hdiv]
  cases kind <;> rfl

theorem info_firstOctet (kind : Major) {bits : Nat} (h : bits < 32) :
    info (firstOctet kind bits) = bits := by
  rw [info, toNat_firstOctet kind h]
  omega

theorem lt_of_mem_widths {bits size : Nat} (h : (bits, size) ∈ widths) : bits < 28 := by
  simp only [widths, List.mem_cons, Prod.mk.injEq, List.not_mem_nil, or_false] at h
  omega

/-- The head that is written is one of the forms, the shortest one. -/
theorem Head.write (kind : Major) {n : Nat} (h : n < UInt64.size) :
    Head kind n (Write.head kind n) := by
  have wide : ∀ bits size, (bits, size) ∈ widths → n < Nat.pow 256 size →
      Head kind n (firstOctet kind bits :: bigEndian size n) := by
    intro bits size width hn
    refine .long width (length_bigEndian size n) ?_
    rw [ofBigEndian_bigEndian, Nat.mod_eq_of_lt hn]
  simp only [Write.head]
  split
  · exact .short ‹_›
  · split
    · exact wide 24 1 (by simp [widths]) ‹_›
    · split
      · exact wide 25 2 (by simp [widths]) ‹_›
      · split
        · exact wide 26 4 (by simp [widths]) ‹_›
        · exact wide 27 8 (by simp [widths]) h

theorem head_ne_nil (kind : Major) (n : Nat) : Write.head kind n ≠ [] := by
  simp only [Write.head]
  repeat' split
  all_goals exact List.cons_ne_nil _ _

theorem fields_ne_nil (entries : List (Nat × Option Bytes)) : Write.fields entries ≠ [] := by
  intro h
  exact head_ne_nil _ _ (List.append_eq_nil_iff.1 h).1

/-! ## Strings and containers -/

/-- The octets of a definite string. -/
inductive DefiniteString (kind : Major) (content : Bytes) : Bytes → Prop
  | intro {head : Bytes} (h : Head kind content.length head) :
      DefiniteString kind content (head ++ content)

/-- The octets of a definite byte string of any content. -/
def IsByteString (bytes : Bytes) : Prop := ∃ content, DefiniteString .bytes content bytes

/-- The octets of a definite text. -/
def IsText (bytes : Bytes) : Prop := ∃ s, DefiniteString .text (Utf8.encode s) bytes

/-- The octets of an indefinite item: what it holds, up to the break. -/
def indefinite (kind : Major) (parts : List Bytes) : Bytes :=
  firstOctet kind 31 :: (parts.flatten ++ [breakHead])

/-- The octets of a container of some entries. -/
inductive Container (kind : Major) (entries : List Bytes) : Bytes → Prop
  | definite {head : Bytes} (h : Head kind entries.length head) :
      Container kind entries (head ++ entries.flatten)
  | indefinite : Container kind entries (indefinite kind entries)

/-! ## Items of any kind -/

/-- The octets of one item. -/
inductive WellFormed : Bytes → Prop
  | unsigned {n : Nat} {bytes : Bytes} (h : Head .unsigned n bytes) : WellFormed bytes
  | negative {n : Nat} {bytes : Bytes} (h : Head .negative n bytes) : WellFormed bytes
  | byteString {bytes : Bytes} (h : IsByteString bytes) : WellFormed bytes
  | byteChunks {chunks : List Bytes} (h : ∀ chunk ∈ chunks, IsByteString chunk) :
      WellFormed (indefinite .bytes chunks)
  | text {bytes : Bytes} (h : IsText bytes) : WellFormed bytes
  | textChunks {chunks : List Bytes} (h : ∀ chunk ∈ chunks, IsText chunk) :
      WellFormed (indefinite .text chunks)
  | array {items : List Bytes} {bytes : Bytes} (h : ∀ item ∈ items, WellFormed item)
      (container : Container .array items bytes) : WellFormed bytes
  | map {entries : List (Bytes × Bytes)} {bytes : Bytes} (keys : ∀ e ∈ entries, WellFormed e.1)
      (values : ∀ e ∈ entries, WellFormed e.2)
      (container : Container .map (entries.map fun e => e.1 ++ e.2) bytes) : WellFormed bytes
  | tag {n : Nat} {head item : Bytes} (hhead : Head .tag n head) (h : WellFormed item) :
      WellFormed (head ++ item)
  /-- Among these are the truth values, null and undefined. -/
  | simple {n : Nat} (h : n < 24) : WellFormed [firstOctet .simple n]
  | simpleOctet {n : UInt8} (h : 32 ≤ n) : WellFormed [firstOctet .simple 24, n]
  | float {bits size : Nat} {octets : Bytes} (width : (bits, size) ∈ [(25, 2), (26, 4), (27, 8)])
      (length : octets.length = size) : WellFormed (firstOctet .simple bits :: octets)

/-! ## Lists and records -/

/-- The octets of a list, given those of its items. -/
inductive ListForm {α : Type} (form : α → Bytes → Prop) (items : List α) : Bytes → Prop
  | intro {parts : List Bytes} {bytes : Bytes} (parts_form : List.Forall₂ form items parts)
      (container : Container .array parts bytes) : ListForm form items bytes

/-- The fields of a record: their numbers, and the octets of their values. An optional field without a
value has none. -/
abbrev Fields := List (Nat × Option (Bytes → Prop))

/-- The fields that have a value. -/
def Fields.present (fields : Fields) : List (Nat × (Bytes → Prop)) :=
  fields.filterMap fun (key, form?) => form?.map fun form => (key, form)

theorem Fields.mem_present {fields : Fields} {key : Nat} {form : Bytes → Prop} :
    (key, form) ∈ fields.present ↔ (key, some form) ∈ fields := by
  simp [present]

/-- The octets of an entry: its number, and the item under it. -/
def EntryForm (entry : Nat × Bytes) (bytes : Bytes) : Prop :=
  ∃ key, Head .unsigned entry.1 key ∧ bytes = key ++ entry.2

/-- The octets of a record: a map with one entry for each field that has a value, and any number of entries
under numbers that the record does not use, all of them in any order. -/
inductive RecordForm (fields : Fields) : Bytes → Prop
  | intro {own added entries : List (Nat × Bytes)} {parts : List Bytes} {bytes : Bytes}
      (own_form : List.Forall₂ (fun field entry => entry.1 = field.1 ∧ field.2 entry.2)
        fields.present own)
      (added_form : ∀ entry ∈ added, entry.1 < UInt32.size ∧ entry.1 ∉ fields.map (·.1) ∧
        WellFormed entry.2)
      (perm : entries.Perm (own ++ added))
      (parts_form : List.Forall₂ EntryForm entries parts)
      (container : Container .map parts bytes) : RecordForm fields bytes

/-! ## What is written is one of the forms -/

theorem DefiniteString.write (kind : Major) {content : Bytes} (h : content.length < UInt64.size) :
    DefiniteString kind content (Write.head kind content.length ++ content) := ⟨.write kind h⟩

theorem ListForm.write {α : Type} {form : α → Bytes → Prop} {write : α → Bytes} {items : List α}
    (length : items.length < UInt64.size) (h : ∀ a ∈ items, form a (write a)) :
    ListForm form items (Write.array (items.map write)) :=
  .intro (List.forall₂_map_right_iff.2 (List.forall₂_same.2 h))
    (.definite (.write .array (by rwa [List.length_map])))

/-- The item written for a field is one of the forms of its value, and none is if it has no value. -/
def Writes : Nat × Option (Bytes → Prop) → Nat × Option Bytes → Prop
  | (key, some form), (key', some item) => key' = key ∧ form item
  | (key, none), (key', none) => key' = key
  | _, _ => False

/-- A field that is left out when it has no value. -/
theorem Writes.optional {α : Type} {key : Nat} {form : α → Bytes → Prop} {write : α → Bytes}
    {value? : Option α} (h : ∀ a, value? = some a → form a (write a)) :
    Writes (key, value?.map form) (key, value?.map write) := by
  cases value? with
  | none => rfl
  | some a => exact ⟨rfl, h a rfl⟩

/-- The entries that are written: the fields that have an item. -/
def Write.present (written : List (Nat × Option Bytes)) : List (Nat × Bytes) :=
  written.filterMap fun (key, item?) => item?.map fun item => (key, item)

theorem Write.mem_present {written : List (Nat × Option Bytes)} {key : Nat} {item : Bytes} :
    (key, item) ∈ present written ↔ (key, some item) ∈ written := by
  simp [present]

theorem Write.fields_eq (written : List (Nat × Option Bytes)) :
    fields written = head .map (present written).length ++
      ((present written).map fun entry => unsigned entry.1 ++ entry.2).flatten := by
  have hparts : (written.filterMap fun (key, item?) => item?.map fun item => unsigned key ++ item) =
      (present written).map fun entry => unsigned entry.1 ++ entry.2 := by
    rw [present, List.map_filterMap]
    refine List.filterMap_congr fun entry _ => ?_
    simp [Option.map_map, Function.comp_def]
  simp only [fields, hparts, List.length_map]

theorem Writes.present {fields : Fields} {written : List (Nat × Option Bytes)}
    (h : List.Forall₂ Writes fields written) :
    List.Forall₂ (fun field entry => entry.1 = field.1 ∧ field.2 entry.2) fields.present
      (Write.present written) := by
  induction h with
  | nil => exact .nil
  | @cons field entry _ _ hentry _ ih =>
    obtain ⟨key, form?⟩ := field
    obtain ⟨key', item?⟩ := entry
    cases form? <;> cases item?
    · exact ih
    · exact absurd hentry id
    · exact absurd hentry id
    · exact .cons hentry ih

theorem RecordForm.write {fields : Fields} {written : List (Nat × Option Bytes)}
    (h : List.Forall₂ Writes fields written) (keys : ∀ entry ∈ written, entry.1 < UInt64.size)
    (length : written.length < UInt64.size) : RecordForm fields (Write.fields written) := by
  let parts := (Write.present written).map fun entry => Write.unsigned entry.1 ++ entry.2
  have parts_form : List.Forall₂ EntryForm (Write.present written) parts := by
    refine List.forall₂_map_right_iff.2 (List.forall₂_same.2 fun entry mem => ?_)
    exact ⟨_, .write .unsigned (keys _ (Write.mem_present.1 mem)), rfl⟩
  have parts_length : parts.length < UInt64.size := by
    rw [List.length_map]
    exact Nat.lt_of_le_of_lt (List.length_filterMap_le _ _) length
  have perm : (Write.present written).Perm (Write.present written ++ []) := by
    rw [List.append_nil]
  rw [Write.fields_eq, parts_form.length_eq]
  exact .intro (Writes.present h) (by simp) perm parts_form (.definite (.write .map parts_length))

end Cbor

end ChainIndex
