import Mathlib.Data.List.Nodup
import ChainIndex.Json.Decode
import ChainIndex.Proofs.Cbor.Form

/-!
# JSON forms of values

* `Json.ArrayForm`, `Json.OptionForm`, `Json.RecordForm`: the values that stand for a list, for an optional
  value and for a record, given what stands for their parts. The fields of a record may stand in any order and
  among others.
* `Json.Exact`: the one form of a number, of a text and of the like.
* `Json.Reads`: each form of a value is read as the value. `Json.Reads.array`, `Json.Reads.optional`: lists and
  optional values are, if their parts are.
* `Json.ReadsFields.decode`: and so is each form of a record. While a record is read, its draft depends
  only on which fields were met, so a record type is described by the draft for each set of fields met.
-/

namespace ChainIndex.Json

/-! ## Forms -/

/-- The form of a value that has only one. -/
def Exact {α : Type} [ToJson α] (a : α) (j : Json) : Prop := j = toJson a

/-- The forms of a list. -/
inductive ArrayForm {α : Type} (form : α → Json → Prop) (as : List α) : Json → Prop
  | intro {items : List Json} (h : List.Forall₂ form as items) : ArrayForm form as (.arr items)

/-- The forms of an optional value. -/
inductive OptionForm {α : Type} (form : α → Json → Prop) : Option α → Json → Prop
  | none : OptionForm form none .null
  | some {a : α} {j : Json} (h : form a j) : OptionForm form (some a) j

/-- The names of the fields of a record, with the forms of what stands under them. -/
abbrev Fields := List (String × (Json → Prop))

/-- A name with a form of what stands under it. -/
def IsField (field : String × (Json → Prop)) (entry : String × Json) : Prop :=
  entry.1 = field.1 ∧ field.2 entry.2

/-- The forms of a record: each of its fields once, in any order among fields of other names. -/
inductive RecordForm (fields : Fields) : Json → Prop
  | intro {own added entries : List (String × Json)} (own_form : List.Forall₂ IsField fields own)
      (added_form : ∀ entry ∈ added, entry.1 ∉ fields.map (·.1)) (perm : entries.Perm (own ++ added)) :
      RecordForm fields (.obj entries)

/-- One of them has the fields in order and no others. -/
theorem RecordForm.ordered {fields : Fields} {own : List (String × Json)}
    (h : List.Forall₂ IsField fields own) : RecordForm fields (.obj own) := by
  have added : ∀ entry ∈ ([] : List (String × Json)), entry.1 ∉ fields.map (·.1) := nofun
  exact .intro h added (by rw [List.append_nil])

theorem ArrayForm.map {α : Type} {form : α → Json → Prop} {write : α → Json} {as : List α}
    (h : ∀ a ∈ as, form a (write a)) : ArrayForm form as (.arr (as.map write)) :=
  .intro (List.forall₂_map_right_iff.2 (List.forall₂_same.2 h))

theorem OptionForm.opt {α : Type} {form : α → Json → Prop} {write : α → Json} (h : ∀ a, form a (write a)) :
    ∀ a? : Option α, OptionForm form a? (Json.opt (a?.map write))
  | .none => .none
  | .some a => .some (h a)

/-! ## Reading lists and optional values -/

/-- Each form of a value is read as the value. -/
def Reads {α : Type} (form : α → Json → Prop) (value : Decoder α) : Prop := ∀ a j, form a j → value j = .ok a

namespace Reads

variable {α : Type} {form : α → Json → Prop} {value : Decoder α}

theorem array (h : Reads form value) : Reads (ArrayForm form) (array value) := by
  rintro as _ ⟨items_form⟩
  simp only [Json.array]
  induction items_form with
  | nil => rfl
  | cons head _ ih =>
    rw [List.mapM_cons, h _ _ head, ih]
    rfl

/-- A value that can be optional is never null. -/
theorem optional (h : Reads form value) (null : ∀ a, ¬form a .null) :
    Reads (OptionForm form) (optional value) := by
  intro a? j hj
  cases hj with
  | none => rfl
  | @some a _ hj =>
    have read : Json.optional value j = some <$> value j := by
      cases j with
      | null => exact absurd hj (null a)
      | _ => rfl
    rw [read, h a j hj]
    rfl

end Reads

/-! ## Reading records -/

variable {δ α β : Type} {form : ObjectForm δ α} {draft : List String → δ} {fields : Fields}

/-- Reading a field adds its name to those met. -/
def ReadsField (draft : List String → δ) (field : Field δ) (known : String × (Json → Prop)) : Prop :=
  field.name = known.1 ∧
    ∀ seen j, known.2 j → field.read (draft seen) j = .ok (draft (known.1 :: seen))

/-- A field whose value the draft takes as it is. -/
theorem ReadsField.of_reads {name : String} {known : β → Json → Prop} {value : Decoder β} {b : β}
    {set : δ → β → δ} {mayLack : Bool} (h : Reads known value)
    (hset : ∀ seen, set (draft seen) b = draft (name :: seen)) :
    ReadsField draft ⟨name, fun d j => do return set d (← value j), mayLack⟩ (name, known b) := by
  refine ⟨rfl, fun seen j hj => ?_⟩
  simp only [h b j hj, ← hset]
  rfl

/-- How a record is read. -/
structure ReadsFields (form : ObjectForm δ α) (draft : List String → δ) (fields : Fields) : Prop where
  own : List.Forall₂ (ReadsField draft) form.fields fields
  nodup : (fields.map (·.1)).Nodup
  empty : form.empty = draft []

/-- An entry of a record: one of its fields, or one of another name. -/
def IsEntry (fields : Fields) (entry : String × Json) : Prop :=
  (∃ field ∈ fields, IsField field entry) ∨ entry.1 ∉ fields.map (·.1)

/-- The reader under the name of a field is the one of the field. -/
theorem find?_of_mem {readers : List (Field δ)} (own : List.Forall₂ (ReadsField draft) readers fields)
    (nodup : (fields.map (·.1)).Nodup) {known : String × (Json → Prop)} (mem : known ∈ fields) :
    ∃ reader, readers.find? (fun reader => reader.name = known.1) = some reader ∧
      ReadsField draft reader known := by
  obtain ⟨reader, hreader, name, -⟩ := exists_of_forall₂ own.flip mem
  cases found : readers.find? fun reader => reader.name = known.1 with
  | none => simpa [name] using List.find?_eq_none.1 found reader hreader
  | some first =>
    obtain ⟨other, hother, reads⟩ := exists_of_forall₂ own (List.mem_of_find?_eq_some found)
    have same : other.1 = known.1 := by simpa [reads.1] using List.find?_some found
    rw [List.inj_on_of_nodup_map nodup hother mem same] at reads
    exact ⟨first, rfl, reads⟩

/-- There is no reader under another name. -/
theorem find?_of_not_mem {readers : List (Field δ)} (own : List.Forall₂ (ReadsField draft) readers fields)
    {name : String} (unused : name ∉ fields.map (·.1)) :
    readers.find? (fun reader => reader.name = name) = none := by
  refine List.find?_eq_none.2 fun reader mem same => unused ?_
  obtain ⟨known, hknown, reads⟩ := exists_of_forall₂ own mem
  rw [decide_eq_true_eq, reads.1] at same
  exact same ▸ List.mem_map_of_mem hknown

namespace ReadsFields

/-- Entries in any order lead to the draft of what was met before and of their own fields. -/
theorem readFields (reads : ReadsFields form draft fields) {entries : List (String × Json)}
    (h : ∀ entry ∈ entries, IsEntry fields entry) (seen : List String) :
    ∃ seen', seen ⊆ seen' ∧ (∀ entry ∈ entries, entry.1 ∈ fields.map (·.1) → entry.1 ∈ seen') ∧
      form.readFields entries (draft seen) = .ok (draft seen') := by
  induction entries generalizing seen with
  | nil => exact ⟨seen, List.Subset.refl _, nofun, rfl⟩
  | cons entry rest ih =>
    obtain ⟨name, value⟩ := entry
    have later := fun entry mem => h entry (List.mem_cons_of_mem _ mem)
    obtain ⟨field, mem, rfl, hvalue⟩ | unused := h _ List.mem_cons_self
    · obtain ⟨reader, found, -, read⟩ := find?_of_mem reads.own reads.nodup mem
      obtain ⟨seen', sub, met, readRest⟩ := ih later (field.1 :: seen)
      refine ⟨seen', fun _ hn => sub (List.mem_cons_of_mem _ hn), fun e he hown => ?_, ?_⟩
      · rcases List.mem_cons.1 he with rfl | he
        · exact sub List.mem_cons_self
        · exact met e he hown
      · simp only [ObjectForm.readFields, found, read seen value hvalue]
        exact readRest
    · obtain ⟨seen', sub, met, readRest⟩ := ih later seen
      refine ⟨seen', sub, fun e he hown => ?_, ?_⟩
      · rcases List.mem_cons.1 he with rfl | he
        · exact absurd hown unused
        · exact met e he hown
      · simp only [ObjectForm.readFields, find?_of_not_mem reads.own unused]
        exact readRest

/-- Each form of a record is read as the record. -/
theorem decode (reads : ReadsFields form draft fields) {a : α}
    (finish : ∀ seen, (∀ field ∈ fields, field.1 ∈ seen) → form.finish (draft seen) = .ok a) {j : Json}
    (h : RecordForm fields j) : form.decode j = .ok a := by
  obtain ⟨own_form, added_form, perm⟩ := h
  rename_i own added entries
  have isEntry : ∀ entry ∈ entries, IsEntry fields entry := by
    intro entry mem
    rcases List.mem_append.1 (perm.subset mem) with mem | mem
    · exact .inl (exists_of_forall₂ own_form.flip mem)
    · exact .inr (added_form entry mem)
  obtain ⟨seen, -, met, read⟩ := reads.readFields isEntry []
  have all : ∀ field ∈ fields, field.1 ∈ seen := by
    intro field mem
    obtain ⟨entry, hentry, name, -⟩ := exists_of_forall₂ own_form mem
    rw [← name]
    refine met entry (perm.mem_iff.2 (List.mem_append_left _ hentry)) ?_
    exact name ▸ List.mem_map_of_mem mem
  simp only [ObjectForm.decode, reads.empty, read]
  exact finish seen all

end ReadsFields

end ChainIndex.Json
