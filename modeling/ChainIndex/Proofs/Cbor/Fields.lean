import ChainIndex.Proofs.Cbor.Skip

/-!
# Records are read in any order

While a record is read, its draft depends only on which of its fields were met. So a record type is
described by the draft for each set of fields met (`ReadsFields.own`: reading a field takes one draft to the
next), and by what happens under a number that it does not use (`ReadsFields.other`).

* `ReadsFields.steps`: entries in any order lead to the draft of what was met before and of their own fields.
* `ReadsFields.record`: so every form of a record leads to the draft in which every field that has a value
  was met.
-/

namespace ChainIndex.Cbor

open Reader

variable {α σ : Type} {field : σ → UInt32 → Reader σ} {draft : List Nat → σ} {fields : Fields}

/-- Reading the field adds its number to those met. -/
def ReadsField (field : σ → UInt32 → Reader σ) (draft : List Nat → σ)
    (entry : Nat × Option (Bytes → Prop)) : Prop :=
  ∀ form, entry.2 = some form → ∀ seen item, form item →
    Reads (field (draft seen) (UInt32.ofNat entry.1)) item (draft (entry.1 :: seen))

namespace ReadsField

/-- A field whose value the draft takes as it is. -/
theorem required {key : Nat} {form : Bytes → Prop} {value : Reader α} {a : α}
    {set : σ → α → σ} (h : ∀ item, form item → Reads value item a)
    (hfield : ∀ d, field d (UInt32.ofNat key) = do return set d (← value))
    (hset : ∀ seen, set (draft seen) a = draft (key :: seen)) :
    ReadsField field draft (key, some form) := by
  rintro _ ⟨⟩ seen item hitem
  rw [hfield, ← hset]
  exact (h item hitem).map _

/-- A field that may have no value. -/
theorem optional {key : Nat} {form : α → Bytes → Prop} {value? : Option α}
    (h : ∀ a, value? = some a → ReadsField field draft (key, some (form a))) :
    ReadsField field draft (key, value?.map form) := by
  cases value? with
  | none => exact fun _ absent => nomatch absent
  | some a => exact h a rfl

end ReadsField

/-- An optional field is in the draft once it was met, if it has a value. -/
theorem ite_met {seen : List Nat} {key : Nat} {value? : Option α}
    (met : value?.isSome → key ∈ seen) : (if key ∈ seen then value? else none) = value? := by
  cases value? with
  | none => exact ite_self none
  | some a => exact if_pos (met rfl)

/-- How a record is read: its own fields one by one, and items under other numbers not at all. -/
structure ReadsFields (field : σ → UInt32 → Reader σ) (draft : List Nat → σ) (fields : Fields) :
    Prop where
  own : ∀ entry ∈ fields, ReadsField field draft entry
  narrow : ∀ entry ∈ fields, entry.1 < UInt32.size
  other : ∀ key : UInt32, key.toNat ∉ fields.map (·.1) → ∀ d, field d key = ignore d

/-- One entry of a record: a field that has a value, or something under another number. -/
inductive IsEntry (fields : Fields) (entry : Nat × Bytes) : Prop
  | own {form : Bytes → Prop} (mem : (entry.1, some form) ∈ fields) (h : form entry.2)
  | added (narrow : entry.1 < UInt32.size) (unused : entry.1 ∉ fields.map (·.1))
      (h : WellFormed entry.2)

namespace ReadsFields

/-- The step of the reader: a number, and what stands under it. -/
abbrev step (field : σ → UInt32 → Reader σ) (d : σ) : Reader σ := do field d (← uint32)

theorem reads_step {entry : Nat × Bytes} {part : Bytes} {d e : σ} (hpart : EntryForm entry part)
    (narrow : entry.1 < UInt32.size) (h : Reads (field d (UInt32.ofNat entry.1)) entry.2 e) :
    Reads (step field d) part e := by
  obtain ⟨key, hkey, rfl⟩ := hpart
  have hnumber : (UInt32.ofNat entry.1).toNat = entry.1 := by
    rw [UInt32.toNat_ofNat']
    exact Nat.mod_eq_of_lt narrow
  rw [← hnumber] at hkey
  exact (Reads.uint32 hkey).bind h

/-- One entry leads to the draft of what was met before, and of its own field. -/
theorem entry (reads : ReadsFields field draft fields) {entry : Nat × Bytes} {part : Bytes}
    (hentry : IsEntry fields entry) (hpart : EntryForm entry part) (seen : List Nat) :
    ∃ seen', seen ⊆ seen' ∧ (entry.1 ∈ fields.map (·.1) → entry.1 ∈ seen') ∧
      Reads (step field (draft seen)) part (draft seen') := by
  cases hentry with
  | own mem h =>
    refine ⟨entry.1 :: seen, List.subset_cons_self _ _, fun _ => List.mem_cons_self, ?_⟩
    exact reads_step hpart (reads.narrow _ mem) (reads.own _ mem _ rfl seen entry.2 h)
  | added narrow unused h =>
    refine ⟨seen, List.Subset.refl _, fun mem => absurd mem unused, reads_step hpart narrow ?_⟩
    have hnumber : (UInt32.ofNat entry.1).toNat = entry.1 := by
      rw [UInt32.toNat_ofNat']
      exact Nat.mod_eq_of_lt narrow
    rw [reads.other _ (by rwa [hnumber])]
    exact h.reads_skip.bind_ok fun _ => rfl

/-- So do entries in any order. -/
theorem steps (reads : ReadsFields field draft fields) {entries : List (Nat × Bytes)}
    {parts : List Bytes} (hentries : ∀ entry ∈ entries, IsEntry fields entry)
    (hparts : List.Forall₂ EntryForm entries parts) (seen : List Nat) :
    ∃ seen', seen ⊆ seen' ∧
      (∀ entry ∈ entries, entry.1 ∈ fields.map (·.1) → entry.1 ∈ seen') ∧
      Steps (step field) (draft seen) parts (draft seen') := by
  induction hparts generalizing seen with
  | nil => exact ⟨seen, List.Subset.refl _, by simp, .nil _⟩
  | @cons e part entries parts hpart _ ih =>
    obtain ⟨seen₁, hsub₁, hmet₁, hstep⟩ := reads.entry (hentries e List.mem_cons_self) hpart seen
    obtain ⟨seen₂, hsub₂, hmet₂, hsteps⟩ :=
      ih (fun e mem => hentries e (List.mem_cons_of_mem _ mem)) seen₁
    refine ⟨seen₂, List.Subset.trans hsub₁ hsub₂, fun e' mem hkey => ?_, .cons hstep hsteps⟩
    rcases List.mem_cons.1 mem with rfl | mem
    · exact hsub₂ (hmet₁ hkey)
    · exact hmet₂ e' mem hkey

/-- Every form of a record leads to a draft in which each field that has a value was met. -/
theorem record (reads : ReadsFields field draft fields) {bytes : Bytes}
    (form : RecordForm fields bytes) :
    ∃ seen, (∀ entry ∈ fields, entry.2.isSome → entry.1 ∈ seen) ∧
      Reads (record field (draft [])) bytes (draft seen) := by
  obtain ⟨own_form, added_form, perm, parts_form, container⟩ := form
  have hentries : ∀ entry ∈ _, IsEntry fields entry := fun entry mem => by
    rcases List.mem_append.1 (perm.subset mem) with mem | mem
    · obtain ⟨⟨key, f⟩, hpresent, rfl, hitem⟩ := exists_of_forall₂ own_form.flip mem
      exact .own (Fields.mem_present.1 hpresent) hitem
    · obtain ⟨narrow, unused, h⟩ := added_form entry mem
      exact .added narrow unused h
  obtain ⟨seen, -, met, steps⟩ := reads.steps hentries parts_form []
  refine ⟨seen, fun (key, f?) mem given => ?_, .foldMap container steps fun part mem => ?_⟩
  · obtain ⟨f, rfl⟩ := Option.isSome_iff_exists.1 given
    obtain ⟨entry, hown, rfl, -⟩ :=
      exists_of_forall₂ own_form (Fields.mem_present.2 mem)
    exact met entry (perm.mem_iff.2 (List.mem_append_left _ hown)) (List.mem_map_of_mem mem)
  · obtain ⟨entry, -, hpart⟩ := exists_of_forall₂ parts_form.flip mem
    exact EntryForm.starts hpart

end ReadsFields

end ChainIndex.Cbor
