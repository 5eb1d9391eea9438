import ChainIndex.Ledger.Cbor
import ChainIndex.Proofs.Cbor.Chain

/-!
# Forms of references, amounts and outputs

* `OutputRef.Form`, `TokenAmount.Form`, `TxOutput.Form`, `ReferencedOutput.Form`, with the same laws as for
  points and blocks: every form is read as the value, and the value is written in one of them.
* `TxOutput.Storable`: every string and list of an output has a length below 2^64, as in any memory. So
  its octets can announce the length.
* `TxOutput.decode_encode`: such an output is read back from its octets with every field as it was.
-/

namespace ChainIndex

open Cbor Cbor.Reader

namespace OutputRef

/-- The forms of the fields. -/
def fields (r : OutputRef) : Fields := [
  (0, some r.hash.Form),
  (1, some (Head .unsigned r.index.toNat))]

/-- The octets of a reference. -/
def Form (r : OutputRef) : Bytes → Prop := RecordForm r.fields

/-- The draft after some of the fields. -/
def draft (r : OutputRef) (seen : List Nat) : Draft where
  hash := if 0 ∈ seen then some r.hash else none
  index := if 1 ∈ seen then some r.index else none

theorem readsFields (r : OutputRef) : ReadsFields Draft.readField r.draft r.fields where
  own := by
    simp only [fields, List.forall_mem_cons]
    refine ⟨?_, ?_, by simp⟩
    · exact .required (fun _ h => Hash.reads h) (fun _ => rfl) fun seen => by simp [draft]
    · exact .required (fun _ h => Reads.uint32 h) (fun _ => rfl) fun seen => by simp [draft]
  narrow := by simp [fields, UInt32.size]
  other := by
    intro key unused d
    unfold Draft.readField
    split <;> first | rfl | exact absurd unused (by simp [fields])

theorem reads {r : OutputRef} {bytes : Bytes} (form : r.Form bytes) :
    Reads OutputRef.read bytes r := by
  obtain ⟨seen, met, h⟩ := r.readsFields.record form
  have hdraft : r.draft seen = ⟨some r.hash, some r.index⟩ := by
    obtain ⟨h0, h1⟩ : 0 ∈ seen ∧ 1 ∈ seen := by simpa [fields] using met
    simp [draft, h0, h1]
  rw [hdraft] at h
  exact .get_bind fun input => h.bind_ok fun rest => rfl

theorem form_write (r : OutputRef) : r.Form (OutputRef.write r) := by
  refine RecordForm.write ?_ (by simp [UInt64.size]) (by simp [UInt64.size])
  refine .cons ⟨rfl, r.hash.form_write (by decide)⟩ ?_
  refine .cons ⟨rfl, .write _ (Nat.lt_trans r.index.toNat_lt (by decide))⟩ ?_
  exact .nil

end OutputRef

namespace TokenAmount

/-- The names of a token have lengths below 2^64. -/
structure Storable (t : TokenAmount) : Prop where
  policyId : t.policyId.length < UInt64.size
  assetName : t.assetName.length < UInt64.size

/-- The forms of the fields. -/
def fields (t : TokenAmount) : Fields := [
  (0, some (DefiniteString .bytes t.policyId)),
  (1, some (DefiniteString .bytes t.assetName)),
  (2, some (Head .unsigned t.amount.toNat))]

/-- The octets of an amount. -/
def Form (t : TokenAmount) : Bytes → Prop := RecordForm t.fields

/-- The draft after some of the fields. -/
def draft (t : TokenAmount) (seen : List Nat) : Draft where
  policyId := if 0 ∈ seen then some t.policyId else none
  assetName := if 1 ∈ seen then some t.assetName else none
  amount := if 2 ∈ seen then some t.amount else none

theorem readsFields (t : TokenAmount) : ReadsFields Draft.readField t.draft t.fields where
  own := by
    simp only [fields, List.forall_mem_cons]
    refine ⟨?_, ?_, ?_, by simp⟩
    · exact .required (fun _ h => Reads.byteString h) (fun _ => rfl) fun seen => by simp [draft]
    · exact .required (fun _ h => Reads.byteString h) (fun _ => rfl) fun seen => by simp [draft]
    · exact .required (fun _ h => Reads.uint64 h) (fun _ => rfl) fun seen => by simp [draft]
  narrow := by simp [fields, UInt32.size]
  other := by
    intro key unused d
    unfold Draft.readField
    split <;> first | rfl | exact absurd unused (by simp [fields])

theorem reads {t : TokenAmount} {bytes : Bytes} (form : t.Form bytes) :
    Reads TokenAmount.read bytes t := by
  obtain ⟨seen, met, h⟩ := t.readsFields.record form
  have hdraft : t.draft seen = ⟨some t.policyId, some t.assetName, some t.amount⟩ := by
    obtain ⟨h0, h1, h2⟩ : 0 ∈ seen ∧ 1 ∈ seen ∧ 2 ∈ seen := by simpa [fields] using met
    simp [draft, h0, h1, h2]
  rw [hdraft] at h
  exact .get_bind fun input => h.bind_ok fun rest => rfl

theorem form_write {t : TokenAmount} (h : t.Storable) : t.Form (TokenAmount.write t) := by
  refine RecordForm.write ?_ (by simp [UInt64.size]) (by simp [UInt64.size])
  refine .cons ⟨rfl, .write _ h.policyId⟩ ?_
  refine .cons ⟨rfl, .write _ h.assetName⟩ ?_
  refine .cons ⟨rfl, .write _ t.amount.toNat_lt⟩ ?_
  exact .nil

end TokenAmount

/-- The strings and lists of an output have lengths below 2^64. -/
structure TxOutput.Storable (o : TxOutput) : Prop where
  address : (Utf8.encode o.address).length < UInt64.size
  tokens : o.tokens.length < UInt64.size
  token : ∀ t ∈ o.tokens, t.Storable
  datum : ∀ datum, o.datum = some datum → datum.length < UInt64.size

namespace TxOutput

/-- Of the lengths nothing depends on slot and mark. -/
theorem Storable.withSlot {o : TxOutput} (h : o.Storable) (slot : UInt64) :
    { o with slot }.Storable := ⟨h.address, h.tokens, h.token, h.datum⟩

theorem Storable.used {o : TxOutput} (h : o.Storable) : { o with isUsed := true }.Storable :=
  ⟨h.address, h.tokens, h.token, h.datum⟩

/-- The forms of the fields. -/
def fields (o : TxOutput) : Fields := [
  (0, some (Head .unsigned o.slot.toNat)),
  (1, some (DefiniteString .text (Utf8.encode o.address))),
  (2, some (Head .unsigned o.amount.toNat)),
  (3, some (ListForm TokenAmount.Form o.tokens)),
  (4, o.datum.map (DefiniteString .bytes)),
  (5, o.datumHash.map Hash.Form),
  (6, some (· = Write.bool o.isUsed))]

/-- The octets of an output. -/
def Form (o : TxOutput) : Bytes → Prop := RecordForm o.fields

/-- The draft after some of the fields. -/
def draft (o : TxOutput) (seen : List Nat) : Draft where
  slot := if 0 ∈ seen then some o.slot else none
  address := if 1 ∈ seen then some o.address else none
  amount := if 2 ∈ seen then some o.amount else none
  tokens := if 3 ∈ seen then some o.tokens else none
  datum := if 4 ∈ seen then o.datum else none
  datumHash := if 5 ∈ seen then o.datumHash else none
  isUsed := if 6 ∈ seen then some o.isUsed else none

theorem readsFields (o : TxOutput) : ReadsFields Draft.readField o.draft o.fields where
  own := by
    simp only [fields, List.forall_mem_cons]
    refine ⟨?_, ?_, ?_, ?_, ?_, ?_, ?_, by simp⟩
    · exact .required (fun _ h => Reads.uint64 h) (fun _ => rfl) fun seen => by simp [draft]
    · exact .required (fun _ h => Reads.text h) (fun _ => rfl) fun seen => by simp [draft]
    · exact .required (fun _ h => Reads.uint64 h) (fun _ => rfl) fun seen => by simp [draft]
    · exact .required
        (fun _ h => .list h (fun _ _ => RecordForm.starts) fun _ _ _ => TokenAmount.reads)
        (fun _ => rfl) fun seen => by simp [draft]
    · refine .optional fun datum hdatum => ?_
      exact .required (fun _ h => Reads.optional h (.byteString h)) (fun _ => rfl) fun seen => by
        simp [draft, hdatum]
    · refine .optional fun hash hhash => ?_
      exact .required (fun _ h => Reads.optional h (Hash.reads h)) (fun _ => rfl) fun seen => by
        simp [draft, hhash]
    · exact .required (fun _ h => h ▸ Reads.bool o.isUsed) (fun _ => rfl) fun seen => by simp [draft]
  narrow := by simp [fields, UInt32.size]
  other := by
    intro key unused d
    unfold Draft.readField
    split <;> first | rfl | exact absurd unused (by simp [fields])

theorem reads {o : TxOutput} {bytes : Bytes} (form : o.Form bytes) :
    Reads TxOutput.read bytes o := by
  obtain ⟨seen, met, h⟩ := o.readsFields.record form
  have hdraft : o.draft seen = ⟨some o.slot, some o.address, some o.amount, some o.tokens, o.datum,
      o.datumHash, some o.isUsed⟩ := by
    obtain ⟨h0, h1, h2, h3, h4, h5, h6⟩ : 0 ∈ seen ∧ 1 ∈ seen ∧ 2 ∈ seen ∧ 3 ∈ seen ∧
        (o.datum.isSome → 4 ∈ seen) ∧ (o.datumHash.isSome → 5 ∈ seen) ∧ 6 ∈ seen := by
      simpa [fields] using met
    simp [draft, h0, h1, h2, h3, ite_met h4, ite_met h5, h6]
  rw [hdraft] at h
  exact .get_bind fun input => h.bind_ok fun rest => rfl

theorem form_write {o : TxOutput} (h : o.Storable) : o.Form (TxOutput.write o) := by
  refine RecordForm.write ?_ (by simp [UInt64.size]) (by simp [UInt64.size])
  refine .cons ⟨rfl, .write _ o.slot.toNat_lt⟩ ?_
  refine .cons ⟨rfl, .write _ h.address⟩ ?_
  refine .cons ⟨rfl, .write _ o.amount.toNat_lt⟩ ?_
  refine .cons ⟨rfl, .write h.tokens fun t ht => TokenAmount.form_write (h.token t ht)⟩ ?_
  refine .cons (.optional fun datum hdatum => .write _ (h.datum datum hdatum)) ?_
  refine .cons (.optional fun hash _ => hash.form_write (by decide)) ?_
  refine .cons ⟨rfl, rfl⟩ ?_
  exact .nil

theorem decode_encode {o : TxOutput} (h : o.Storable) :
    Record.decode (Record.encode o) = .ok o := Record.decode_encode (reads (form_write h))

/-- No output is written as nothing. -/
theorem encode_ne_nil (o : TxOutput) : Record.encode o ≠ [] := fields_ne_nil _

end TxOutput

namespace ReferencedOutput

/-- The forms of the fields. -/
def fields (o : ReferencedOutput) : Fields := [(0, some o.ref.Form), (1, some o.output.Form)]

/-- The octets of an output with its reference. -/
def Form (o : ReferencedOutput) : Bytes → Prop := RecordForm o.fields

/-- The draft after some of the fields. -/
def draft (o : ReferencedOutput) (seen : List Nat) : Draft where
  ref := if 0 ∈ seen then some o.ref else none
  output := if 1 ∈ seen then some o.output else none

theorem readsFields (o : ReferencedOutput) : ReadsFields Draft.readField o.draft o.fields where
  own := by
    simp only [fields, List.forall_mem_cons]
    refine ⟨?_, ?_, by simp⟩
    · exact .required (fun _ h => OutputRef.reads h) (fun _ => rfl) fun seen => by simp [draft]
    · exact .required (fun _ h => TxOutput.reads h) (fun _ => rfl) fun seen => by simp [draft]
  narrow := by simp [fields, UInt32.size]
  other := by
    intro key unused d
    unfold Draft.readField
    split <;> first | rfl | exact absurd unused (by simp [fields])

theorem reads {o : ReferencedOutput} {bytes : Bytes} (form : o.Form bytes) :
    Reads ReferencedOutput.read bytes o := by
  obtain ⟨seen, met, h⟩ := o.readsFields.record form
  have hdraft : o.draft seen = ⟨some o.ref, some o.output⟩ := by
    obtain ⟨h0, h1⟩ : 0 ∈ seen ∧ 1 ∈ seen := by simpa [fields] using met
    simp [draft, h0, h1]
  rw [hdraft] at h
  exact .get_bind fun input => h.bind_ok fun rest => rfl

theorem form_write {o : ReferencedOutput} (h : o.output.Storable) :
    o.Form (ReferencedOutput.write o) := by
  refine RecordForm.write ?_ (by simp [UInt64.size]) (by simp [UInt64.size])
  refine .cons ⟨rfl, o.ref.form_write⟩ ?_
  refine .cons ⟨rfl, TxOutput.form_write h⟩ ?_
  exact .nil

end ReferencedOutput

end ChainIndex
