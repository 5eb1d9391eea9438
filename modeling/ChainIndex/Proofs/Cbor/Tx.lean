import ChainIndex.Proofs.Cbor.Output

/-!
# Forms of transactions

* `Tx.Form`, with the same laws as for the records that a transaction holds.
* `Tx.Storable`: its strings and lists, and those of its outputs, have lengths below 2^64.
-/

namespace ChainIndex.Tx

open Cbor Cbor.Reader

/-- The strings and lists of a transaction have lengths below 2^64. -/
structure Storable (tx : Tx) : Prop where
  metadata : ∀ metadata, tx.metadata = some metadata → metadata.length < UInt64.size
  inputs : tx.inputs.length < UInt64.size
  input : ∀ o ∈ tx.inputs, o.output.Storable
  outputs : tx.outputs.length < UInt64.size
  output : ∀ o ∈ tx.outputs, o.Storable

/-- The forms of the fields. -/
def fields (tx : Tx) : Fields := [
  (0, some (Head .unsigned tx.blockSlot.toNat)),
  (1, some tx.blockHash.Form),
  (2, some (Head .unsigned tx.indexInBlock.toNat)),
  (3, some tx.hash.Form),
  (4, some (Head .unsigned tx.eraId.toNat)),
  (5, tx.metadata.map (DefiniteString .bytes)),
  (6, some (Head .unsigned tx.fee.toNat)),
  (7, some (· = Write.bool tx.isValid)),
  (8, some (ListForm ReferencedOutput.Form tx.inputs)),
  (9, some (ListForm TxOutput.Form tx.outputs)),
  (10, some (Head .unsigned tx.firstOutputIndex.toNat))]

/-- The octets of a transaction. -/
def Form (tx : Tx) : Bytes → Prop := RecordForm tx.fields

/-- The draft after some of the fields. -/
def draft (tx : Tx) (seen : List Nat) : Draft where
  blockSlot := if 0 ∈ seen then some tx.blockSlot else none
  blockHash := if 1 ∈ seen then some tx.blockHash else none
  indexInBlock := if 2 ∈ seen then some tx.indexInBlock else none
  hash := if 3 ∈ seen then some tx.hash else none
  eraId := if 4 ∈ seen then some tx.eraId else none
  metadata := if 5 ∈ seen then tx.metadata else none
  fee := if 6 ∈ seen then some tx.fee else none
  isValid := if 7 ∈ seen then some tx.isValid else none
  inputs := if 8 ∈ seen then some tx.inputs else none
  outputs := if 9 ∈ seen then some tx.outputs else none
  firstOutputIndex := if 10 ∈ seen then some tx.firstOutputIndex else none

theorem readsFields (tx : Tx) : ReadsFields Draft.readField tx.draft tx.fields where
  own := by
    simp only [fields, List.forall_mem_cons]
    refine ⟨?_, ?_, ?_, ?_, ?_, ?_, ?_, ?_, ?_, ?_, ?_, by simp⟩
    · exact .required (fun _ h => Reads.uint64 h) (fun _ => rfl) fun seen => by simp [draft]
    · exact .required (fun _ h => Hash.reads h) (fun _ => rfl) fun seen => by simp [draft]
    · exact .required (fun _ h => Reads.uint32 h) (fun _ => rfl) fun seen => by simp [draft]
    · exact .required (fun _ h => Hash.reads h) (fun _ => rfl) fun seen => by simp [draft]
    · exact .required (fun _ h => Reads.uint8 h) (fun _ => rfl) fun seen => by simp [draft]
    · refine .optional fun metadata hmetadata => ?_
      exact .required (fun _ h => Reads.optional h (.byteString h)) (fun _ => rfl) fun seen => by
        simp [draft, hmetadata]
    · exact .required (fun _ h => Reads.uint64 h) (fun _ => rfl) fun seen => by simp [draft]
    · exact .required (fun _ h => h ▸ Reads.bool tx.isValid) (fun _ => rfl) fun seen => by simp [draft]
    · exact .required
        (fun _ h => .list h (fun _ _ => RecordForm.starts) fun _ _ _ => ReferencedOutput.reads)
        (fun _ => rfl) fun seen => by simp [draft]
    · exact .required
        (fun _ h => .list h (fun _ _ => RecordForm.starts) fun _ _ _ => TxOutput.reads)
        (fun _ => rfl) fun seen => by simp [draft]
    · exact .required (fun _ h => Reads.uint32 h) (fun _ => rfl) fun seen => by simp [draft]
  narrow := by simp [fields, UInt32.size]
  other := by
    intro key unused d
    unfold Draft.readField
    split <;> first | rfl | exact absurd unused (by simp [fields])

theorem reads {tx : Tx} {bytes : Bytes} (form : tx.Form bytes) : Reads Tx.read bytes tx := by
  obtain ⟨seen, met, h⟩ := tx.readsFields.record form
  have hdraft : tx.draft seen = ⟨some tx.blockSlot, some tx.blockHash, some tx.indexInBlock,
      some tx.hash, some tx.eraId, tx.metadata, some tx.fee, some tx.isValid, some tx.inputs,
      some tx.outputs, some tx.firstOutputIndex⟩ := by
    obtain ⟨h0, h1, h2, h3, h4, h5, h6, h7, h8, h9, h10⟩ : 0 ∈ seen ∧ 1 ∈ seen ∧ 2 ∈ seen ∧
        3 ∈ seen ∧ 4 ∈ seen ∧ (tx.metadata.isSome → 5 ∈ seen) ∧ 6 ∈ seen ∧ 7 ∈ seen ∧ 8 ∈ seen ∧
        9 ∈ seen ∧ 10 ∈ seen := by
      simpa [fields] using met
    simp [draft, h0, h1, h2, h3, h4, ite_met h5, h6, h7, h8, h9, h10]
  rw [hdraft] at h
  exact .get_bind fun input => h.bind_ok fun rest => rfl

theorem form_write {tx : Tx} (h : tx.Storable) : tx.Form (Tx.write tx) := by
  refine RecordForm.write ?_ (by simp [UInt64.size]) (by simp [UInt64.size])
  refine .cons ⟨rfl, .write _ tx.blockSlot.toNat_lt⟩ ?_
  refine .cons ⟨rfl, tx.blockHash.form_write (by decide)⟩ ?_
  refine .cons ⟨rfl, .write _ (Nat.lt_trans tx.indexInBlock.toNat_lt (by decide))⟩ ?_
  refine .cons ⟨rfl, tx.hash.form_write (by decide)⟩ ?_
  refine .cons ⟨rfl, .write _ (Nat.lt_trans tx.eraId.toNat_lt (by decide))⟩ ?_
  refine .cons (.optional fun metadata hmetadata => .write _ (h.metadata metadata hmetadata)) ?_
  refine .cons ⟨rfl, .write _ tx.fee.toNat_lt⟩ ?_
  refine .cons ⟨rfl, rfl⟩ ?_
  refine .cons ⟨rfl, .write h.inputs fun o ho => ReferencedOutput.form_write (h.input o ho)⟩ ?_
  refine .cons ⟨rfl, .write h.outputs fun o ho => TxOutput.form_write (h.output o ho)⟩ ?_
  refine .cons ⟨rfl, .write _ (Nat.lt_trans tx.firstOutputIndex.toNat_lt (by decide))⟩ ?_
  exact .nil

theorem decode_encode {tx : Tx} (h : tx.Storable) : Record.decode (Record.encode tx) = .ok tx :=
  Record.decode_encode (reads (form_write h))

theorem encode_inj {tx tx' : Tx} (h : tx.Storable) (h' : tx'.Storable)
    (same : Record.encode tx = Record.encode tx') : tx = tx' :=
  Record.encode_inj (decode_encode h) (decode_encode h') same

end ChainIndex.Tx
