import ChainIndex.Chain.Cbor
import ChainIndex.Proofs.Cbor.Fields

/-!
# Forms of hashes, points and blocks

For each record type: the forms of its fields (`fields`), its own form (`Form`), the draft after some of the
fields (`draft`), that every form is read as the value (`reads`), and that the value is written in
one of the forms (`form_write`).

* `Hash.Form`, `Point.Form`, `ConfirmedBlock.Form`.
* `Point.decode_encode`, `ConfirmedBlock.decode_encode`: points and blocks are read back from their octets.
-/

namespace ChainIndex

open Cbor Cbor.Reader

namespace Hash

variable {size : Nat}

/-- The octets of a hash. -/
def Form (hash : Hash size) : Bytes → Prop := DefiniteString .bytes hash.bytes

theorem reads {hash : Hash size} {bytes : Bytes} (form : hash.Form bytes) :
    Reads Hash.read bytes hash := by
  refine (Reads.byteString form).bind_ok fun rest => ?_
  rw [Hash.ofBytes?_bytes]
  rfl

theorem form_write (hash : Hash size) (h : size < UInt64.size) :
    hash.Form (Write.byteString hash.bytes) := .write .bytes (by rwa [hash.length_bytes])

end Hash

namespace Point

/-- The forms of the fields. -/
def fields (p : Point) : Fields := [
  (0, some (Head .unsigned p.slot.toNat)),
  (1, some p.hash.Form),
  (2, some (Head .unsigned p.number.toNat))]

/-- The octets of a point. -/
def Form (p : Point) : Bytes → Prop := RecordForm p.fields

/-- The draft after some of the fields. -/
def draft (p : Point) (seen : List Nat) : Draft where
  slot := if 0 ∈ seen then some p.slot else none
  hash := if 1 ∈ seen then some p.hash else none
  number := if 2 ∈ seen then some p.number else none

theorem readsFields (p : Point) : ReadsFields Draft.readField p.draft p.fields where
  own := by
    simp only [fields, List.forall_mem_cons]
    refine ⟨?_, ?_, ?_, by simp⟩
    · exact .required (fun _ h => Reads.uint64 h) (fun _ => rfl) fun seen => by simp [draft]
    · exact .required (fun _ h => Hash.reads h) (fun _ => rfl) fun seen => by simp [draft]
    · exact .required (fun _ h => Reads.uint64 h) (fun _ => rfl) fun seen => by simp [draft]
  narrow := by simp [fields, UInt32.size]
  other := by
    intro key unused d
    unfold Draft.readField
    split <;> first | rfl | exact absurd unused (by simp [fields])

theorem reads {p : Point} {bytes : Bytes} (form : p.Form bytes) : Reads Point.read bytes p := by
  obtain ⟨seen, met, h⟩ := p.readsFields.record form
  have hdraft : p.draft seen = ⟨some p.slot, some p.hash, some p.number⟩ := by
    obtain ⟨h0, h1, h2⟩ : 0 ∈ seen ∧ 1 ∈ seen ∧ 2 ∈ seen := by simpa [fields] using met
    simp [draft, h0, h1, h2]
  rw [hdraft] at h
  exact .get_bind fun input => h.bind_ok fun rest => rfl

theorem form_write (p : Point) : p.Form (Point.write p) := by
  refine RecordForm.write ?_ (by simp [UInt64.size]) (by simp [UInt64.size])
  refine .cons ⟨rfl, .write _ p.slot.toNat_lt⟩ ?_
  refine .cons ⟨rfl, p.hash.form_write (by decide)⟩ ?_
  refine .cons ⟨rfl, .write _ p.number.toNat_lt⟩ ?_
  exact .nil

theorem decode_encode (p : Point) : Record.decode (Record.encode p) = .ok p :=
  Record.decode_encode (reads p.form_write)

end Point

namespace ConfirmedBlock

/-- The list of a block has a length below 2^64, as in any memory. -/
structure Storable (b : ConfirmedBlock) : Prop where
  txHashes : b.txHashes.length < UInt64.size

/-- The forms of the fields. -/
def fields (b : ConfirmedBlock) : Fields := [
  (0, some (Head .unsigned b.slot.toNat)),
  (1, some (Head .unsigned b.number.toNat)),
  (2, some b.hash.Form),
  (3, some (Head .unsigned b.eraId.toNat)),
  (4, some (ListForm Hash.Form b.txHashes))]

/-- The octets of a block. -/
def Form (b : ConfirmedBlock) : Bytes → Prop := RecordForm b.fields

/-- The draft after some of the fields. -/
def draft (b : ConfirmedBlock) (seen : List Nat) : Draft where
  slot := if 0 ∈ seen then some b.slot else none
  number := if 1 ∈ seen then some b.number else none
  hash := if 2 ∈ seen then some b.hash else none
  eraId := if 3 ∈ seen then some b.eraId else none
  txHashes := if 4 ∈ seen then some b.txHashes else none

theorem readsFields (b : ConfirmedBlock) : ReadsFields Draft.readField b.draft b.fields where
  own := by
    simp only [fields, List.forall_mem_cons]
    refine ⟨?_, ?_, ?_, ?_, ?_, by simp⟩
    · exact .required (fun _ h => Reads.uint64 h) (fun _ => rfl) fun seen => by simp [draft]
    · exact .required (fun _ h => Reads.uint64 h) (fun _ => rfl) fun seen => by simp [draft]
    · exact .required (fun _ h => Hash.reads h) (fun _ => rfl) fun seen => by simp [draft]
    · exact .required (fun _ h => Reads.uint8 h) (fun _ => rfl) fun seen => by simp [draft]
    · exact .required (fun _ h => .list h (fun _ _ => DefiniteString.starts) fun _ _ _ => Hash.reads)
        (fun _ => rfl) fun seen => by simp [draft]
  narrow := by simp [fields, UInt32.size]
  other := by
    intro key unused d
    unfold Draft.readField
    split <;> first | rfl | exact absurd unused (by simp [fields])

theorem reads {b : ConfirmedBlock} {bytes : Bytes} (form : b.Form bytes) :
    Reads ConfirmedBlock.read bytes b := by
  obtain ⟨seen, met, h⟩ := b.readsFields.record form
  have hdraft : b.draft seen =
      ⟨some b.slot, some b.number, some b.hash, some b.eraId, some b.txHashes⟩ := by
    obtain ⟨h0, h1, h2, h3, h4⟩ : 0 ∈ seen ∧ 1 ∈ seen ∧ 2 ∈ seen ∧ 3 ∈ seen ∧ 4 ∈ seen := by
      simpa [fields] using met
    simp [draft, h0, h1, h2, h3, h4]
  rw [hdraft] at h
  exact .get_bind fun input => h.bind_ok fun rest => rfl

theorem form_write {b : ConfirmedBlock} (h : b.Storable) : b.Form (ConfirmedBlock.write b) := by
  refine RecordForm.write ?_ (by simp [UInt64.size]) (by simp [UInt64.size])
  refine .cons ⟨rfl, .write _ b.slot.toNat_lt⟩ ?_
  refine .cons ⟨rfl, .write _ b.number.toNat_lt⟩ ?_
  refine .cons ⟨rfl, b.hash.form_write (by decide)⟩ ?_
  refine .cons ⟨rfl, .write _ (Nat.lt_trans b.eraId.toNat_lt (by decide))⟩ ?_
  refine .cons ⟨rfl, .write h.txHashes fun hash _ => hash.form_write (by decide)⟩ ?_
  exact .nil

theorem decode_encode {b : ConfirmedBlock} (h : b.Storable) :
    Record.decode (Record.encode b) = .ok b := Record.decode_encode (reads (form_write h))

end ConfirmedBlock

end ChainIndex
