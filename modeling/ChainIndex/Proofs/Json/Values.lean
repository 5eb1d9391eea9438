import ChainIndex.Ledger.Json
import ChainIndex.Proofs.Json.Form
import ChainIndex.Proofs.Json.Hex

/-!
# JSON forms of the values of a chain

* `Hash.JsonForm`: the texts of a hash, in either case. `Hash.ofJson_eq_ok_iff`: they are all that is read as
  the hash.
* `Point.JsonForm`, `BlockHeader.JsonForm`, `ConfirmedBlock.JsonForm`, `OutputRef.JsonForm`,
  `TokenAmount.JsonForm`, `TxOutput.JsonForm`, `ReferencedOutput.JsonForm`, `Tx.JsonForm`: records, whose fields
  may stand in any order and among others, at every depth.
* For each type, `form_toJson`: what is written is one of the forms; `reads_ofJson`: each form is read as the
  value.
-/

namespace ChainIndex

open Json

/-! ## Numbers, octets and hashes -/

namespace Json

theorem natural_nat {bound n : Nat} (h : n < bound) : natural bound (.nat n) = .ok n := by
  have range : 0 ≤ (n : Int) ∧ (n : Int) < bound := by omega
  simp [natural, Json.nat, range]

theorem reads_uint8 : Reads Exact uint8 := by
  rintro n _ rfl
  show uint8 (.nat n.toNat) = _
  rw [uint8, natural_nat n.toNat_lt]
  simp [Functor.map, Except.map]

theorem reads_uint32 : Reads Exact uint32 := by
  rintro n _ rfl
  show uint32 (.nat n.toNat) = _
  rw [uint32, natural_nat n.toNat_lt]
  simp [Functor.map, Except.map]

theorem reads_uint64 : Reads Exact uint64 := by
  rintro n _ rfl
  show uint64 (.nat n.toNat) = _
  rw [uint64, natural_nat n.toNat_lt]
  simp [Functor.map, Except.map]

theorem reads_string : Reads Exact string := by
  rintro s _ rfl
  rfl

theorem reads_boolean : Reads Exact boolean := by
  rintro b _ rfl
  rfl

theorem exact_octets (bytes : Bytes) : Exact bytes (octetsToJson bytes) := rfl

theorem reads_octets : Reads Exact octets := by
  rintro bytes _ rfl
  exact reads_uint8.array bytes _ (.map fun _ _ => rfl)

end Json

namespace Hash

variable {size : Nat}

/-- The forms of a hash: its text, each letter in either case. -/
def JsonForm (hash : Hash size) (j : Json) : Prop := ∃ text, j = .str text ∧ text.toLower = hash.toHex

/-- A text stands for a hash where it is one. -/
theorem ofJson_str_eq_ok_iff {text : String} {hash : Hash size} :
    ofJson (.str text) = .ok hash ↔ parse text = .ok hash := by
  simp only [ofJson, Json.string, bind, Except.bind]
  cases (parse text : Except Hex.Error (Hash size)) with
  | error e => exact ⟨nofun, nofun⟩
  | ok hash => simp [pure, Except.pure]

/-- They are all that is read as the hash. -/
theorem ofJson_eq_ok_iff {hash : Hash size} {j : Json} : ofJson j = .ok hash ↔ hash.JsonForm j := by
  constructor
  · intro h
    cases j with
    | str text => exact ⟨text, rfl, parse_eq_ok_iff.1 (ofJson_str_eq_ok_iff.1 h)⟩
    | _ => cases h
  · rintro ⟨text, rfl, h⟩
    exact ofJson_str_eq_ok_iff.2 (parse_eq_ok_iff.2 h)

theorem reads_ofJson : Reads (α := Hash size) JsonForm ofJson := fun _ _ => ofJson_eq_ok_iff.2

theorem not_form_null (hash : Hash size) : ¬hash.JsonForm .null := fun ⟨_, h, _⟩ => nomatch h

theorem form_toJson (hash : Hash size) : hash.JsonForm hash.toJson := by
  have lower : ∀ n < 16, (Hex.digit n).toLower = Hex.digit n := by decide
  refine ⟨_, rfl, toLower_eq_toHex_iff.2 ?_⟩
  rw [toHex, Hex.encode_toList, List.map_map]
  exact List.map_congr_left fun n mem => lower n (Hex.lt_of_mem_nibbles mem)

end Hash

/-! ## Points, headers and blocks -/

namespace Point

/-- The forms of the fields. -/
def jsonFields (p : Point) : Fields := [
  ("slot", Exact p.slot),
  ("hash", p.hash.JsonForm),
  ("number", Exact p.number)]

/-- The forms of a point. -/
def JsonForm (p : Point) : Json → Prop := RecordForm p.jsonFields

/-- The draft after some of the fields. -/
def jsonDraft (p : Point) (seen : List String) : Draft where
  slot := if "slot" ∈ seen then some p.slot else none
  hash := if "hash" ∈ seen then some p.hash else none
  number := if "number" ∈ seen then some p.number else none

theorem readsJson (p : Point) : ReadsFields form p.jsonDraft p.jsonFields where
  own := by
    refine .cons (.of_reads reads_uint64 fun seen => by simp [jsonDraft]) ?_
    refine .cons (.of_reads Hash.reads_ofJson fun seen => by simp [jsonDraft]) ?_
    refine .cons (.of_reads reads_uint64 fun seen => by simp [jsonDraft]) ?_
    exact .nil
  nodup := by simp [jsonFields]
  empty := by simp [form, jsonDraft]

theorem reads_ofJson : Reads JsonForm ofJson := by
  refine fun p j => p.readsJson.decode fun seen met => ?_
  simp only [jsonFields, List.forall_mem_cons] at met
  obtain ⟨h0, h1, h2, -⟩ := met
  simp only [form, jsonDraft, if_pos, h0, h1, h2]
  rfl

theorem form_toJson (p : Point) : p.JsonForm p.toJson := by
  refine .ordered ?_
  refine .cons ⟨rfl, rfl⟩ ?_
  refine .cons ⟨rfl, p.hash.form_toJson⟩ ?_
  refine .cons ⟨rfl, rfl⟩ ?_
  exact .nil

end Point

namespace BlockHeader

/-- The forms of the fields. -/
def jsonFields (h : BlockHeader) : Fields := [
  ("slot", Exact h.slot),
  ("hash", h.hash.JsonForm),
  ("number", Exact h.number),
  ("era_id", Exact h.eraId)]

/-- The forms of a header. -/
def JsonForm (h : BlockHeader) : Json → Prop := RecordForm h.jsonFields

/-- The draft after some of the fields. -/
def jsonDraft (h : BlockHeader) (seen : List String) : Draft where
  slot := if "slot" ∈ seen then some h.slot else none
  hash := if "hash" ∈ seen then some h.hash else none
  number := if "number" ∈ seen then some h.number else none
  eraId := if "era_id" ∈ seen then some h.eraId else none

theorem readsJson (h : BlockHeader) : ReadsFields form h.jsonDraft h.jsonFields where
  own := by
    refine .cons (.of_reads reads_uint64 fun seen => by simp [jsonDraft]) ?_
    refine .cons (.of_reads Hash.reads_ofJson fun seen => by simp [jsonDraft]) ?_
    refine .cons (.of_reads reads_uint64 fun seen => by simp [jsonDraft]) ?_
    refine .cons (.of_reads reads_uint8 fun seen => by simp [jsonDraft]) ?_
    exact .nil
  nodup := by simp [jsonFields]
  empty := by simp [form, jsonDraft]

theorem reads_ofJson : Reads JsonForm ofJson := by
  refine fun h j => h.readsJson.decode fun seen met => ?_
  simp only [jsonFields, List.forall_mem_cons] at met
  obtain ⟨h0, h1, h2, h3, -⟩ := met
  simp only [form, jsonDraft, if_pos, h0, h1, h2, h3]
  rfl

theorem form_toJson (h : BlockHeader) : h.JsonForm h.toJson := by
  refine .ordered ?_
  refine .cons ⟨rfl, rfl⟩ ?_
  refine .cons ⟨rfl, h.hash.form_toJson⟩ ?_
  refine .cons ⟨rfl, rfl⟩ ?_
  refine .cons ⟨rfl, rfl⟩ ?_
  exact .nil

end BlockHeader

namespace ConfirmedBlock

/-- The forms of the fields. -/
def jsonFields (b : ConfirmedBlock) : Fields := [
  ("slot", Exact b.slot),
  ("number", Exact b.number),
  ("hash", b.hash.JsonForm),
  ("era_id", Exact b.eraId),
  ("tx_hashes", ArrayForm Hash.JsonForm b.txHashes)]

/-- The forms of a block. -/
def JsonForm (b : ConfirmedBlock) : Json → Prop := RecordForm b.jsonFields

/-- The draft after some of the fields. -/
def jsonDraft (b : ConfirmedBlock) (seen : List String) : Draft where
  slot := if "slot" ∈ seen then some b.slot else none
  number := if "number" ∈ seen then some b.number else none
  hash := if "hash" ∈ seen then some b.hash else none
  eraId := if "era_id" ∈ seen then some b.eraId else none
  txHashes := if "tx_hashes" ∈ seen then some b.txHashes else none

theorem readsJson (b : ConfirmedBlock) : ReadsFields form b.jsonDraft b.jsonFields where
  own := by
    refine .cons (.of_reads reads_uint64 fun seen => by simp [jsonDraft]) ?_
    refine .cons (.of_reads reads_uint64 fun seen => by simp [jsonDraft]) ?_
    refine .cons (.of_reads Hash.reads_ofJson fun seen => by simp [jsonDraft]) ?_
    refine .cons (.of_reads reads_uint8 fun seen => by simp [jsonDraft]) ?_
    refine .cons (.of_reads Hash.reads_ofJson.array fun seen => by simp [jsonDraft]) ?_
    exact .nil
  nodup := by simp [jsonFields]
  empty := by simp [form, jsonDraft]

theorem reads_ofJson : Reads JsonForm ofJson := by
  refine fun b j => b.readsJson.decode fun seen met => ?_
  simp only [jsonFields, List.forall_mem_cons] at met
  obtain ⟨h0, h1, h2, h3, h4, -⟩ := met
  simp only [form, jsonDraft, if_pos, h0, h1, h2, h3, h4]
  rfl

theorem form_toJson (b : ConfirmedBlock) : b.JsonForm b.toJson := by
  refine .ordered ?_
  refine .cons ⟨rfl, rfl⟩ ?_
  refine .cons ⟨rfl, rfl⟩ ?_
  refine .cons ⟨rfl, b.hash.form_toJson⟩ ?_
  refine .cons ⟨rfl, rfl⟩ ?_
  refine .cons ⟨rfl, .map fun a _ => Hash.form_toJson a⟩ ?_
  exact .nil

end ConfirmedBlock

/-! ## References, amounts and outputs -/

namespace OutputRef

/-- The forms of the fields. -/
def jsonFields (r : OutputRef) : Fields := [
  ("hash", r.hash.JsonForm),
  ("index", Exact r.index)]

/-- The forms of a reference. -/
def JsonForm (r : OutputRef) : Json → Prop := RecordForm r.jsonFields

/-- The draft after some of the fields. -/
def jsonDraft (r : OutputRef) (seen : List String) : Draft where
  hash := if "hash" ∈ seen then some r.hash else none
  index := if "index" ∈ seen then some r.index else none

theorem readsJson (r : OutputRef) : ReadsFields form r.jsonDraft r.jsonFields where
  own := by
    refine .cons (.of_reads Hash.reads_ofJson fun seen => by simp [jsonDraft]) ?_
    refine .cons (.of_reads reads_uint32 fun seen => by simp [jsonDraft]) ?_
    exact .nil
  nodup := by simp [jsonFields]
  empty := by simp [form, jsonDraft]

theorem reads_ofJson : Reads JsonForm ofJson := by
  refine fun r j => r.readsJson.decode fun seen met => ?_
  simp only [jsonFields, List.forall_mem_cons] at met
  obtain ⟨h0, h1, -⟩ := met
  simp only [form, jsonDraft, if_pos, h0, h1]
  rfl

theorem form_toJson (r : OutputRef) : r.JsonForm r.toJson := by
  refine .ordered ?_
  refine .cons ⟨rfl, r.hash.form_toJson⟩ ?_
  refine .cons ⟨rfl, rfl⟩ ?_
  exact .nil

end OutputRef

namespace TokenAmount

/-- The forms of the fields. -/
def jsonFields (t : TokenAmount) : Fields := [
  ("policy_id", Exact t.policyId),
  ("asset_name", Exact t.assetName),
  ("amount", Exact t.amount)]

/-- The forms of an amount. -/
def JsonForm (t : TokenAmount) : Json → Prop := RecordForm t.jsonFields

/-- The draft after some of the fields. -/
def jsonDraft (t : TokenAmount) (seen : List String) : Draft where
  policyId := if "policy_id" ∈ seen then some t.policyId else none
  assetName := if "asset_name" ∈ seen then some t.assetName else none
  amount := if "amount" ∈ seen then some t.amount else none

theorem readsJson (t : TokenAmount) : ReadsFields form t.jsonDraft t.jsonFields where
  own := by
    refine .cons (.of_reads reads_octets fun seen => by simp [jsonDraft]) ?_
    refine .cons (.of_reads reads_octets fun seen => by simp [jsonDraft]) ?_
    refine .cons (.of_reads reads_uint64 fun seen => by simp [jsonDraft]) ?_
    exact .nil
  nodup := by simp [jsonFields]
  empty := by simp [form, jsonDraft]

theorem reads_ofJson : Reads JsonForm ofJson := by
  refine fun t j => t.readsJson.decode fun seen met => ?_
  simp only [jsonFields, List.forall_mem_cons] at met
  obtain ⟨h0, h1, h2, -⟩ := met
  simp only [form, jsonDraft, if_pos, h0, h1, h2]
  rfl

theorem form_toJson (t : TokenAmount) : t.JsonForm t.toJson := by
  refine .ordered ?_
  refine .cons ⟨rfl, rfl⟩ ?_
  refine .cons ⟨rfl, rfl⟩ ?_
  refine .cons ⟨rfl, rfl⟩ ?_
  exact .nil

end TokenAmount

namespace TxOutput

/-- The forms of the fields. -/
def jsonFields (o : TxOutput) : Fields := [
  ("slot", Exact o.slot),
  ("address", Exact o.address),
  ("amount", Exact o.amount),
  ("tokens", ArrayForm TokenAmount.JsonForm o.tokens),
  ("datum", OptionForm Exact o.datum),
  ("datum_hash", OptionForm Hash.JsonForm o.datumHash),
  ("is_used", Exact o.isUsed)]

/-- The forms of an output. -/
def JsonForm (o : TxOutput) : Json → Prop := RecordForm o.jsonFields

/-- The draft after some of the fields. -/
def jsonDraft (o : TxOutput) (seen : List String) : Draft where
  slot := if "slot" ∈ seen then some o.slot else none
  address := if "address" ∈ seen then some o.address else none
  amount := if "amount" ∈ seen then some o.amount else none
  tokens := if "tokens" ∈ seen then some o.tokens else none
  datum := if "datum" ∈ seen then o.datum else none
  datumHash := if "datum_hash" ∈ seen then o.datumHash else none
  isUsed := if "is_used" ∈ seen then some o.isUsed else none

theorem readsJson (o : TxOutput) : ReadsFields form o.jsonDraft o.jsonFields where
  own := by
    refine .cons (.of_reads reads_uint64 fun seen => by simp [jsonDraft]) ?_
    refine .cons (.of_reads reads_string fun seen => by simp [jsonDraft]) ?_
    refine .cons (.of_reads reads_uint64 fun seen => by simp [jsonDraft]) ?_
    refine .cons (.of_reads TokenAmount.reads_ofJson.array fun seen => by simp [jsonDraft]) ?_
    refine .cons (.of_reads (reads_octets.optional nofun) fun seen => by simp [jsonDraft]) ?_
    refine .cons (.of_reads (Hash.reads_ofJson.optional Hash.not_form_null) fun seen => by simp [jsonDraft]) ?_
    refine .cons (.of_reads reads_boolean fun seen => by simp [jsonDraft]) ?_
    exact .nil
  nodup := by simp [jsonFields]
  empty := by simp [form, jsonDraft]

theorem reads_ofJson : Reads JsonForm ofJson := by
  refine fun o j => o.readsJson.decode fun seen met => ?_
  simp only [jsonFields, List.forall_mem_cons] at met
  obtain ⟨h0, h1, h2, h3, h4, h5, h6, -⟩ := met
  simp only [form, jsonDraft, if_pos, h0, h1, h2, h3, h4, h5, h6]
  rfl

theorem form_toJson (o : TxOutput) : o.JsonForm o.toJson := by
  refine .ordered ?_
  refine .cons ⟨rfl, rfl⟩ ?_
  refine .cons ⟨rfl, rfl⟩ ?_
  refine .cons ⟨rfl, rfl⟩ ?_
  refine .cons ⟨rfl, .map fun a _ => TokenAmount.form_toJson a⟩ ?_
  refine .cons ⟨rfl, .opt exact_octets _⟩ ?_
  refine .cons ⟨rfl, .opt Hash.form_toJson _⟩ ?_
  refine .cons ⟨rfl, rfl⟩ ?_
  exact .nil

end TxOutput

namespace ReferencedOutput

/-- The forms of the fields. -/
def jsonFields (o : ReferencedOutput) : Fields := [
  ("input", o.ref.JsonForm),
  ("output", o.output.JsonForm)]

/-- The forms of an output with its reference. -/
def JsonForm (o : ReferencedOutput) : Json → Prop := RecordForm o.jsonFields

/-- The draft after some of the fields. -/
def jsonDraft (o : ReferencedOutput) (seen : List String) : Draft where
  ref := if "input" ∈ seen then some o.ref else none
  output := if "output" ∈ seen then some o.output else none

theorem readsJson (o : ReferencedOutput) : ReadsFields form o.jsonDraft o.jsonFields where
  own := by
    refine .cons (.of_reads OutputRef.reads_ofJson fun seen => by simp [jsonDraft]) ?_
    refine .cons (.of_reads TxOutput.reads_ofJson fun seen => by simp [jsonDraft]) ?_
    exact .nil
  nodup := by simp [jsonFields]
  empty := by simp [form, jsonDraft]

theorem reads_ofJson : Reads JsonForm ofJson := by
  refine fun o j => o.readsJson.decode fun seen met => ?_
  simp only [jsonFields, List.forall_mem_cons] at met
  obtain ⟨h0, h1, -⟩ := met
  simp only [form, jsonDraft, if_pos, h0, h1]
  rfl

theorem form_toJson (o : ReferencedOutput) : o.JsonForm o.toJson := by
  refine .ordered ?_
  refine .cons ⟨rfl, o.ref.form_toJson⟩ ?_
  refine .cons ⟨rfl, o.output.form_toJson⟩ ?_
  exact .nil

end ReferencedOutput

/-! ## Transactions -/

namespace Tx

/-- The forms of the fields. -/
def jsonFields (tx : Tx) : Fields := [
  ("block_slot", Exact tx.blockSlot),
  ("block_hash", tx.blockHash.JsonForm),
  ("index_in_block", Exact tx.indexInBlock),
  ("hash", tx.hash.JsonForm),
  ("era_id", Exact tx.eraId),
  ("metadata", OptionForm Exact tx.metadata),
  ("fee", Exact tx.fee),
  ("is_valid", Exact tx.isValid),
  ("inputs", ArrayForm ReferencedOutput.JsonForm tx.inputs),
  ("outputs", ArrayForm TxOutput.JsonForm tx.outputs),
  ("first_output_index", Exact tx.firstOutputIndex)]

/-- The forms of a transaction. -/
def JsonForm (tx : Tx) : Json → Prop := RecordForm tx.jsonFields

/-- The draft after some of the fields. -/
def jsonDraft (tx : Tx) (seen : List String) : Draft where
  blockSlot := if "block_slot" ∈ seen then some tx.blockSlot else none
  blockHash := if "block_hash" ∈ seen then some tx.blockHash else none
  indexInBlock := if "index_in_block" ∈ seen then some tx.indexInBlock else none
  hash := if "hash" ∈ seen then some tx.hash else none
  eraId := if "era_id" ∈ seen then some tx.eraId else none
  metadata := if "metadata" ∈ seen then tx.metadata else none
  fee := if "fee" ∈ seen then some tx.fee else none
  isValid := if "is_valid" ∈ seen then some tx.isValid else none
  inputs := if "inputs" ∈ seen then some tx.inputs else none
  outputs := if "outputs" ∈ seen then some tx.outputs else none
  firstOutputIndex := if "first_output_index" ∈ seen then some tx.firstOutputIndex else none

theorem readsJson (tx : Tx) : ReadsFields form tx.jsonDraft tx.jsonFields where
  own := by
    refine .cons (.of_reads reads_uint64 fun seen => by simp [jsonDraft]) ?_
    refine .cons (.of_reads Hash.reads_ofJson fun seen => by simp [jsonDraft]) ?_
    refine .cons (.of_reads reads_uint32 fun seen => by simp [jsonDraft]) ?_
    refine .cons (.of_reads Hash.reads_ofJson fun seen => by simp [jsonDraft]) ?_
    refine .cons (.of_reads reads_uint8 fun seen => by simp [jsonDraft]) ?_
    refine .cons (.of_reads (reads_octets.optional nofun) fun seen => by simp [jsonDraft]) ?_
    refine .cons (.of_reads reads_uint64 fun seen => by simp [jsonDraft]) ?_
    refine .cons (.of_reads reads_boolean fun seen => by simp [jsonDraft]) ?_
    refine .cons (.of_reads ReferencedOutput.reads_ofJson.array fun seen => by simp [jsonDraft]) ?_
    refine .cons (.of_reads TxOutput.reads_ofJson.array fun seen => by simp [jsonDraft]) ?_
    refine .cons (.of_reads reads_uint32 fun seen => by simp [jsonDraft]) ?_
    exact .nil
  nodup := by simp [jsonFields]
  empty := by simp [form, jsonDraft]

theorem reads_ofJson : Reads JsonForm ofJson := by
  refine fun tx j => tx.readsJson.decode fun seen met => ?_
  simp only [jsonFields, List.forall_mem_cons] at met
  obtain ⟨h0, h1, h2, h3, h4, h5, h6, h7, h8, h9, h10, -⟩ := met
  simp only [form, jsonDraft, if_pos, h0, h1, h2, h3, h4, h5, h6, h7, h8, h9, h10]
  rfl

theorem form_toJson (tx : Tx) : tx.JsonForm tx.toJson := by
  refine .ordered ?_
  refine .cons ⟨rfl, rfl⟩ ?_
  refine .cons ⟨rfl, tx.blockHash.form_toJson⟩ ?_
  refine .cons ⟨rfl, rfl⟩ ?_
  refine .cons ⟨rfl, tx.hash.form_toJson⟩ ?_
  refine .cons ⟨rfl, rfl⟩ ?_
  refine .cons ⟨rfl, .opt exact_octets _⟩ ?_
  refine .cons ⟨rfl, rfl⟩ ?_
  refine .cons ⟨rfl, rfl⟩ ?_
  refine .cons ⟨rfl, .map fun a _ => ReferencedOutput.form_toJson a⟩ ?_
  refine .cons ⟨rfl, .map fun a _ => TxOutput.form_toJson a⟩ ?_
  refine .cons ⟨rfl, rfl⟩ ?_
  exact .nil

end Tx

end ChainIndex
