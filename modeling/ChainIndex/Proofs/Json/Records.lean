import ChainIndex.Proofs.Json.Values
import ChainIndex.Proofs.Json.Written

/-!
# JSON keeps the values of a chain

* `Json.RoundTrips`: what is written of a type is one of its forms, and each form, as a value or as a text, is read
  as what it stands for.
* `json_lossless`: hashes, points, headers, blocks, references, amounts, outputs and transactions are kept so.
-/

namespace ChainIndex

open Json

/-! ## What is written is plain -/

namespace Json

theorem plain_nat {depth n : Nat} (h : n < UInt64.size) : Plain depth (.nat n) := by
  simp only [UInt64.size] at h
  exact .int (by omega) (by omega)

theorem plain_uint8 {depth : Nat} (n : UInt8) : Plain depth (.nat n.toNat) :=
  plain_nat (Nat.lt_trans n.toNat_lt_size (by decide))

theorem plain_uint32 {depth : Nat} (n : UInt32) : Plain depth (.nat n.toNat) :=
  plain_nat (Nat.lt_trans n.toNat_lt_size (by decide))

theorem plain_uint64 {depth : Nat} (n : UInt64) : Plain depth (.nat n.toNat) := plain_nat n.toNat_lt_size

theorem plain_map {α : Type} {write : α → Json} {depth : Nat} (h : ∀ a, Plain depth (write a)) (as : List α) :
    Plain (depth + 1) (.arr (as.map write)) := by
  refine .arr fun item mem => ?_
  obtain ⟨a, -, rfl⟩ := List.mem_map.1 mem
  exact h a

theorem plain_opt {α : Type} {write : α → Json} {depth : Nat} (h : ∀ a, Plain depth (write a)) :
    ∀ a? : Option α, Plain depth (.opt (a?.map write))
  | none => .null
  | some a => h a

theorem plain_octets {depth : Nat} (bytes : Bytes) : Plain (depth + 1) (octetsToJson bytes) :=
  plain_map plain_uint8 bytes

theorem plain_obj {depth : Nat} {fields : List (String × Json)}
    (h : fields.Forall fun field => Plain depth field.2) (nodup : (fields.map (·.1)).Nodup) :
    Plain (depth + 1) (.obj fields) :=
  .obj (List.forall_iff_forall_mem.1 h) nodup

end Json

variable {depth : Nat}

theorem Hash.plain_toJson {size : Nat} (hash : Hash size) : Plain depth hash.toJson := .str _

theorem Point.plain_toJson (p : Point) : Plain (depth + 1) p.toJson :=
  plain_obj ⟨plain_uint64 _, p.hash.plain_toJson, plain_uint64 _⟩ (by simp)

theorem BlockHeader.plain_toJson (h : BlockHeader) : Plain (depth + 1) h.toJson :=
  plain_obj ⟨plain_uint64 _, h.hash.plain_toJson, plain_uint64 _, plain_uint8 _⟩ (by simp)

theorem ConfirmedBlock.plain_toJson (b : ConfirmedBlock) : Plain (depth + 2) b.toJson :=
  plain_obj ⟨plain_uint64 _, plain_uint64 _, b.hash.plain_toJson, plain_uint8 _, plain_map Hash.plain_toJson _⟩
    (by simp)

theorem OutputRef.plain_toJson (r : OutputRef) : Plain (depth + 1) r.toJson :=
  plain_obj ⟨r.hash.plain_toJson, plain_uint32 _⟩ (by simp)

theorem TokenAmount.plain_toJson (t : TokenAmount) : Plain (depth + 2) t.toJson :=
  plain_obj ⟨plain_octets _, plain_octets _, plain_uint64 _⟩ (by simp)

theorem TxOutput.plain_toJson (o : TxOutput) : Plain (depth + 4) o.toJson :=
  plain_obj ⟨plain_uint64 _, .str _, plain_uint64 _, plain_map TokenAmount.plain_toJson _,
    plain_opt plain_octets _, plain_opt Hash.plain_toJson _, .bool _⟩ (by simp)

theorem ReferencedOutput.plain_toJson (o : ReferencedOutput) : Plain (depth + 5) o.toJson :=
  plain_obj ⟨o.ref.plain_toJson, o.output.plain_toJson⟩ (by simp)

theorem Tx.plain_toJson (tx : Tx) : Plain (depth + 7) tx.toJson :=
  plain_obj ⟨plain_uint64 _, tx.blockHash.plain_toJson, plain_uint32 _, tx.hash.plain_toJson, plain_uint8 _,
    plain_opt plain_octets _, plain_uint64 _, .bool _, plain_map ReferencedOutput.plain_toJson _,
    plain_map TxOutput.plain_toJson _, plain_uint32 _⟩ (by simp)

/-! ## Round trips -/

namespace Json

/-- How a type is kept in JSON, if `form` says what stands for its values. -/
structure RoundTrips (α : Type) [ToJson α] [FromJson α] (form : α → Json → Prop) : Prop where
  /-- What is written is one of the forms. -/
  writes (a : α) : form a (toJson a)
  /-- Each form is read as the value. -/
  reads (a : α) (j : Json) (h : form a j) : FromJson.ofJson j = .ok a
  /-- So is each text of a form, however it is laid out. -/
  readsText (a : α) (j : Json) (h : form a j) (text : String) (laid : Laid 127 j text.toList) :
    (parse? text).map FromJson.ofJson = some (.ok a : Except DecodeError α)
  /-- What is written on one line is read back. -/
  compact (a : α) : (parse? (compact (toJson a))).map FromJson.ofJson = some (.ok a : Except DecodeError α)
  /-- What is written over several lines is read back. -/
  pretty (a : α) : (parse? (pretty (toJson a))).map FromJson.ofJson = some (.ok a : Except DecodeError α)

/-- A type whose forms are read is kept, if what is written of it is plain. -/
theorem RoundTrips.of_reads {α : Type} [ToJson α] [FromJson α] {form : α → Json → Prop}
    (reads : Reads form (FromJson.ofJson (α := α))) (writes : ∀ a, form a (toJson a))
    (plain : ∀ a : α, Plain 127 (toJson a)) : RoundTrips α form := by
  have readsText (a : α) (j : Json) (h : form a j) (text : String) (laid : Laid 127 j text.toList) :
      (parse? text).map FromJson.ofJson = some (.ok a : Except DecodeError α) := by
    rw [parse?_laid laid, Option.map_some, reads a j h]
  exact {
    writes, reads, readsText
    compact a := readsText a _ (writes a) _ (plain a).laid_compact
    pretty a := readsText a _ (writes a) _ (plain a).laid_pretty }

end Json

/-- Hashes of every size and the records of a chain are kept in JSON. The texts of a hash, alone or as JSON, are
those of two hexadecimal digits for each octet. -/
theorem json_lossless :
    (∀ size, RoundTrips (Hash size) Hash.JsonForm) ∧ RoundTrips Point Point.JsonForm ∧
      RoundTrips BlockHeader BlockHeader.JsonForm ∧ RoundTrips OutputRef OutputRef.JsonForm ∧
      RoundTrips TokenAmount TokenAmount.JsonForm ∧ RoundTrips TxOutput TxOutput.JsonForm ∧
      RoundTrips ReferencedOutput ReferencedOutput.JsonForm ∧ RoundTrips Tx Tx.JsonForm ∧
      RoundTrips ConfirmedBlock ConfirmedBlock.JsonForm ∧
      ∀ size text,
        ((∃ hash : Hash size, Hash.parse text = .ok hash) ↔
          text.length = 2 * size ∧ ∀ c ∈ text.toList, Hex.IsDigit c) ∧
        ∀ hash : Hash size, Hash.ofJson (.str text) = .ok hash ↔ Hash.parse text = .ok hash := by
  refine ⟨fun size => ?_, ?_, ?_, ?_, ?_, ?_, ?_, ?_, ?_, fun size text => ?_⟩
  · exact .of_reads Hash.reads_ofJson Hash.form_toJson Hash.plain_toJson
  · exact .of_reads Point.reads_ofJson Point.form_toJson Point.plain_toJson
  · exact .of_reads BlockHeader.reads_ofJson BlockHeader.form_toJson BlockHeader.plain_toJson
  · exact .of_reads OutputRef.reads_ofJson OutputRef.form_toJson OutputRef.plain_toJson
  · exact .of_reads TokenAmount.reads_ofJson TokenAmount.form_toJson TokenAmount.plain_toJson
  · exact .of_reads TxOutput.reads_ofJson TxOutput.form_toJson TxOutput.plain_toJson
  · exact .of_reads ReferencedOutput.reads_ofJson ReferencedOutput.form_toJson ReferencedOutput.plain_toJson
  · exact .of_reads Tx.reads_ofJson Tx.form_toJson Tx.plain_toJson
  · exact .of_reads ConfirmedBlock.reads_ofJson ConfirmedBlock.form_toJson ConfirmedBlock.plain_toJson
  · exact ⟨Hash.exists_parse_iff, fun hash => Hash.ofJson_str_eq_ok_iff⟩

/-- A reference with its fields in another order, an unknown one between them and upper-case digits. -/
theorem json_lossless_shuffled :
    OutputRef.ofJson (.obj [("index", .nat 1), ("memo", .arr [.null]),
        ("hash", .str (String.ofList (List.replicate 64 'A')))]) =
      .ok ⟨⟨List.replicate 32 0xaa, by decide⟩, 1⟩ := by
  have own : List.Forall₂ IsField (OutputRef.jsonFields ⟨⟨List.replicate 32 0xaa, by decide⟩, 1⟩)
      [("hash", .str (String.ofList (List.replicate 64 'A'))), ("index", .nat 1)] := by
    refine .cons ⟨rfl, _, rfl, ?_⟩ (.cons ⟨rfl, rfl⟩ .nil)
    rw [Hash.toLower_eq_toHex_iff, String.toList_ofList]
    decide
  have added : ∀ entry ∈ [("memo", Json.arr [.null])], entry.1 ∉ ["hash", "index"] := by simp
  exact json_lossless.2.2.2.1.reads _ _ (.intro own added (@List.perm_append_comm _ [_, _] [_]))

end ChainIndex
