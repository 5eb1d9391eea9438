import ChainIndex.Fixture.Basic
import ChainIndex.Proofs.Cbor.Tx

/-!
# Stored records

* `records_lossless`: a value of each stored type comes back from its octets with every field as it was,
  whatever follows them; so different values never share octets, and no value's octets begin those of
  another one.
* `records_tolerant`: the same holds of every form of a record: its entries and those of the records in
  it may stand in any order, with any items under numbers that the record does not use, and in
  definite and indefinite containers.
-/

namespace ChainIndex

open Cbor

/-- Values are read back from their octets, whatever follows. -/
structure Lossless (α : Type) [Record α] (Storable : α → Prop) : Prop where
  decode_encode : ∀ a, Storable a → ∀ rest, Record.decode (Record.encode a ++ rest) = .ok a
  injective : ∀ a b, Storable a → Storable b → Record.encode a = Record.encode b → a = b
  prefix_free : ∀ a b, Storable a → Storable b → Record.encode a <+: Record.encode b → a = b

theorem Lossless.of_reads {α : Type} [Record α] {Storable : α → Prop}
    (h : ∀ a, Storable a → Reads Record.read (Record.encode a) a) : Lossless α Storable := by
  have decode_encode : ∀ a, Storable a → ∀ rest, Record.decode (Record.encode a ++ rest) = .ok a :=
    fun a ha rest => Record.decode_of_reads (h a ha) rest
  have prefix_free : ∀ a b, Storable a → Storable b → Record.encode a <+: Record.encode b → a = b := by
    rintro a b ha hb ⟨rest, hrest⟩
    have hfront := decode_encode a ha rest
    rw [hrest, Record.decode_encode (h b hb)] at hfront
    exact (Except.ok.inj hfront).symm
  refine ⟨decode_encode, fun a b ha hb heq => prefix_free a b ha hb ⟨[], ?_⟩, prefix_free⟩
  rw [List.append_nil, heq]

/-- All values of the stored types are read back, those that hold strings and lists if these have lengths
below 2^64, as in any memory. -/
theorem records_lossless :
    Lossless (Hash 32) (fun _ => True) ∧
    Lossless Point (fun _ => True) ∧
    Lossless OutputRef (fun _ => True) ∧
    Lossless TokenAmount TokenAmount.Storable ∧
    Lossless TxOutput TxOutput.Storable ∧
    Lossless ReferencedOutput (·.output.Storable) ∧
    Lossless Tx Tx.Storable ∧
    Lossless ConfirmedBlock ConfirmedBlock.Storable := by
  refine ⟨.of_reads fun hash _ => ?_, .of_reads fun p _ => ?_, .of_reads fun r _ => ?_,
    .of_reads fun t h => ?_, .of_reads fun o h => ?_, .of_reads fun o h => ?_,
    .of_reads fun tx h => ?_, .of_reads fun b h => ?_⟩
  · exact Hash.reads (hash.form_write (by decide))
  · exact Point.reads p.form_write
  · exact OutputRef.reads r.form_write
  · exact TokenAmount.reads (TokenAmount.form_write h)
  · exact TxOutput.reads (TxOutput.form_write h)
  · exact ReferencedOutput.reads (ReferencedOutput.form_write h)
  · exact Tx.reads (Tx.form_write h)
  · exact ConfirmedBlock.reads (ConfirmedBlock.form_write h)

/-- A transaction that spends and creates the largest amount of a token without a policy, at an address beyond
ASCII and with an empty datum. -/
def Fixture.tokenTx : Tx :=
  let output : TxOutput :=
    { slot := 1, address := "ädresse", amount := 5, tokens := [⟨[], [0xff], 0xffffffffffffffff⟩],
      datum := some [] }
  { Fixture.tx 1 0 [] [output] with inputs := [⟨⟨Fixture.txHash 0 3, 1⟩, output⟩] }

/-- It is read back with the amount of the token, though another octet follows. -/
theorem decode_encode_tokenTx :
    Fixture.tokenTx.Storable ∧
    Record.decode (Record.encode Fixture.tokenTx ++ [0xff]) = .ok Fixture.tokenTx := by
  have output : ∀ o ∈ Fixture.tokenTx.outputs, o.Storable := by
    rintro o mem
    obtain rfl := List.mem_singleton.1 mem
    refine ⟨by decide, by decide, fun t ht => ?_, fun datum h => ?_⟩
    · obtain rfl := List.mem_singleton.1 ht
      exact ⟨by decide, by decide⟩
    · cases h
      decide
  have storable : Fixture.tokenTx.Storable := by
    refine ⟨fun _ absent => (nomatch absent), by decide, fun o mem => ?_, by decide, output⟩
    obtain rfl := List.mem_singleton.1 mem
    exact output _ List.mem_cons_self
  exact ⟨storable, records_lossless.2.2.2.2.2.2.1.decode_encode _ storable [0xff]⟩

/-- What is written is one of the forms of a value, and each form is read as the value, whatever follows. -/
structure Tolerant (α : Type) [Record α] (Storable : α → Prop) (Form : α → Bytes → Prop) : Prop where
  encode : ∀ a, Storable a → Form a (Record.encode a)
  decode : ∀ a bytes, Form a bytes → ∀ rest, Record.decode (bytes ++ rest) = .ok a

/-- Every form of a stored record is read as the record. -/
theorem records_tolerant :
    Tolerant Point (fun _ => True) Point.Form ∧
    Tolerant OutputRef (fun _ => True) OutputRef.Form ∧
    Tolerant TokenAmount TokenAmount.Storable TokenAmount.Form ∧
    Tolerant TxOutput TxOutput.Storable TxOutput.Form ∧
    Tolerant ReferencedOutput (·.output.Storable) ReferencedOutput.Form ∧
    Tolerant Tx Tx.Storable Tx.Form ∧
    Tolerant ConfirmedBlock ConfirmedBlock.Storable ConfirmedBlock.Form := by
  refine ⟨⟨fun p _ => p.form_write, fun p _ form => ?_⟩, ⟨fun r _ => r.form_write, fun r _ form => ?_⟩,
    ⟨fun t => TokenAmount.form_write, fun t _ form => ?_⟩,
    ⟨fun o => TxOutput.form_write, fun o _ form => ?_⟩,
    ⟨fun o => ReferencedOutput.form_write, fun o _ form => ?_⟩,
    ⟨fun tx => Tx.form_write, fun tx _ form => ?_⟩,
    ⟨fun b => ConfirmedBlock.form_write, fun b _ form => ?_⟩⟩
  · exact Record.decode_of_reads (Point.reads form)
  · exact Record.decode_of_reads (OutputRef.reads form)
  · exact Record.decode_of_reads (TokenAmount.reads form)
  · exact Record.decode_of_reads (TxOutput.reads form)
  · exact Record.decode_of_reads (ReferencedOutput.reads form)
  · exact Record.decode_of_reads (Tx.reads form)
  · exact Record.decode_of_reads (ConfirmedBlock.reads form)

/-- An amount of a token, its fields in another order and a simple value among them. -/
theorem tokenAmount_form :
    TokenAmount.Form ⟨[0xaa], [], 7⟩
      [0xa4, 0x02, 0x07, 0x07, 0xe0, 0x00, 0x41, 0xaa, 0x01, 0x40] := by
  refine @RecordForm.intro _ [(0, [0x41, 0xaa]), (1, [0x40]), (2, [0x07])] [(7, [0xe0])]
    [(2, [0x07]), (7, [0xe0]), (0, [0x41, 0xaa]), (1, [0x40])]
    [[0x02, 0x07], [0x07, 0xe0], [0x00, 0x41, 0xaa], [0x01, 0x40]] _ ?_ ?_ (by decide) ?_ ?_
  · refine .cons ⟨rfl, ⟨.short (by decide)⟩⟩ ?_
    refine .cons ⟨rfl, ⟨.short (by decide)⟩⟩ ?_
    refine .cons ⟨rfl, .short (by decide)⟩ ?_
    exact .nil
  · intro entry mem
    obtain rfl := List.mem_singleton.1 mem
    exact ⟨by decide, by decide, @WellFormed.simple 0 (by decide)⟩
  · refine .cons ⟨[0x02], .short (by decide), rfl⟩ ?_
    refine .cons ⟨[0x07], .short (by decide), rfl⟩ ?_
    refine .cons ⟨[0x00], .short (by decide), rfl⟩ ?_
    refine .cons ⟨[0x01], .short (by decide), rfl⟩ ?_
    exact .nil
  · exact .definite (.short (by decide))

/-- A tagged indefinite array of a float, null and a text in chunks. -/
theorem wellFormed_tagged :
    WellFormed [0xc1, 0x9f, 0xf9, 0x3c, 0x00, 0xf6, 0x7f, 0x61, 0x61, 0xff, 0xff] := by
  have float : WellFormed [0xf9, 0x3c, 0x00] :=
    @WellFormed.float 25 2 [0x3c, 0x00] (by simp) rfl
  have null : WellFormed [0xf6] := @WellFormed.simple 22 (by decide)
  have chunks : WellFormed [0x7f, 0x61, 0x61, 0xff] := by
    refine @WellFormed.textChunks [[0x61, 0x61]] fun chunk mem => ?_
    obtain rfl := List.mem_singleton.1 mem
    exact ⟨"a", ⟨.short (by decide)⟩⟩
  have array : WellFormed [0x9f, 0xf9, 0x3c, 0x00, 0xf6, 0x7f, 0x61, 0x61, 0xff, 0xff] := by
    refine @WellFormed.array [[0xf9, 0x3c, 0x00], [0xf6], [0x7f, 0x61, 0x61, 0xff]] _ ?_ .indefinite
    simp [float, null, chunks]
  exact @WellFormed.tag 1 [0xc1] _ (.short (by decide)) array

/-- An output as an indefinite map in another order, with a longer head, its tokens as an indefinite array,
and an item of no field: it is read as the output, though another octet follows. -/
theorem decode_txOutput_form :
    let output : TxOutput :=
      { slot := 1, address := "a", amount := 5, tokens := [⟨[0xaa], [], 7⟩], isUsed := true }
    let tokens : Bytes := [0x9f, 0xa4, 0x02, 0x07, 0x07, 0xe0, 0x00, 0x41, 0xaa, 0x01, 0x40, 0xff]
    let added : Bytes := [0xc1, 0x9f, 0xf9, 0x3c, 0x00, 0xf6, 0x7f, 0x61, 0x61, 0xff, 0xff]
    let bytes : Bytes := [0xbf, 0x03] ++ tokens ++ [0x09] ++ added ++
      [0x06, 0xf5, 0x02, 0x18, 0x05, 0x00, 0x01, 0x01, 0x61, 0x61, 0xff]
    output.Form bytes ∧ Record.decode (bytes ++ [0x00]) = .ok output := by
  intro output tokens added bytes
  have form : output.Form bytes := by
    refine @RecordForm.intro _
      [(0, [0x01]), (1, [0x61, 0x61]), (2, [0x18, 0x05]), (3, tokens), (6, [0xf5])] [(9, added)]
      [(3, tokens), (9, added), (6, [0xf5]), (2, [0x18, 0x05]), (0, [0x01]), (1, [0x61, 0x61])]
      [0x03 :: tokens, 0x09 :: added, [0x06, 0xf5], [0x02, 0x18, 0x05], [0x00, 0x01],
        [0x01, 0x61, 0x61]] _ ?_ ?_ (by decide) ?_ .indefinite
    · refine .cons ⟨rfl, .short (by decide)⟩ ?_
      refine .cons ⟨rfl, ⟨.short (by decide)⟩⟩ ?_
      refine .cons ⟨rfl, @Head.long _ _ 24 1 [0x05] (by simp [widths]) rfl rfl⟩ ?_
      refine .cons ⟨rfl, .intro (.cons tokenAmount_form .nil) .indefinite⟩ ?_
      refine .cons ⟨rfl, rfl⟩ ?_
      exact .nil
    · intro entry mem
      obtain rfl := List.mem_singleton.1 mem
      exact ⟨by decide, by decide, wellFormed_tagged⟩
    · refine .cons ⟨[0x03], .short (by decide), rfl⟩ ?_
      refine .cons ⟨[0x09], .short (by decide), rfl⟩ ?_
      refine .cons ⟨[0x06], .short (by decide), rfl⟩ ?_
      refine .cons ⟨[0x02], .short (by decide), rfl⟩ ?_
      refine .cons ⟨[0x00], .short (by decide), rfl⟩ ?_
      refine .cons ⟨[0x01], .short (by decide), rfl⟩ ?_
      exact .nil
  exact ⟨form, records_tolerant.2.2.2.1.decode _ _ form [0x00]⟩

end ChainIndex
