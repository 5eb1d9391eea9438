import ChainIndex.Fixture.Basic
import ChainIndex.Proofs.Storage.Media
import ChainIndex.Proofs.Storage.Utxos
import Mathlib.Data.List.Sort

/-!
# Listings of outputs

* `ReferencedOutput.Precedes`: the strict order of listings, by slot, hash and index; it is that of octets
  (`ReferencedOutput.precedes_iff`). Outputs with distinct references are sorted into strict order
  (`ReferencedOutput.pairwise_sort`).
* `exists_listing`: a visit of all entries, in whatever order they come, makes a listing in strict order.
* `outputsAt_canonical`: so the listing of an address is the only list in strict order of the outputs that
  are asked for.
-/

namespace ChainIndex

namespace ReferencedOutput

/-- The strict order of listings: producing slot, then hash, then index. -/
def Precedes (a b : ReferencedOutput) : Prop :=
  a.output.slot < b.output.slot ∨ a.output.slot = b.output.slot ∧
    (a.ref.hash < b.ref.hash ∨ a.ref.hash = b.ref.hash ∧ a.ref.index < b.ref.index)

instance (a b : ReferencedOutput) : Decidable (a.Precedes b) :=
  inferInstanceAs (Decidable (_ ∨ _ ∧ (_ ∨ _ ∧ _)))

/-- Octets that stand in the order of listings. -/
def rank (o : ReferencedOutput) : Bytes := Key.ofSlot o.output.slot ++ o.ref.key

variable {a b : ReferencedOutput}

theorem precedes_iff : a.Precedes b ↔ a.rank < b.rank := by
  rw [Precedes, rank, rank, append_lt_iff (by simp [Key.ofSlot]), Key.ofSlot_lt_iff, Key.ofSlot_inj,
    OutputRef.key_lt_iff]

theorem eq_of_rank_eq (h : a.rank = b.rank) : a.output.slot = b.output.slot ∧ a.ref = b.ref := by
  obtain ⟨slot, key⟩ := List.append_inj h (by simp [Key.ofSlot])
  exact ⟨Key.ofSlot_inj.1 slot, OutputRef.key_inj key⟩

instance : Std.Asymm Precedes :=
  ⟨fun _ _ h h' => List.lt_asymm (precedes_iff.1 h) (precedes_iff.1 h')⟩

/-- Of two outputs one precedes the other, or they have one slot and one reference. -/
theorem precedes_trichotomy (a b : ReferencedOutput) :
    a.Precedes b ∨ (a.output.slot = b.output.slot ∧ a.ref = b.ref) ∨ b.Precedes a := by
  obtain lt | eq | gt := Std.lt_trichotomy a.rank b.rank
  · exact .inl (precedes_iff.2 lt)
  · exact .inr (.inl (eq_of_rank_eq eq))
  · exact .inr (.inr (precedes_iff.2 gt))

/-- The comparison of listings refuses exactly what stands the other way round. -/
theorem le_iff : a.le b = true ↔ ¬b.Precedes a := by
  have hash_irrefl (h : TxHash) : ¬h < h := List.lt_irrefl h.bytes
  unfold le Precedes
  by_cases slot : a.output.slot = b.output.slot
  · by_cases hash : a.ref.hash = b.ref.hash
    · simp [slot, hash, hash_irrefl]
    · have lt : a.ref.hash < b.ref.hash ↔ ¬b.ref.hash < a.ref.hash := by
        obtain lt | eq | gt := Std.lt_trichotomy a.ref.hash.bytes b.ref.hash.bytes
        · exact iff_of_true lt (List.lt_asymm lt)
        · exact absurd (Hash.ext eq) hash
        · exact iff_of_false (List.lt_asymm gt) (not_not.2 gt)
      simp [slot, hash, Ne.symm hash, lt]
  · have lt : a.output.slot < b.output.slot ↔ ¬b.output.slot < a.output.slot := by
      rw [UInt64.not_lt]
      exact ⟨UInt64.le_of_lt, fun le => UInt64.lt_of_le_of_ne le slot⟩
    simp [slot, Ne.symm slot, lt]

/-- Sorted outputs with distinct references are in strict order. -/
theorem pairwise_sort {outputs : List ReferencedOutput}
    (distinct : outputs.Pairwise fun o p => o.ref ≠ p.ref) : (sort outputs).Pairwise Precedes := by
  have trans (a b c : ReferencedOutput) (h : a.le b = true) (h' : b.le c = true) : a.le c = true := by
    rw [le_iff, precedes_iff, List.not_lt] at *
    exact List.le_trans h h'
  have total (a b : ReferencedOutput) : (a.le b || b.le a) = true := by
    rw [Bool.or_eq_true, le_iff, le_iff, ← not_and_or]
    exact fun ⟨h, h'⟩ => Std.Asymm.asymm _ _ h h'
  have sorted : (sort outputs).Pairwise fun o p => o.le p = true :=
    List.pairwise_mergeSort trans total outputs
  have distinct' : (sort outputs).Pairwise fun o p => o.ref ≠ p.ref :=
    distinct.perm (List.mergeSort_perm outputs le).symm fun h => h.symm
  refine sorted.imp₂ (fun o p le ne => ?_) distinct'
  obtain before | ⟨-, same⟩ | behind := precedes_trichotomy o p
  · exact before
  · exact absurd same ne
  · exact absurd behind (le_iff.1 le)

theorem IsOf.unique {e : Entry} (h : a.IsOf e) (h' : b.IsOf e) : a = b := by
  have ref : a.ref = b.ref := Except.ok.inj (h.ref.symm.trans h'.ref)
  have output : a.output = b.output := Except.ok.inj (h.output.symm.trans h'.output)
  cases a
  cases b
  cases ref
  cases output
  rfl

end ReferencedOutput

/-! ## Stored outputs -/

namespace Contents

/-- Every key of an output has the length of keys of outputs, and every value can be read. -/
def ReadableOutputs (c : Contents) : Prop :=
  ∀ key value, c.lookup .utxos key = some value →
    key.length = KeyKind.utxo.length ∧ ∃ output : TxOutput, Cbor.Record.decode value = .ok output

/-- An output is stored: it is that of an entry, whose key encodes its reference. -/
def HoldsOutput (c : Contents) (o : ReferencedOutput) : Prop :=
  ∃ key value, c.lookup .utxos key = some value ∧ o.IsOf (key, value)

/-- The stored outputs are those that all entries are read as. -/
theorem holdsOutput_iff {c : Contents} {entries : List Entry} {outputs : List ReferencedOutput}
    (all : ∀ e, e ∈ entries ↔ c.lookup .utxos e.1 = some e.2)
    (read : List.Forall₂ (fun e o => o.IsOf e) entries outputs) {o : ReferencedOutput} :
    c.HoldsOutput o ↔ o ∈ outputs := by
  constructor
  · rintro ⟨key, value, found, h⟩
    obtain ⟨p, hp, h'⟩ := exists_of_forall₂ read ((all (key, value)).2 found)
    exact h.unique h' ▸ hp
  · intro ho
    obtain ⟨e, he, h⟩ := exists_of_forall₂ read.flip ho
    exact ⟨e.1, e.2, (all e).1 he, h⟩

end Contents

/-- A visit of the entries, in whatever order they come, makes the listing in strict order. -/
theorem exists_listing {c : Contents} (readable : c.ReadableOutputs) {scanned : List Entry}
    (perm : scanned.Perm (c.get .utxos).entries) (address : String) (onlyUnused : Bool) :
    ∃ found, (View.visit (Database.visitOutput address onlyUnused) [] scanned).map
        (fun reversed => ReferencedOutput.sort reversed.reverse) = .ok found ∧
      found.Pairwise ReferencedOutput.Precedes ∧
      ∀ o, o ∈ found ↔ c.HoldsOutput o ∧ o.output.address = address ∧
        (onlyUnused = true → o.output.isUsed = false) := by
  have all (e : Entry) : e ∈ scanned ↔ c.lookup .utxos e.1 = some e.2 :=
    perm.mem_iff.trans KeyMap.get?_eq_some_iff.symm
  have each : ∀ e ∈ scanned, ∃ o : ReferencedOutput, o.IsOf e := by
    intro e he
    obtain ⟨length, output, read⟩ := readable e.1 e.2 ((all e).1 he)
    exact ⟨⟨_, output⟩, by rw [Key.toRef, dif_pos length], read⟩
  obtain ⟨outputs, read⟩ := exists_forall₂ each
  have distinct : outputs.Pairwise fun o p => o.ref ≠ p.ref := by
    have keys : scanned.map (·.1) = outputs.map (·.ref.key) :=
      map_eq_map_of_forall₂ (read.imp fun _ _ h => Key.toRef_eq_ok_iff.1 h.ref)
    have nodup : (scanned.map (·.1)).Nodup := (perm.map _).nodup_iff.2 (c.get .utxos).nodup_keys
    rw [keys] at nodup
    exact (List.pairwise_map.1 nodup).imp fun ne ref => ne (congrArg OutputRef.key ref)
  refine ⟨ReferencedOutput.sort (outputs.filter (Utxos.StoredIn.picks address onlyUnused)), ?_,
    ReferencedOutput.pairwise_sort (distinct.filter _), fun o => ?_⟩
  · rw [Utxos.StoredIn.visit_visitOutput address onlyUnused read, Except.map, List.reverse_reverse]
  · rw [ReferencedOutput.sort, List.mem_mergeSort, List.mem_filter, Utxos.StoredIn.picks_eq_true,
      Contents.holdsOutput_iff all read]

/-- Take any database whose lock is not poisoned and whose outputs can be scanned and read, an address, and
whether only unused outputs are asked for. The listing has every stored output that pays to the address, and
is not used if so asked, under the reference that its key encodes, and nothing else, in strict order of slot,
hash and index. It is the only such list; so it is the same in whatever order the entries are scanned, and for
every other database that stores the same outputs. -/
theorem outputsAt_canonical {db : Database} (usable : db.isPoisoned = false)
    (available : db.engine.faults.scan .utxos .all .ascending = none)
    (readable : db.contents.ReadableOutputs) (address : String) (onlyUnused : Bool) :
    ∃ found, db.outputsAt address onlyUnused = .ok found ∧
      found.Pairwise ReferencedOutput.Precedes ∧
      (∀ o, o ∈ found ↔ db.contents.HoldsOutput o ∧ o.output.address = address ∧
        (onlyUnused = true → o.output.isUsed = false)) ∧
      (∀ listed : List ReferencedOutput, listed.Pairwise ReferencedOutput.Precedes →
        (∀ o, o ∈ listed ↔ o ∈ found) → listed = found) ∧
      (∀ scanned : List Entry, scanned.Perm (db.contents.get .utxos).entries →
        (View.visit (Database.visitOutput address onlyUnused) [] scanned).map
          (fun reversed => ReferencedOutput.sort reversed.reverse) = .ok found) ∧
      ∀ db' : Database, db'.isPoisoned = false → db'.engine.faults.scan .utxos .all .ascending = none →
        db'.contents.ReadableOutputs → (∀ o, db'.contents.HoldsOutput o ↔ db.contents.HoldsOutput o) →
        db'.outputsAt address onlyUnused = .ok found := by
  obtain ⟨found, listing, ordered, mem⟩ := exists_listing readable (.refl _) address onlyUnused
  have only (listed : List ReferencedOutput) (ordered' : listed.Pairwise ReferencedOutput.Precedes)
      (same : ∀ o, o ∈ listed ↔ o ∈ found) : listed = found := ordered'.eq_of_mem_iff ordered same
  refine ⟨found, (Database.outputsAt_eq usable available address onlyUnused).trans listing, ordered, mem,
    only, fun scanned perm => ?_, fun db' usable' available' readable' holds => ?_⟩
  · obtain ⟨found', listing', ordered', mem'⟩ := exists_listing readable perm address onlyUnused
    rw [listing', only found' ordered' fun o => (mem' o).trans (mem o).symm]
  · obtain ⟨found', listing', ordered', mem'⟩ := exists_listing readable' (.refl _) address onlyUnused
    rw [Database.outputsAt_eq usable' available', listing',
      only found' ordered' fun o => by rw [mem', mem, holds]]

namespace Fixture

/-- Outputs in the order of their keys: three that pay to one address, the last one of a later slot and the
second one used, and one that pays to another. -/
def payments : List ReferencedOutput := [
  ⟨⟨txHash 1 0, 0⟩, { output "alice" 4 with slot := 9 }⟩,
  ⟨⟨txHash 2 0, 0⟩, { output "alice" 5 with slot := 3, isUsed := true }⟩,
  ⟨⟨txHash 2 0, 1⟩, { output "alice" 6 with slot := 3 }⟩,
  ⟨⟨txHash 3 0, 0⟩, { output "bob" 7 with slot := 1 }⟩]

/-- They are put in another order. -/
def paid : Contents :=
  .performAll .empty (payments.reverse.map fun o => .put .utxos o.ref.key (Cbor.Record.encode o.output))

theorem read_paid : List.Forall₂ (fun e o => o.IsOf e) (paid.get .utxos).entries payments := by
  have entries : (paid.get .utxos).entries =
      payments.map fun o => (o.ref.key, Cbor.Record.encode o.output) := by rfl
  have storable : ∀ o ∈ payments, o.output.Storable := by
    have plain (o : TxOutput) (address : (Utf8.encode o.address).length < UInt64.size)
        (tokens : o.tokens = []) (datum : o.datum = none) : o.Storable :=
      ⟨address, by rw [tokens]; decide, by rw [tokens]; exact nofun, by rw [datum]; exact nofun⟩
    simp only [payments, List.forall_mem_cons]
    exact ⟨plain _ (by decide) rfl rfl, plain _ (by decide) rfl rfl, plain _ (by decide) rfl rfl,
      plain _ (by decide) rfl rfl, nofun⟩
  rw [entries, List.forall₂_map_left_iff, List.forall₂_same]
  exact fun o ho => ⟨Key.toRef_key o.ref, TxOutput.decode_encode (storable o ho)⟩

end Fixture

open Fixture in
/-- The order of listings is not that of keys. -/
theorem outputsAt_paid :
    let db : Database := { engine := ⟨.memory, paid, .never⟩ }
    paid.ReadableOutputs ∧
    db.outputsAt "alice" true = .ok [payments[2], payments[0]] ∧
    db.outputsAt "alice" false = .ok [payments[1], payments[2], payments[0]] := by
  intro db
  have all (e : Entry) : e ∈ (paid.get .utxos).entries ↔ paid.lookup .utxos e.1 = some e.2 :=
    KeyMap.get?_eq_some_iff.symm
  have readable : paid.ReadableOutputs := by
    intro key value found
    obtain ⟨o, -, h⟩ := exists_of_forall₂ read_paid ((all (key, value)).2 found)
    have key_eq : key = o.ref.key := Key.toRef_eq_ok_iff.1 h.ref
    exact ⟨key_eq ▸ o.ref.length_key, o.output, h.output⟩
  have listed (onlyUnused : Bool) (listing : List ReferencedOutput)
      (ordered : listing.Pairwise ReferencedOutput.Precedes)
      (perm : listing.Perm (payments.filter (Utxos.StoredIn.picks "alice" onlyUnused))) :
      db.outputsAt "alice" onlyUnused = .ok listing := by
    have usable : db.isPoisoned = false := rfl
    obtain ⟨found, answer, -, mem, only, -⟩ := outputsAt_canonical usable rfl readable "alice" onlyUnused
    rw [answer, only listing ordered fun o => ?_]
    rw [mem, show db.contents = paid from rfl, Contents.holdsOutput_iff all read_paid, perm.mem_iff,
      List.mem_filter, Utxos.StoredIn.picks_eq_true]
  exact ⟨readable, listed true _ (by decide) (by decide), listed false _ (by decide) (by decide)⟩

end ChainIndex
