import ChainIndex.Storage.Key
import Mathlib.Data.List.Induction

/-!
# Keys

* `compare_append`, `compare_bigEndian`: of octets behind each other the first ones decide, and numbers in one
  width compare as the numbers. `Bytes.compare_eq_lt_iff`: this is the order of the keys of a bucket.
* `FixedWidth`: a way to write values in a fixed number of octets that keeps their order and leaves no octets
  over. Numbers have one (`FixedWidth.uint64`, `FixedWidth.uint32`), hashes have one (`FixedWidth.hash`), and two
  fields in a row have one if each of them does (`FixedWidth.append`).
* `Key.Faithful`: a kind of key that keeps the order of what it stands for and loses nothing of it;
  `Key.faithful_slot`, `Key.faithful_position` and `Key.faithful_ref` for the three kinds, `keys_faithful` for
  all of them.
* What other modules use of it: keys are read back (`Key.toRef_key`, `Key.toPosition_key`, `Key.toSlot_key`), so
  what has one key is equal (`OutputRef.key_inj`, `Tx.key_inj`, `Key.ofSlot_inj`), and keys stand in order
  (`Key.ofSlot_lt_iff`, `Tx.key_lt_iff`, `OutputRef.key_lt_iff`).
-/

namespace ChainIndex

/-! ## Numbers in keys -/

theorem ofBigEndian_of_lt {width n : Nat} (h : n < Nat.pow 256 width) :
    ofBigEndian (bigEndian width n) = n :=
  (ofBigEndian_bigEndian width n).trans (Nat.mod_eq_of_lt h)

theorem ofBigEndian_lt (bytes : Bytes) : ofBigEndian bytes < Nat.pow 256 bytes.length := by
  induction bytes using List.reverseRecOn with
  | nil => exact Nat.one_pos
  | append_singleton bytes byte ih =>
    have low := byte.toNat_lt
    have step : Nat.pow 256 (bytes.length + 1) = Nat.pow 256 bytes.length * 256 := rfl
    rw [ofBigEndian_append_singleton, List.length_append, List.length_singleton, step]
    omega

/-- Octets are those of the number that they spell. -/
theorem bigEndian_ofBigEndian (bytes : Bytes) : bigEndian bytes.length (ofBigEndian bytes) = bytes := by
  induction bytes using List.reverseRecOn with
  | nil => rfl
  | append_singleton bytes byte ih =>
    have low := byte.toNat_lt
    have high : (ofBigEndian bytes * 256 + byte.toNat) / 256 = ofBigEndian bytes := by omega
    have last : UInt8.ofNat (ofBigEndian bytes * 256 + byte.toNat) = byte := by
      rw [← UInt8.toNat_inj, UInt8.toNat_ofNat']
      omega
    rw [ofBigEndian_append_singleton, List.length_append, List.length_singleton, bigEndian, high, last, ih]

/-! ## The order of octets -/

/-- The order in which a bucket holds its keys is that of comparing them octet by octet. -/
theorem Bytes.compare_eq_lt_iff {xs ys : Bytes} : compare xs ys = .lt ↔ xs < ys := by
  induction xs generalizing ys with
  | nil => cases ys <;> simp
  | cons x xs ih =>
    cases ys with
    | nil => simp
    | cons y ys =>
      rw [List.compare_cons_cons, Ordering.then_eq_lt, Std.compare_eq_lt, Std.compare_eq_iff_eq, ih,
        List.cons_lt_cons_iff]

/-- Fronts of the same length decide first. -/
theorem compare_append {xs ys : Bytes} (len : xs.length = ys.length) (us vs : Bytes) :
    compare (xs ++ us) (ys ++ vs) = (compare xs ys).then (compare us vs) := by
  induction xs generalizing ys with
  | nil =>
    obtain rfl := List.length_eq_zero_iff.1 len.symm
    simp
  | cons x xs ih =>
    cases ys with
    | nil => cases len
    | cons y ys =>
      rw [List.cons_append, List.cons_append, List.compare_cons_cons, ih (Nat.succ.inj len),
        List.compare_cons_cons, Ordering.then_assoc]

theorem append_lt_iff {xs ys : Bytes} (len : xs.length = ys.length) (us vs : Bytes) :
    xs ++ us < ys ++ vs ↔ xs < ys ∨ xs = ys ∧ us < vs := by
  rw [← Bytes.compare_eq_lt_iff, compare_append len, Ordering.then_eq_lt, Bytes.compare_eq_lt_iff,
    Std.compare_eq_iff_eq, Bytes.compare_eq_lt_iff]

/-- The last octet decides only between numbers that are equal before it. -/
theorem compare_div_then_mod (m n : Nat) :
    (compare (m / 256) (n / 256)).then (compare (m % 256) (n % 256)) = compare m n := by
  rcases Nat.lt_trichotomy (m / 256) (n / 256) with high | high | high
  · have lt : m < n := by omega
    rw [Nat.compare_eq_lt.2 high, Nat.compare_eq_lt.2 lt]
    rfl
  · have low : m % 256 < n % 256 ↔ m < n := by omega
    have low' : n % 256 < m % 256 ↔ n < m := by omega
    rw [Nat.compare_eq_eq.2 high, Ordering.eq_then, Nat.compare_eq_ite_lt, Nat.compare_eq_ite_lt]
    simp only [low, low']
  · have gt : n < m := by omega
    rw [Nat.compare_eq_gt.2 high, Nat.compare_eq_gt.2 gt]
    rfl

/-- Numbers in the same width compare as the numbers. -/
theorem compare_bigEndian {width m n : Nat} (hm : m < Nat.pow 256 width)
    (hn : n < Nat.pow 256 width) :
    compare (bigEndian width m) (bigEndian width n) = compare m n := by
  induction width generalizing m n with
  | zero =>
    obtain rfl := Nat.lt_one_iff.1 hm
    obtain rfl := Nat.lt_one_iff.1 hn
    rfl
  | succ width ih =>
    change m < Nat.pow 256 width * 256 at hm
    change n < Nat.pow 256 width * 256 at hn
    have hm' : m / 256 < Nat.pow 256 width := by omega
    have hn' : n / 256 < Nat.pow 256 width := by omega
    have last : compare [UInt8.ofNat m] [UInt8.ofNat n] = compare (m % 256) (n % 256) := by
      rw [List.compare_cons_cons, List.compare_nil_nil, Ordering.then_eq,
        UInt8.compare_eq_toNat_compare_toNat, UInt8.toNat_ofNat', UInt8.toNat_ofNat']
    rw [bigEndian, bigEndian, compare_append (by simp), ih hm' hn', last, compare_div_then_mod]

/-! ## Writing in a fixed width -/

/-- Every value is written in `width` octets, which compare as `order` compares the values, and every `width`
octets are those of some value. -/
structure FixedWidth {α : Type} (width : Nat) (order : α → α → Ordering) (write : α → Bytes) : Prop where
  length_write (a : α) : (write a).length = width
  compare_write (a b : α) : compare (write a) (write b) = order a b
  exists_write (bytes : Bytes) (length : bytes.length = width) : ∃ a, write a = bytes

namespace FixedWidth

variable {α β γ : Type}

/-- Numbers, when the width holds exactly those that there are. -/
theorem number {width : Nat} {order : α → α → Ordering} {toNat : α → Nat}
    (small : ∀ a, toNat a < Nat.pow 256 width) (reached : ∀ n < Nat.pow 256 width, ∃ a, toNat a = n)
    (order_eq : ∀ a b, order a b = compare (toNat a) (toNat b)) :
    FixedWidth width order fun a => bigEndian width (toNat a) where
  length_write a := length_bigEndian width (toNat a)
  compare_write a b := (compare_bigEndian (small a) (small b)).trans (order_eq a b).symm
  exists_write bytes length := by
    subst length
    obtain ⟨a, ha⟩ := reached _ (ofBigEndian_lt bytes)
    exact ⟨a, by rw [ha, bigEndian_ofBigEndian]⟩

theorem uint64 : FixedWidth 8 compare fun n : UInt64 => bigEndian 8 n.toNat :=
  .number UInt64.toNat_lt (fun n h => ⟨.ofNat n, UInt64.toNat_ofNat_of_lt' h⟩)
    UInt64.compare_eq_toNat_compare_toNat

theorem uint32 : FixedWidth 4 compare fun n : UInt32 => bigEndian 4 n.toNat :=
  .number UInt32.toNat_lt (fun n h => ⟨.ofNat n, UInt32.toNat_ofNat_of_lt' h⟩)
    UInt32.compare_eq_toNat_compare_toNat

theorem hash (size : Nat) : FixedWidth size (compareOn Hash.bytes) fun hash : Hash size => hash.bytes where
  length_write hash := hash.length_bytes
  compare_write _ _ := rfl
  exists_write bytes length := ⟨⟨bytes, length⟩, rfl⟩

/-- Two fields, one behind the other: the first one decides, and only then the second. -/
theorem append {width width' : Nat} {order : α → α → Ordering} {order' : β → β → Ordering}
    {write : α → Bytes} {write' : β → Bytes} (head : FixedWidth width order write)
    (tail : FixedWidth width' order' write') {first : γ → α} {second : γ → β}
    (paired : ∀ a b, ∃ c, first c = a ∧ second c = b) :
    FixedWidth (width + width')
      (compareLex (fun c d => order (first c) (first d)) fun c d => order' (second c) (second d))
      fun c => write (first c) ++ write' (second c) where
  length_write c := by rw [List.length_append, head.length_write, tail.length_write]
  compare_write c d := by
    have boundary : (write (first c)).length = (write (first d)).length := by
      rw [head.length_write, head.length_write]
    rw [compare_append boundary, head.compare_write, tail.compare_write]
    rfl
  exists_write bytes length := by
    obtain ⟨a, ha⟩ := head.exists_write (bytes.take width) (by rw [List.length_take]; omega)
    obtain ⟨b, hb⟩ := tail.exists_write (bytes.drop width) (by rw [List.length_drop]; omega)
    obtain ⟨c, rfl, rfl⟩ := paired a b
    exact ⟨c, by rw [ha, hb, List.take_append_drop]⟩

end FixedWidth

/-! ## Keys of one kind -/

namespace Key

/-- Keys of a kind keep the order of what they stand for, and lose nothing: `write` makes the key of a value, and
`read` gives the value of a key. -/
structure Faithful (kind : KeyKind) {α : Type} (order : α → α → Ordering) (write : α → Bytes)
    (read : Bytes → Except KeyError α) : Prop where
  /-- Keys compare, octet by octet, as what they were made from. -/
  compare_write (a b : α) : compare (write a) (write b) = order a b
  /-- So they stand in a bucket. -/
  write_lt_iff (a b : α) : write a < write b ↔ order a b = .lt
  /-- What a key was made from is read back from it. -/
  read_write (a : α) : read (write a) = .ok a
  /-- Octets are read exactly when there are as many of them as in a key. -/
  exists_read_iff (key : Bytes) : (∃ a, read key = .ok a) ↔ key.length = kind.length
  /-- All others are refused, and the error tells how many there were. -/
  read_refused (key : Bytes) (length : key.length ≠ kind.length) : read key = .error ⟨kind, key.length⟩
  /-- What was read from octets is written as the same octets. -/
  write_read (key : Bytes) (a : α) (h : read key = .ok a) : write a = key

namespace Faithful

variable {kind : KeyKind} {α : Type} {order : α → α → Ordering} {write : α → Bytes}
  {read : Bytes → Except KeyError α}

/-- In a fixed width that leaves no octets over, it is enough that what was written is read back and other lengths
are refused. -/
theorem of_fixedWidth (code : FixedWidth kind.length order write) (read_write : ∀ a, read (write a) = .ok a)
    (read_refused : ∀ key : Bytes, key.length ≠ kind.length → read key = .error ⟨kind, key.length⟩) :
    Faithful kind order write read where
  compare_write := code.compare_write
  write_lt_iff a b := by rw [← code.compare_write, Bytes.compare_eq_lt_iff]
  read_write
  exists_read_iff key := by
    constructor
    · rintro ⟨a, ha⟩
      by_contra length
      cases (read_refused key length).symm.trans ha
    · intro length
      obtain ⟨a, rfl⟩ := code.exists_write key length
      exact ⟨a, read_write a⟩
  read_refused
  write_read key a h := by
    by_cases length : key.length = kind.length
    · -- the octets are those of some value, which can only be the one that was read
      obtain ⟨b, rfl⟩ := code.exists_write key length
      obtain rfl := Except.ok.inj ((read_write b).symm.trans h)
      rfl
    · cases (read_refused key length).symm.trans h

theorem read_eq_ok_iff (h : Faithful kind order write read) {key : Bytes} {a : α} :
    read key = .ok a ↔ key = write a :=
  ⟨fun hr => (h.write_read key a hr).symm, fun hk => hk ▸ h.read_write a⟩

theorem write_inj (h : Faithful kind order write read) {a b : α} : write a = write b ↔ a = b := by
  rw [← h.read_eq_ok_iff, h.read_write, Except.ok.injEq]

end Faithful

/-! ## Slots -/

theorem faithful_slot : Faithful .slot compare ofSlot toSlot := by
  refine .of_fixedWidth .uint64 (fun slot => ?_) fun key length => if_neg length
  have length : (ofSlot slot).length = KeyKind.slot.length := FixedWidth.uint64.length_write slot
  rw [toSlot, if_pos length, ofSlot, ofBigEndian_of_lt slot.toNat_lt, UInt64.ofNat_toNat]

theorem toSlot_key (b : ConfirmedBlock) : toSlot b.key = .ok b.slot := faithful_slot.read_write b.slot

/-- Keys of slots stand in the order of the slots. -/
theorem ofSlot_lt_iff {a b : UInt64} : ofSlot a < ofSlot b ↔ a < b :=
  (faithful_slot.write_lt_iff a b).trans Std.compare_eq_lt

theorem ofSlot_inj {a b : UInt64} : ofSlot a = ofSlot b ↔ a = b := faithful_slot.write_inj

/-! ## Positions -/

theorem fixedWidth_position :
    FixedWidth KeyKind.tx.length (compareLex (compareOn Prod.fst) (compareOn Prod.snd))
      fun p : UInt64 × UInt32 => ofPosition p.1 p.2 :=
  .append .uint64 .uint32 fun slot index => ⟨(slot, index), rfl, rfl⟩

theorem faithful_position :
    Faithful .tx (compareLex (compareOn Prod.fst) (compareOn Prod.snd)) (fun p => ofPosition p.1 p.2)
      toPosition := by
  refine .of_fixedWidth fixedWidth_position (fun (slot, index) => ?_) fun key length => if_neg length
  have front : (ofPosition slot index).take 8 = bigEndian 8 slot.toNat :=
    List.take_left' (length_bigEndian _ _)
  have back : (ofPosition slot index).drop 8 = bigEndian 4 index.toNat :=
    List.drop_left' (length_bigEndian _ _)
  rw [toPosition, if_pos (fixedWidth_position.length_write (slot, index)), front, back,
    ofBigEndian_of_lt slot.toNat_lt, ofBigEndian_of_lt index.toNat_lt, UInt64.ofNat_toNat,
    UInt32.ofNat_toNat]

theorem toPosition_key (tx : Tx) : toPosition tx.key = .ok (tx.blockSlot, tx.indexInBlock) :=
  faithful_position.read_write (tx.blockSlot, tx.indexInBlock)

/-! ## References -/

theorem fixedWidth_ref :
    FixedWidth KeyKind.utxo.length (compareLex (compareOn fun r => r.hash.bytes) (compareOn OutputRef.index)) ofRef :=
  .append (.hash 32) .uint32 fun hash index => ⟨⟨hash, index⟩, rfl, rfl⟩

theorem faithful_ref :
    Faithful .utxo (compareLex (compareOn fun r => r.hash.bytes) (compareOn OutputRef.index)) ofRef toRef := by
  refine .of_fixedWidth fixedWidth_ref (fun r => ?_) fun key length => dif_neg length
  have front : (ofRef r).take 32 = r.hash.bytes := List.take_left' r.hash.length_bytes
  have back : (ofRef r).drop 32 = bigEndian 4 r.index.toNat := List.drop_left' r.hash.length_bytes
  have index : UInt32.ofNat (ofBigEndian ((ofRef r).drop 32)) = r.index := by
    rw [back, ofBigEndian_of_lt r.index.toNat_lt, UInt32.ofNat_toNat]
  rw [toRef, dif_pos (fixedWidth_ref.length_write r)]
  simp only [front, index]

theorem toRef_key (r : OutputRef) : toRef r.key = .ok r := faithful_ref.read_write r

/-- A key is read as the reference whose key it is. -/
theorem toRef_eq_ok_iff {key : Bytes} {r : OutputRef} : toRef key = .ok r ↔ key = r.key :=
  faithful_ref.read_eq_ok_iff

end Key

/-! ## Transactions and outputs -/

theorem Tx.key_inj {tx tx' : Tx} (h : tx.key = tx'.key) :
    tx.blockSlot = tx'.blockSlot ∧ tx.indexInBlock = tx'.indexInBlock :=
  Prod.mk.inj (Key.faithful_position.write_inj.1 h)

/-- Keys of positions stand in the order of the slots, and in one block in that of the positions. -/
theorem Tx.key_lt_iff {a b : Tx} : a.key < b.key ↔
    a.blockSlot < b.blockSlot ∨ a.blockSlot = b.blockSlot ∧ a.indexInBlock < b.indexInBlock := by
  have lt_iff := Key.faithful_position.write_lt_iff (a.blockSlot, a.indexInBlock) (b.blockSlot, b.indexInBlock)
  rwa [compareLex, Ordering.then_eq_lt, compareOn, compareOn, Std.compare_eq_lt, Std.compare_eq_iff_eq,
    Std.compare_eq_lt] at lt_iff

theorem OutputRef.length_key (r : OutputRef) : r.key.length = KeyKind.utxo.length :=
  Key.fixedWidth_ref.length_write r

theorem OutputRef.key_inj {r s : OutputRef} (h : r.key = s.key) : r = s := Key.faithful_ref.write_inj.1 h

/-- Keys of references stand in the order of the hashes, and for one hash in that of the indices. -/
theorem OutputRef.key_lt_iff {r s : OutputRef} :
    r.key < s.key ↔ r.hash < s.hash ∨ r.hash = s.hash ∧ r.index < s.index := by
  have lt_iff := Key.faithful_ref.write_lt_iff r s
  rwa [compareLex, Ordering.then_eq_lt, compareOn, compareOn, Bytes.compare_eq_lt_iff, Std.compare_eq_iff_eq,
    ← Hash.ext_iff, Std.compare_eq_lt] at lt_iff

/-! ## All kinds -/

/-- Slots, positions in the chain and references are kept in their keys, and so is their order: that of the slots;
of the slots and, in one slot, the positions; of the octets of the hashes and, for one hash, the indices. -/
theorem keys_faithful :
    Key.Faithful .slot compare Key.ofSlot Key.toSlot ∧
      Key.Faithful .tx (compareLex (compareOn Prod.fst) (compareOn Prod.snd))
        (fun p => Key.ofPosition p.1 p.2) Key.toPosition ∧
      Key.Faithful .utxo (compareLex (compareOn fun r => r.hash.bytes) (compareOn OutputRef.index))
        Key.ofRef Key.toRef :=
  ⟨Key.faithful_slot, Key.faithful_position, Key.faithful_ref⟩

/-- The last position of a slot comes before the first one of the next, though the carry clears every octet behind
it. -/
theorem keys_faithful_carried :
    Key.ofPosition 255 4294967295 < Key.ofPosition 256 0 ∧
      Key.ofPosition 256 0 = [0, 0, 0, 0, 0, 0, 1, 0, 0, 0, 0, 0] ∧
      Key.toPosition (List.replicate 11 0) = .error ⟨.tx, 11⟩ := by
  obtain ⟨-, position, -⟩ := keys_faithful
  refine ⟨(position.write_lt_iff (255, 4294967295) (256, 0)).2 (by decide), ?_, ?_⟩
  · exact position.write_read _ (256, 0) (by decide)
  · exact position.read_refused _ (by decide)

end ChainIndex
