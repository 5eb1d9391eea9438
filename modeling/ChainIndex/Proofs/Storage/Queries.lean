import ChainIndex.Fixture.Basic
import ChainIndex.Proofs.Cbor.Tx
import ChainIndex.Proofs.Storage.Media
import ChainIndex.Proofs.Storage.Utxos
import Mathlib.Data.List.Sort

/-!
# Queries in the order of keys

* `Cursor.step_eq`: a cursor goes to the first entry of what it looks through; from an entry, `next` looks
  through what is behind it and `prev` through what is before it.
* `Cursor.Walk`: the entries that a cursor finds, moving on until it finds none. Over any contents `next` walks
  through all that is behind (`Cursor.walk_next`), and `prev` through all that is before (`Cursor.walk_prev`).
* `Database.latestBlocks_eq`, `Database.blocksFrom_eq`, `Database.firstTxs_eq`: so over any contents the
  queries read the first entries in their order, or fail at the first of them that cannot be read.
* `Filed`: the records of a bucket that sit under their own keys, in the order of these. The queries give the
  first ones of them (`queries_exact`).
-/

namespace ChainIndex

/-! ## Entries in key order -/

namespace KeyMap

variable {α : Type} {m : KeyMap α} {front rest : List (Bytes × α)}

theorem lt_of_append (front rest : List (Bytes × α)) (h : m.entries = front ++ rest) :
    ∀ e ∈ front, ∀ e' ∈ rest, e.1 < e'.1 := by
  have sorted := m.sorted
  rw [h] at sorted
  exact (List.pairwise_append.1 sorted).2.2

/-- The entries behind one. -/
theorem entriesIn_above {e : Bytes × α} (h : m.entries = front ++ e :: rest) :
    m.entriesIn (.above e.1) .ascending = rest := by
  have before := lt_of_append front (e :: rest) h
  have behind := lt_of_append (m := m) (front ++ [e]) rest (by simp [h])
  have hfront : front.filter (fun e' => (KeyRange.above e.1).contains e'.1) = [] := by
    refine List.filter_eq_nil_iff.2 fun e' he' => ?_
    have notBehind : ¬e.1 < e'.1 := fun lt =>
      List.lt_irrefl _ (List.lt_trans lt (before e' he' e List.mem_cons_self))
    simp [KeyRange.contains, KeyRange.above, notBehind]
  have hself : (KeyRange.above e.1).contains e.1 = false := by
    simp [KeyRange.contains, KeyRange.above, List.lt_irrefl]
  have hrest : rest.filter (fun e' => (KeyRange.above e.1).contains e'.1) = rest :=
    List.filter_eq_self.2 fun e' he' => by
      simp [KeyRange.contains, KeyRange.above, behind e (by simp) e' he']
  rw [entriesIn, h, List.filter_append, hfront, List.filter_cons, hself, hrest]
  rfl

/-- The entries before one, the last of them first. -/
theorem entriesIn_below {e : Bytes × α} (h : m.entries = front ++ e :: rest) :
    m.entriesIn (.below e.1) .descending = front.reverse := by
  have before := lt_of_append front (e :: rest) h
  have behind := lt_of_append (m := m) (front ++ [e]) rest (by simp [h])
  have hfront : front.filter (fun e' => (KeyRange.below e.1).contains e'.1) = front :=
    List.filter_eq_self.2 fun e' he' => by
      simp [KeyRange.contains, KeyRange.below, before e' he' e List.mem_cons_self]
  have hself : (KeyRange.below e.1).contains e.1 = false := by
    simp [KeyRange.contains, KeyRange.below, List.lt_irrefl]
  have hrest : rest.filter (fun e' => (KeyRange.below e.1).contains e'.1) = [] := by
    refine List.filter_eq_nil_iff.2 fun e' he' => ?_
    have notBefore : ¬e'.1 < e.1 := fun lt =>
      List.lt_irrefl _ (List.lt_trans lt (behind e (by simp) e' he'))
    simp [KeyRange.contains, KeyRange.below, notBefore]
  rw [entriesIn, h, List.filter_append, hfront, List.filter_cons, hself, hrest]
  simp

theorem entriesIn_all (m : KeyMap α) : m.entriesIn .all .ascending = m.entries :=
  List.filter_eq_self.2 fun _ _ => rfl

theorem entriesIn_all_descending (m : KeyMap α) :
    m.entriesIn .all .descending = m.entries.reverse := congrArg List.reverse m.entriesIn_all

theorem entriesIn_atLeast (m : KeyMap α) (key : Bytes) :
    m.entriesIn (.atLeast key) .ascending = m.entries.filter fun e => ¬e.1 < key :=
  List.filter_congr fun e _ => by simp [KeyRange.contains, KeyRange.atLeast, -List.not_lt]

end KeyMap

/-- If something holds of every element behind one of which it holds, then it holds of a later part. -/
theorem filter_not_append_filter {α : Type} {p : α → Prop} [DecidablePred p] {l : List α}
    (h : l.Pairwise fun a b => p a → p b) : (l.filter fun a => ¬p a) ++ l.filter p = l := by
  induction l with
  | nil => rfl
  | cons a l ih =>
    obtain ⟨ha, hl⟩ := List.pairwise_cons.1 h
    by_cases pa : p a
    · have all : l.filter p = l := List.filter_eq_self.2 fun b hb => decide_eq_true (ha b hb pa)
      have none : (l.filter fun a => ¬p a) = [] :=
        List.filter_eq_nil_iff.2 fun b hb => by simpa using ha b hb pa
      simp only [List.filter_cons, pa, all, none, not_true, decide_false, decide_true]
      rfl
    · simpa [List.filter_cons, pa] using ih hl

/-! ## Cursors -/

namespace Cursor

/-- The first of some entries, and the cursor moved there. -/
def found (cursor : Cursor) : List Entry → Option Entry × Cursor
  | [] => (none, cursor)
  | e :: _ => (some e, { cursor with position := some e.1 })

variable {s : Engine}

/-- A cursor goes to the first entry of what it looks through. -/
theorem step_eq (never : s.faults = .never) (cursor : Cursor) (range : KeyRange)
    (direction : Direction) : (cursor.step range direction : View StoreError _) s =
      .ok (cursor.found ((s.contents.get cursor.bucket).entriesIn range direction)) := by
  have scanned : (View.scan cursor.bucket range direction none fun _ entry =>
      .ok (some entry, false) : View StoreError (Option Entry)) s =
        .ok ((s.contents.get cursor.bucket).entriesIn range direction).head? := by
    rw [View.scan_eq (by rw [never]; rfl)]
    cases (s.contents.get cursor.bucket).entriesIn range direction <;> rfl
  refine View.bind_eq_ok.2 ⟨_, scanned, ?_⟩
  cases (s.contents.get cursor.bucket).entriesIn range direction <;> rfl

/-- From an entry and a cursor on it, the moves find some entries one after the other, and nothing after the
last of them. -/
inductive Walk (move : Cursor → View StoreError (Option Entry × Cursor)) (s : Engine) :
    Option Entry → Cursor → List Entry → Prop where
  | ended (cursor : Cursor) : Walk move s none cursor []
  | found {e : Entry} {entry : Option Entry} {cursor cursor' : Cursor} {rest : List Entry}
      (moved : move cursor s = .ok (entry, cursor')) (later : Walk move s entry cursor' rest) :
      Walk move s (some e) cursor (e :: rest)

/-- Forwards there is everything behind the entry. -/
theorem walk_next (never : s.faults = .never) (cursor : Cursor) {front rest : List Entry}
    (split : (s.contents.get cursor.bucket).entries = front ++ rest) :
    Walk next s (cursor.found rest).1 (cursor.found rest).2 rest := by
  induction rest generalizing cursor front with
  | nil => exact .ended cursor
  | cons e rest ih =>
    have moved := step_eq never { cursor with position := some e.1 } (.above e.1) .ascending
    have behind : (s.contents.get cursor.bucket).entries = (front ++ [e]) ++ rest := by simp [split]
    rw [KeyMap.entriesIn_above split] at moved
    exact .found moved (ih { cursor with position := some e.1 } behind)

/-- Backwards there is everything before the entry. -/
theorem walk_prev (never : s.faults = .never) (cursor : Cursor) {front rest : List Entry}
    (split : (s.contents.get cursor.bucket).entries = rest.reverse ++ front) :
    Walk prev s (cursor.found rest).1 (cursor.found rest).2 rest := by
  induction rest generalizing cursor front with
  | nil => exact .ended cursor
  | cons e rest ih =>
    have moved := step_eq never { cursor with position := some e.1 } (.below e.1) .descending
    rw [List.reverse_cons, List.append_assoc, List.singleton_append] at split
    rw [KeyMap.entriesIn_below split, List.reverse_reverse] at moved
    exact .found moved (ih { cursor with position := some e.1 } split)

/-- From the last entry backwards there is every entry. -/
theorem walk_last (never : s.faults = .never) (cursor : Cursor) :
    ∃ entry cursor', (cursor.last : View StoreError _) s = .ok (entry, cursor') ∧
      Walk prev s entry cursor' (s.contents.get cursor.bucket).entries.reverse := by
  refine ⟨_, _, step_eq never cursor .all .descending, ?_⟩
  have whole : (s.contents.get cursor.bucket).entries =
      (s.contents.get cursor.bucket).entries.reverse.reverse ++ [] := by simp
  rw [KeyMap.entriesIn_all_descending]
  exact walk_prev never cursor whole

/-- From a key forwards there is every entry whose key is not smaller. -/
theorem walk_seek (never : s.faults = .never) (cursor : Cursor) (key : Bytes) :
    ∃ entry cursor', (cursor.seek key : View StoreError _) s = .ok (entry, cursor') ∧
      Walk next s entry cursor'
        ((s.contents.get cursor.bucket).entries.filter fun e => ¬e.1 < key) := by
  refine ⟨_, _, step_eq never cursor (.atLeast key) .ascending, ?_⟩
  rw [KeyMap.entriesIn_atLeast]
  have behind : (s.contents.get cursor.bucket).entries.Pairwise fun a b => ¬a.1 < key → ¬b.1 < key :=
    (s.contents.get cursor.bucket).sorted.imp fun lt notBefore before =>
      notBefore (List.lt_trans lt before)
  exact walk_next never cursor (filter_not_append_filter behind).symm

end Cursor

/-! ## What the queries read -/

section

variable {α : Type} [Cbor.Record α]

/-- The records of some entries; the error of the first one that cannot be read, if there is one. -/
def readAll (entries : List Entry) : Except StoreError (List α) := entries.mapM fun e => readRecord e.2

theorem readAll_cons (e : Entry) (rest : List Entry) : (readAll (e :: rest) : Except _ (List α)) =
    (readRecord e.2).bind fun a => (readAll rest).bind fun as => .ok (a :: as) := List.mapM_cons

theorem readAll_eq_ok {entries : List Entry} {records : List α}
    (read : List.Forall₂ (fun e a => Cbor.Record.decode e.2 = .ok a) entries records) :
    readAll entries = .ok records := by
  induction read with
  | nil => rfl
  | cons read _ ih => rw [readAll_cons, readRecord, read, ih]; rfl

end

namespace Database

variable {s : Engine} {db : Database}

theorem Sound.view_eq {α : Type} {db : Database} (sound : db.Sound) (body : View StoreError α) :
    db.view body = body db.engine := by
  rw [view, sound.usable]
  rfl

/-- Over a walk, blocks are read until there are enough of them, or the walk ends. -/
theorem takeBlocks_of_walk {move : Cursor → View StoreError (Option Entry × Cursor)}
    {entry : Option Entry} {cursor : Cursor} {entries : List Entry}
    (walk : Cursor.Walk move s entry cursor entries) (max : Nat) :
    takeBlocks move max entry cursor s = readAll (entries.take max) := by
  induction walk generalizing max with
  | ended cursor => cases max <;> rfl
  | @found e entry cursor cursor' rest moved later ih =>
    cases max with
    | zero => rfl
    | succ max =>
      have run : takeBlocks move (max + 1) (some e) cursor s =
          (readRecord e.2).bind fun block => (move cursor s).bind fun next =>
            (takeBlocks move max next.1 next.2 s).bind fun blocks => .ok (block :: blocks) := rfl
      rw [run, moved, List.take_succ_cons, readAll_cons, ← ih]
      rfl

theorem latestBlocks_eq (sound : db.Sound) (max : Nat) : db.latestBlocks max =
    readAll ((db.contents.get .confirmedBlocks).entries.reverse.take max) := by
  obtain ⟨entry, cursor, last, walk⟩ := Cursor.walk_last sound.never ⟨.confirmedBlocks, none⟩
  rw [latestBlocks, sound.view_eq]
  change ((Cursor.last _ : View StoreError _) db.engine).bind _ = _
  rw [last]
  exact takeBlocks_of_walk walk max

theorem blocksFrom_eq (sound : db.Sound) (slot : UInt64) (max : Nat) : db.blocksFrom slot max =
    readAll (((db.contents.get .confirmedBlocks).entries.filter
      fun e => ¬e.1 < Key.ofSlot slot).take max) := by
  obtain ⟨entry, cursor, first, walk⟩ :=
    Cursor.walk_seek sound.never ⟨.confirmedBlocks, none⟩ (Key.ofSlot slot)
  rw [blocksFrom, sound.view_eq]
  change ((Cursor.seek _ _ : View StoreError _) db.engine).bind _ = _
  rw [first]
  exact takeBlocks_of_walk walk max

/-- A visit that goes on while there is room reads what there is room for. -/
theorem visit_firstTxs {max count : Nat} (room : count < max) (entries : List Entry) (found : List Tx) :
    (View.visit (ε := StoreError) (fun (count, txs) (_, value) => do
        let tx : Tx ← readRecord value
        return ((count + 1, tx :: txs), count + 1 < max)) (count, found) entries).bind
          (fun p => .ok p.2.reverse) =
      (readAll (entries.take (max - count))).map (found.reverse ++ ·) := by
  induction entries generalizing count found with
  | nil => simp [View.visit, readAll, Except.bind, Except.map, Pure.pure, Except.pure]
  | cons e rest ih =>
    rw [show max - count = max - (count + 1) + 1 by omega, List.take_succ_cons, readAll_cons]
    simp only [View.visit, Bind.bind, Except.bind]
    cases (readRecord e.2 : Except StoreError Tx) with
    | error e => rfl
    | ok tx =>
      by_cases more : count + 1 < max
      · simp only [Pure.pure, Except.pure, more, decide_true, if_true]
        refine (ih more (tx :: found)).trans ?_
        cases (readAll (rest.take (max - (count + 1))) : Except StoreError (List Tx)) with
        | error e => rfl
        | ok txs => simp [Except.map]
      · rw [show max - (count + 1) = 0 by omega]
        simp [more, Pure.pure, Except.pure, Except.map, readAll]

theorem firstTxs_eq (sound : db.Sound) (bucket : Bucket) (max : Nat) :
    db.firstTxs bucket max = readAll ((db.contents.get bucket).entries.take max) := by
  rw [firstTxs, sound.view_eq]
  cases max with
  | zero => rfl
  | succ max =>
    have visited := visit_firstTxs (Nat.zero_lt_succ max) (db.contents.get bucket).entries []
    rw [if_neg (Nat.succ_ne_zero max)]
    change ((View.scan _ _ _ _ _ : View StoreError _) db.engine).bind _ = _
    rw [View.scan_eq (by rw [sound.never]; rfl), KeyMap.entriesIn_all]
    refine visited.trans ?_
    rw [Nat.sub_zero]
    cases (readAll _ : Except StoreError (List Tx)) <;> rfl

end Database

/-! ## Records under their own keys -/

/-- A transaction stands before another one on the chain. -/
def Tx.Earlier (a b : Tx) : Prop :=
  a.blockSlot < b.blockSlot ∨ a.blockSlot = b.blockSlot ∧ a.indexInBlock < b.indexInBlock

instance : Std.Asymm Tx.Earlier :=
  ⟨fun _ _ h h' => List.lt_asymm (Tx.key_lt_iff.2 h) (Tx.key_lt_iff.2 h')⟩

instance : Std.Asymm fun a b : ConfirmedBlock => a.slot < b.slot := ⟨fun _ _ => UInt64.lt_asymm⟩

section

variable {α : Type} [Cbor.Record α]

/-- A record can be read under its own key. -/
def Contents.Holds (c : Contents) (bucket : Bucket) (key : α → Bytes) (a : α) : Prop :=
  ∃ value, c.lookup bucket (key a) = some value ∧ Cbor.Record.decode value = .ok a

/-- Whatever a bucket holds can be read, and the record has the key of its entry. -/
def Contents.UnderOwnKeys (c : Contents) (bucket : Bucket) (key : α → Bytes) : Prop :=
  ∀ k value, c.lookup bucket k = some value → ∃ a, k = key a ∧ Cbor.Record.decode value = .ok a

/-- All records of a bucket that can be read under their own keys, in a strict order. -/
structure Contents.Lists (c : Contents) (bucket : Bucket) (key : α → Bytes) (before : α → α → Prop)
    (records : List α) : Prop where
  ordered : records.Pairwise before
  mem_iff : ∀ a, a ∈ records ↔ c.Holds bucket key a

/-- There is only one such list. -/
theorem Contents.Lists.unique {c : Contents} {bucket : Bucket} {key : α → Bytes} {before : α → α → Prop}
    [Std.Asymm before] {records records' : List α} (h : c.Lists bucket key before records)
    (h' : c.Lists bucket key before records') : records = records' :=
  h.ordered.eq_of_mem_iff h'.ordered fun a => (h.mem_iff a).trans (h'.mem_iff a).symm

/-- The records of a bucket, read entry by entry: each of them sits under its own key. -/
def Filed (bucket : Bucket) (key : α → Bytes) (records : List α) (c : Contents) : Prop :=
  List.Forall₂ (fun e a => e.1 = key a ∧ Cbor.Record.decode e.2 = .ok a) (c.get bucket).entries records

namespace Filed

variable {bucket : Bucket} {key : α → Bytes} {records : List α} {c : Contents}

theorem exists_iff : (∃ records, Filed bucket key records c) ↔ c.UnderOwnKeys bucket key := by
  constructor
  · rintro ⟨records, h⟩ k value found
    obtain ⟨a, -, own⟩ := exists_of_forall₂ h (KeyMap.get?_eq_some_iff.1 found)
    exact ⟨a, own⟩
  · exact fun own => exists_forall₂ fun e he => own e.1 e.2 (KeyMap.get?_eq_some_iff.2 he)

theorem ascending (h : Filed bucket key records c) : records.Pairwise fun a b => key a < key b := by
  have keys : (c.get bucket).entries.map (·.1) = records.map key :=
    map_eq_map_of_forall₂ (h.imp fun _ _ read => read.1)
  have sorted := List.pairwise_map.2 (c.get bucket).sorted
  rw [keys] at sorted
  exact List.pairwise_map.1 sorted

theorem mem_iff (h : Filed bucket key records c) {a : α} : a ∈ records ↔ c.Holds bucket key a := by
  constructor
  · intro mem
    obtain ⟨⟨k, value⟩, he, rfl, read⟩ := exists_of_forall₂ h.flip mem
    exact ⟨value, KeyMap.get?_eq_some_iff.2 he, read⟩
  · rintro ⟨value, found, read⟩
    obtain ⟨b, hb, -, read'⟩ := exists_of_forall₂ h (KeyMap.get?_eq_some_iff.1 found)
    obtain rfl := Except.ok.inj (read.symm.trans read')
    exact hb

theorem readAll_take (h : Filed bucket key records c) (max : Nat) :
    readAll ((c.get bucket).entries.take max) = .ok (records.take max) :=
  readAll_eq_ok ((List.forall₂_take max h).imp fun _ _ read => read.2)

variable {db : Database}

theorem firstTxs {txs : List Tx} (h : Filed bucket Tx.key txs db.contents) (sound : db.Sound) (max : Nat) :
    db.firstTxs bucket max = .ok (txs.take max) := by
  rw [Database.firstTxs_eq sound, h.readAll_take]

theorem earlier {txs : List Tx} (h : Filed bucket Tx.key txs c) : txs.Pairwise Tx.Earlier :=
  h.ascending.imp Tx.key_lt_iff.1

variable {blocks : List ConfirmedBlock}

theorem rising (h : Filed .confirmedBlocks ConfirmedBlock.key blocks c) :
    blocks.Pairwise fun a b => a.slot < b.slot := h.ascending.imp Key.ofSlot_lt_iff.1

/-- The newest blocks. -/
theorem latestBlocks (h : Filed .confirmedBlocks ConfirmedBlock.key blocks db.contents) (sound : db.Sound)
    (max : Nat) : db.latestBlocks max = .ok (blocks.reverse.take max) := by
  rw [Database.latestBlocks_eq sound]
  exact readAll_eq_ok ((List.forall₂_take max (List.forall₂_reverse_iff.2 h)).imp fun _ _ read => read.2)

/-- The blocks from a slot on. -/
theorem blocksFrom (h : Filed .confirmedBlocks ConfirmedBlock.key blocks db.contents) (sound : db.Sound)
    (slot : UInt64) (max : Nat) :
    db.blocksFrom slot max = .ok ((blocks.filter (slot ≤ ·.slot)).take max) := by
  rw [Database.blocksFrom_eq sound]
  refine readAll_eq_ok ((List.forall₂_take max (List.rel_filter ?_ h)).imp fun _ _ read => read.2)
  rintro ⟨k, value⟩ b ⟨rfl, -⟩
  simp [ConfirmedBlock.key, Key.ofSlot_lt_iff, -List.not_lt]

end Filed

end

/-- Take any sound database. Over whatever a bucket holds, the moves backwards from the last entry find every
entry, and those forwards from a key every entry that is not before it, each once, and then nothing; the
queries read the first of these, as many as are asked for, or fail at one that cannot be read. If blocks and
transactions sit under their own keys, then the queries give the newest blocks, newest first, the first blocks
from a slot on, oldest first, and the first transactions by slot and position. -/
theorem queries_exact {db : Database} (sound : db.Sound) :
    let c := db.contents
    let entries bucket := (c.get bucket).entries
    (∀ bucket, ∃ entry cursor, (Cursor.last ⟨bucket, none⟩ : View StoreError _) db.engine =
      .ok (entry, cursor) ∧ Cursor.Walk Cursor.prev db.engine entry cursor (entries bucket).reverse) ∧
    (∀ bucket key, ∃ entry cursor, (Cursor.seek ⟨bucket, none⟩ key : View StoreError _) db.engine =
      .ok (entry, cursor) ∧ Cursor.Walk Cursor.next db.engine entry cursor
        ((entries bucket).filter fun e => ¬e.1 < key)) ∧
    (∀ max, db.latestBlocks max = readAll ((entries .confirmedBlocks).reverse.take max) ∧
      (∀ slot, db.blocksFrom slot max =
        readAll (((entries .confirmedBlocks).filter fun e => ¬e.1 < Key.ofSlot slot).take max)) ∧
      db.unprocessedTxs max = readAll ((entries .unprocessedTxs).take max) ∧
      db.processedTxs max = readAll ((entries .processedTxs).take max)) ∧
    (c.UnderOwnKeys .confirmedBlocks ConfirmedBlock.key → c.UnderOwnKeys .unprocessedTxs Tx.key →
      c.UnderOwnKeys .processedTxs Tx.key → ∃ blocks unprocessed processed,
        c.Lists .confirmedBlocks ConfirmedBlock.key (fun a b => a.slot < b.slot) blocks ∧
        c.Lists .unprocessedTxs Tx.key Tx.Earlier unprocessed ∧
        c.Lists .processedTxs Tx.key Tx.Earlier processed ∧
        ∀ max, db.latestBlocks max = .ok (blocks.reverse.take max) ∧
          (∀ slot, db.blocksFrom slot max = .ok ((blocks.filter (slot ≤ ·.slot)).take max)) ∧
          db.unprocessedTxs max = .ok (unprocessed.take max) ∧
          db.processedTxs max = .ok (processed.take max)) := by
  intro c entries
  refine ⟨fun bucket => Cursor.walk_last sound.never ⟨bucket, none⟩,
    fun bucket key => Cursor.walk_seek sound.never ⟨bucket, none⟩ key,
    fun max => ⟨Database.latestBlocks_eq sound max, fun slot => Database.blocksFrom_eq sound slot max,
      Database.firstTxs_eq sound _ max, Database.firstTxs_eq sound _ max⟩,
    fun ownBlocks ownUnprocessed ownProcessed => ?_⟩
  obtain ⟨blocks, hblocks⟩ := Filed.exists_iff.2 ownBlocks
  obtain ⟨unprocessed, hunprocessed⟩ := Filed.exists_iff.2 ownUnprocessed
  obtain ⟨processed, hprocessed⟩ := Filed.exists_iff.2 ownProcessed
  exact ⟨blocks, unprocessed, processed, ⟨hblocks.rising, fun _ => hblocks.mem_iff⟩,
    ⟨hunprocessed.earlier, fun _ => hunprocessed.mem_iff⟩,
    ⟨hprocessed.earlier, fun _ => hprocessed.mem_iff⟩,
    fun max => ⟨hblocks.latestBlocks sound max, fun slot => hblocks.blocksFrom sound slot max,
      hunprocessed.firstTxs sound max, hprocessed.firstTxs sound max⟩⟩

namespace Fixture

/-- The block at a slot, without transactions. -/
def emptyBlock (slot : UInt64) : ConfirmedBlock := .ofHeader (header slot) []

/-- A transaction of the block at slot 256 that does nothing. -/
def emptyTx (index : UInt32) : Tx := tx 256 index [] []

/-- Blocks at slots that differ in their lowest octets, put in another order and one of them with an octet
behind its record, and two transactions. -/
def shuffled : Contents := Contents.empty.performAll [
  .put .confirmedBlocks (emptyBlock 256).key (Cbor.Record.encode (emptyBlock 256)),
  .put .confirmedBlocks (emptyBlock 2).key (Cbor.Record.encode (emptyBlock 2)),
  .put .confirmedBlocks (emptyBlock 255).key (Cbor.Record.encode (emptyBlock 255) ++ [0]),
  .put .unprocessedTxs (emptyTx 256).key (Cbor.Record.encode (emptyTx 256)),
  .put .unprocessedTxs (emptyTx 255).key (Cbor.Record.encode (emptyTx 255))]

theorem filed_blocks_shuffled :
    Filed .confirmedBlocks ConfirmedBlock.key [emptyBlock 2, emptyBlock 255, emptyBlock 256] shuffled := by
  have reads (slot : UInt64) (rest : Bytes) :
      Cbor.Record.decode (Cbor.Record.encode (emptyBlock slot) ++ rest) = .ok (emptyBlock slot) :=
    have storable : (emptyBlock slot).Storable := ⟨Nat.two_pow_pos 64⟩
    Cbor.Record.decode_of_reads (ConfirmedBlock.reads (ConfirmedBlock.form_write storable)) rest
  have entries : (shuffled.get .confirmedBlocks).entries =
      [((emptyBlock 2).key, Cbor.Record.encode (emptyBlock 2)),
        ((emptyBlock 255).key, Cbor.Record.encode (emptyBlock 255) ++ [0]),
        ((emptyBlock 256).key, Cbor.Record.encode (emptyBlock 256))] := by rfl
  rw [Filed, entries]
  exact .cons ⟨rfl, by simpa using reads 2 []⟩ (.cons ⟨rfl, reads 255 [0]⟩
    (.cons ⟨rfl, by simpa using reads 256 []⟩ .nil))

theorem filed_txs_shuffled : Filed .unprocessedTxs Tx.key [emptyTx 255, emptyTx 256] shuffled := by
  have reads (index : UInt32) :
      Cbor.Record.decode (Cbor.Record.encode (emptyTx index)) = .ok (emptyTx index) :=
    Tx.decode_encode ⟨nofun, Nat.two_pow_pos 64, nofun, Nat.two_pow_pos 64, nofun⟩
  have entries : (shuffled.get .unprocessedTxs).entries =
      [((emptyTx 255).key, Cbor.Record.encode (emptyTx 255)),
        ((emptyTx 256).key, Cbor.Record.encode (emptyTx 256))] := by rfl
  rw [Filed, entries]
  exact .cons ⟨rfl, reads 255⟩ (.cons ⟨rfl, reads 256⟩ .nil)

end Fixture

open Fixture in
/-- The order is that of the numbers, in which 256 comes after 2 and 255. -/
theorem queries_shuffled :
    let db : Database := { engine := ⟨.memory, shuffled, .never⟩ }
    db.Sound ∧ shuffled.UnderOwnKeys .confirmedBlocks ConfirmedBlock.key ∧
      shuffled.UnderOwnKeys .unprocessedTxs Tx.key ∧ shuffled.UnderOwnKeys .processedTxs Tx.key ∧
    db.latestBlocks 2 = .ok [emptyBlock 256, emptyBlock 255] ∧
    db.blocksFrom 3 (UInt64.size - 1) = .ok [emptyBlock 255, emptyBlock 256] ∧
    db.unprocessedTxs 1 = .ok [emptyTx 255] ∧ db.processedTxs 0 = .ok [] := by
  intro db
  have sound : db.Sound := ⟨rfl, rfl⟩
  have filed := filed_blocks_shuffled
  have filedTxs := filed_txs_shuffled
  have own := Filed.exists_iff.1 ⟨_, filed⟩
  have ownTxs := Filed.exists_iff.1 ⟨_, filedTxs⟩
  have ownNone : shuffled.UnderOwnKeys .processedTxs Tx.key := Filed.exists_iff.1 ⟨[], .nil⟩
  obtain ⟨-, -, -, exact⟩ := queries_exact sound
  obtain ⟨blocks, unprocessed, processed, listed, listedTxs, -, queries⟩ := exact own ownTxs ownNone
  obtain rfl := listed.unique ⟨filed.rising, fun _ => filed.mem_iff⟩
  obtain rfl := listedTxs.unique ⟨filedTxs.earlier, fun _ => filedTxs.mem_iff⟩
  exact ⟨sound, own, ownTxs, ownNone, (queries 2).1, (queries _).2.1 3, (queries 1).2.2.1,
    (queries 0).2.2.2⟩

end ChainIndex
