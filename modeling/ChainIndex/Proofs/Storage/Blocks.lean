import ChainIndex.Proofs.Storage.Queries
import Mathlib.Data.List.Induction

/-!
# Confirmed blocks in the order of their slots

* `KeyMap.entries_insert_last`: an entry with a key behind all others comes last. One with the last key takes
  its place (`KeyMap.entries_insert_newest`).
* `StoredBlocks blocks c`: the blocks and nothing else are stored. `StoredBlocks.latestBlocks` and
  `StoredBlocks.blocksFrom`: what the queries find then.
* `Recorded blocks c`: besides, the latest point is that of the last of them. One more block is recorded at
  the end, if no other one has a later slot, and takes the place of one with the same slot (`Recorded.put`).
* `survivors`: the blocks that are left of those that were recorded one after the other.
-/

namespace ChainIndex

/-! ## Entries in key order -/

namespace KeyMap

variable {α : Type} {m : KeyMap α}

theorem eq_of_entries {n : KeyMap α} (h : m.entries = n.entries) : m = n := by
  cases m; cases n
  cases h
  rfl

theorem insertEntry_last {key : Bytes} (value : α) {entries : List (Bytes × α)}
    (behind : ∀ e ∈ entries, e.1 < key) : insertEntry key value entries = entries ++ [(key, value)] := by
  induction entries with
  | nil => rfl
  | cons e rest ih =>
    obtain ⟨he, hrest⟩ := List.forall_mem_cons.1 behind
    have notBefore : ¬key < e.1 := fun h => List.lt_irrefl _ (List.lt_trans h he)
    have notSame : key ≠ e.1 := fun h => List.lt_irrefl _ (h ▸ he)
    rw [insertEntry, if_neg notBefore, if_neg notSame, ih hrest]
    rfl

/-- An entry with a key behind all others comes last. -/
theorem entries_insert_last {key : Bytes} (value : α) (behind : ∀ e ∈ m.entries, e.1 < key) :
    (m.insert key value).entries = m.entries ++ [(key, value)] := insertEntry_last value behind

/-- An entry with a key that no other is behind comes last, without the one that had its key. -/
theorem entries_insert_newest {key : Bytes} (value : α) (newest : ∀ e ∈ m.entries, ¬key < e.1) :
    (m.insert key value).entries = m.entries.filter (fun e => e.1 != key) ++ [(key, value)] := by
  have erased : m.insert key value = (m.erase key).insert key value := by
    refine ext_get? fun k => ?_
    simp only [get?_insert, get?_erase]
    split <;> rfl
  rw [erased]
  refine entries_insert_last value fun e he => ?_
  obtain ⟨he, ne⟩ := List.mem_filter.1 he
  obtain lt | eq | behind := Std.lt_trichotomy e.1 key
  · exact lt
  · simp [eq] at ne
  · exact absurd behind (newest e he)

end KeyMap

/-! ## Stored blocks -/

namespace ConfirmedBlock

/-- How a block is stored. -/
def entry (b : ConfirmedBlock) : Entry := (b.key, Cbor.Record.encode b)

end ConfirmedBlock

namespace Database

theorem Sound.latestPoint?_eq {db : Database} (sound : db.Sound) {point? : Option Point}
    (lookup : db.contents.lookup .latestPoint Key.latestPoint = point?.map Cbor.Record.encode) :
    db.latestPoint? = .ok point? := by
  have get : (View.get .latestPoint Key.latestPoint : View StoreError _) db.engine =
      .ok (point?.map Cbor.Record.encode) := by
    rw [View.get, Engine.get, sound.never, ← lookup]
    rfl
  rw [Database.latestPoint?, sound.view_eq]
  refine View.bind_eq_ok.2 ⟨_, get, ?_⟩
  cases point? with
  | none => rfl
  | some p =>
    refine View.bind_eq_ok.2 ⟨p, ?_, rfl⟩
    rw [View.record, readRecord, p.decode_encode]

/-- Whatever faults there are: the latest point that is found is the stored one. -/
theorem latestPoint?_of_ok {db : Database} {stored point? : Option Point}
    (h : db.latestPoint? = .ok stored) (lookup : db.contents.lookup .latestPoint Key.latestPoint =
      point?.map Cbor.Record.encode) : stored = point? := by
  unfold latestPoint? view at h
  split at h
  · cases h
  · obtain ⟨value?, hget, h⟩ := View.bind_eq_ok.1 h
    rw [View.get_eq_ok hget, show db.engine.contents.lookup .latestPoint Key.latestPoint = _ from lookup]
      at h
    cases point? with
    | none => cases h; rfl
    | some p =>
      obtain ⟨q, hread, h⟩ := View.bind_eq_ok.1 h
      rw [View.record, readRecord, p.decode_encode] at hread
      cases hread
      cases h
      rfl

end Database

/-- The blocks that are left when each one takes the place of those before it that have its slot. -/
def survivors (blocks : List ConfirmedBlock) : List ConfirmedBlock :=
  blocks.foldl (fun kept b => kept.filter (·.slot ≠ b.slot) ++ [b]) []

theorem survivors_append_singleton (blocks : List ConfirmedBlock) (b : ConfirmedBlock) :
    survivors (blocks ++ [b]) = (survivors blocks).filter (·.slot ≠ b.slot) ++ [b] :=
  List.foldl_append

theorem survivors_subset (blocks : List ConfirmedBlock) : survivors blocks ⊆ blocks := by
  induction blocks using List.reverseRecOn with
  | nil => exact List.Subset.refl _
  | append_singleton blocks b ih =>
    rw [survivors_append_singleton]
    exact List.append_subset.2 ⟨fun a ha => List.mem_append_left _ (ih (List.mem_filter.1 ha).1),
      List.subset_append_right _ _⟩

/-- Nothing is replaced where slots increase. -/
theorem survivors_of_rising {blocks : List ConfirmedBlock}
    (rising : blocks.Pairwise fun a b => a.slot < b.slot) : survivors blocks = blocks := by
  induction blocks using List.reverseRecOn with
  | nil => rfl
  | append_singleton blocks b ih =>
    obtain ⟨front, -, later⟩ := List.pairwise_append.1 rising
    rw [survivors_append_singleton, ih front, List.filter_eq_self.2]
    exact fun a ha => decide_eq_true (UInt64.ne_of_lt (later a ha b (List.mem_singleton_self b)))

/-- A block survives as long as no later one has its slot. -/
theorem mem_survivors_iff {front rest : List ConfirmedBlock} {b : ConfirmedBlock} (new : b ∉ rest) :
    b ∈ survivors (front ++ b :: rest) ↔ ∀ c ∈ rest, c.slot ≠ b.slot := by
  induction rest using List.reverseRecOn with
  | nil =>
    rw [survivors_append_singleton]
    simp
  | append_singleton rest c ih =>
    obtain ⟨new, ne⟩ : b ∉ rest ∧ b ≠ c := by simpa using new
    rw [← List.cons_append, ← List.append_assoc, survivors_append_singleton, List.mem_append,
      List.mem_filter, ih new, List.forall_mem_append, List.forall_mem_singleton]
    simp only [List.mem_singleton, ne, or_false, decide_eq_true_eq, ne_comm]

/-- The blocks and nothing else are stored, in the order of their slots. -/
structure StoredBlocks (blocks : List ConfirmedBlock) (c : Contents) : Prop where
  entries : (c.get .confirmedBlocks).entries = blocks.map ConfirmedBlock.entry
  storable : ∀ b ∈ blocks, b.Storable

namespace StoredBlocks

variable {blocks : List ConfirmedBlock} {c : Contents} {db : Database}

theorem filed (h : StoredBlocks blocks c) : Filed .confirmedBlocks ConfirmedBlock.key blocks c := by
  rw [Filed, h.entries, List.forall₂_map_left_iff, List.forall₂_same]
  exact fun b hb => ⟨rfl, ConfirmedBlock.decode_encode (h.storable b hb)⟩

theorem rising (h : StoredBlocks blocks c) : blocks.Pairwise fun a b => a.slot < b.slot := h.filed.rising

/-- The newest blocks. -/
theorem latestBlocks (h : StoredBlocks blocks db.contents) (sound : db.Sound) (max : Nat) :
    db.latestBlocks max = .ok (blocks.reverse.take max) := h.filed.latestBlocks sound max

/-- The blocks from a slot on. -/
theorem blocksFrom (h : StoredBlocks blocks db.contents) (sound : db.Sound) (slot : UInt64)
    (max : Nat) : db.blocksFrom slot max = .ok ((blocks.filter (slot ≤ ·.slot)).take max) :=
  h.filed.blocksFrom sound slot max

end StoredBlocks

/-- The blocks and nothing else are stored, and the latest point is that of the last of them. -/
structure Recorded (blocks : List ConfirmedBlock) (c : Contents) : Prop where
  entries : (c.get .confirmedBlocks).entries = blocks.map ConfirmedBlock.entry
  latest : c.lookup .latestPoint Key.latestPoint =
    (blocks.getLast?.map ConfirmedBlock.point).map Cbor.Record.encode
  storable : ∀ b ∈ blocks, b.Storable

namespace Recorded

variable {blocks : List ConfirmedBlock} {c c' : Contents}

theorem empty : Recorded [] .empty := ⟨rfl, rfl, nofun⟩

/-- Only the blocks and the latest point matter. -/
theorem congr (h : Recorded blocks c) (same : c'.get .confirmedBlocks = c.get .confirmedBlocks)
    (latest : c'.get .latestPoint = c.get .latestPoint) : Recorded blocks c' :=
  ⟨same ▸ h.entries, (congrArg (·.get? Key.latestPoint) latest).trans h.latest, h.storable⟩

theorem stored (h : Recorded blocks c) : StoredBlocks blocks c := ⟨h.entries, h.storable⟩

/-- A block that no other is later than is recorded at the end, in place of one with its slot. -/
theorem put (h : Recorded blocks c) {b : ConfirmedBlock} (newest : ∀ a ∈ blocks, a.slot ≤ b.slot)
    (storable : b.Storable)
    (block : c'.get .confirmedBlocks =
      (c.get .confirmedBlocks).insert b.key (Cbor.Record.encode b))
    (latest : c'.get .latestPoint =
      (c.get .latestPoint).insert Key.latestPoint (Cbor.Record.encode b.point)) :
    Recorded (blocks.filter (·.slot ≠ b.slot) ++ [b]) c' where
  entries := by
    have others : ((c.get .confirmedBlocks).entries.filter fun e => e.1 != b.key) =
        (blocks.filter (·.slot ≠ b.slot)).map ConfirmedBlock.entry := by
      rw [h.entries, List.filter_map]
      refine congrArg _ (List.filter_congr fun a _ => ?_)
      rw [Bool.eq_iff_iff]
      simp [ConfirmedBlock.entry, ConfirmedBlock.key, Key.ofSlot_inj]
    rw [block, KeyMap.entries_insert_newest, others, List.map_append]
    · rfl
    · rw [h.entries]
      rintro _ he
      obtain ⟨a, ha, rfl⟩ := List.mem_map.1 he
      exact fun behind => UInt64.not_lt.2 (newest a ha) (Key.ofSlot_lt_iff.1 behind)
  latest := by
    rw [Contents.lookup, latest, KeyMap.get?_insert, if_pos rfl, List.getLast?_append]
    rfl
  storable := List.forall_mem_append.2
    ⟨fun a ha => h.storable a (List.mem_filter.1 ha).1, List.forall_mem_singleton.2 storable⟩

/-- A block with a later slot than all others is recorded behind them. -/
theorem append (h : Recorded blocks c) {b : ConfirmedBlock} (later : ∀ a ∈ blocks, a.slot < b.slot)
    (storable : b.Storable)
    (block : c'.get .confirmedBlocks =
      (c.get .confirmedBlocks).insert b.key (Cbor.Record.encode b))
    (latest : c'.get .latestPoint =
      (c.get .latestPoint).insert Key.latestPoint (Cbor.Record.encode b.point)) :
    Recorded (blocks ++ [b]) c' := by
  have all : blocks.filter (·.slot ≠ b.slot) = blocks :=
    List.filter_eq_self.2 fun a ha => decide_eq_true (UInt64.ne_of_lt (later a ha))
  have recorded := h.put (fun a ha => UInt64.le_of_lt (later a ha)) storable block latest
  rwa [all] at recorded

/-! ### What the queries find -/

variable {db : Database}

theorem latestPoint? (h : Recorded blocks db.contents) (sound : db.Sound) :
    db.latestPoint? = .ok (blocks.getLast?.map ConfirmedBlock.point) := sound.latestPoint?_eq h.latest

/-- The newest blocks. -/
theorem latestBlocks (h : Recorded blocks db.contents) (sound : db.Sound) (max : Nat) :
    db.latestBlocks max = .ok (blocks.reverse.take max) := h.stored.latestBlocks sound max

/-- The oldest blocks. -/
theorem blocksFrom_zero (h : Recorded blocks db.contents) (sound : db.Sound) (max : Nat) :
    db.blocksFrom 0 max = .ok (blocks.take max) := by
  have all : blocks.filter (0 ≤ ·.slot) = blocks :=
    List.filter_eq_self.2 fun b _ => decide_eq_true UInt64.zero_le
  rw [h.stored.blocksFrom sound, all]

end Recorded

end ChainIndex
