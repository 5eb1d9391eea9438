import Mathlib.Data.List.Chain
import Mathlib.Data.List.Nodup
import ChainIndex.Fixture.Basic
import ChainIndex.Proofs.Raw.Decoding

/-!
# Where a replay goes on

* `Replay.headersAfter_eq_filter`: where slots never decrease, the headers after the point of one of them are
  the ones behind it with a later slot.
* `RawBlock.Linked`: raw blocks with their headers, one after the other on a chain. Only the block at the start of
  an epoch may have the slot of the one before it (`RawBlock.Linked.sorted`, `RawBlock.Linked.later`).
* `headersAfter_resumed`: so a replay that goes on after a block of a chain announces exactly the blocks behind it,
  unless the block is an epoch boundary block and the next one has its slot; that one is then left out.
-/

namespace ChainIndex

/-! ## Cutting headers -/

namespace Replay

/-- Where slots never decrease, the headers after the point of one of them are the ones behind it with a later
slot. -/
theorem headersAfter_eq_filter {front rest : List BlockHeader} {header : BlockHeader}
    (nonzero : header.hash.isZero = false)
    (rising : (front ++ header :: rest).Pairwise fun a b => a.slot ≤ b.slot) :
    headersAfter (front ++ header :: rest) header.point = rest.filter (header.slot < ·.slot) := by
  have notOrigin : header.point.isOrigin = false := by
    rw [Point.isOrigin, show header.point.hash = header.hash from rfl, nonzero, Bool.and_false]
  have before : (front ++ [header]).filter (header.slot < ·.slot) = [] := by
    have le := (List.pairwise_append.1 rising).2.2
    refine List.filter_eq_nil_iff.2 (List.forall_mem_append.2 ⟨fun a ha => ?_, by simp⟩)
    simpa using le a ha header List.mem_cons_self
  rw [headersAfter, notOrigin, if_neg Bool.false_ne_true, List.append_cons, List.filter_append]
  exact congrArg (· ++ _) before

/-- An indexer that begins is reset, and follows the headers that are ahead of where it stands. -/
theorem index_eq_follow {config : IndexerConfig} {files : List BlockFile} {db : Database} {store : BlockStore}
    {headers : List BlockHeader} {s t : Indexer} {start : Point}
    (loaded : load files .empty = .ok (store, headers)) (new : Indexer.new config db = .ok s)
    (reset : s.reset = (.ok start, t)) :
    index config files db = follow t store.source (headersAfter headers start) := by
  simp only [index, loaded, new, reset]

end Replay

/-! ## Chains of raw blocks -/

namespace RawBlock

/-- The block is announced as one between epochs. -/
def IsBoundary (raw : Bytes) : Prop := (number raw).toOption.map (·.1) = some 0

instance (raw : Bytes) : Decidable (IsBoundary raw) :=
  inferInstanceAs (Decidable ((number raw).toOption.map (·.1) = some 0))

/-- A block may follow another one: it has a later slot, or it is the first block of an epoch, behind the boundary
block, and has the same slot. -/
def Follows (b next : Bytes × BlockHeader) : Prop :=
  b.2.slot < next.2.slot ∨ b.2.slot = next.2.slot ∧ IsBoundary b.1 ∧ ¬IsBoundary next.1

instance (b next : Bytes × BlockHeader) : Decidable (Follows b next) :=
  inferInstanceAs (Decidable (_ ∨ _))

/-- Raw blocks with the headers that are read off them, one after the other on a chain. No hash is zero, and none
comes twice. -/
structure Linked (blocks : List (Bytes × BlockHeader)) : Prop where
  decodes : ∀ b ∈ blocks, decodeHeader b.1 = .ok b.2
  nonzero : ∀ b ∈ blocks, b.2.hash.isZero = false
  distinct : (blocks.map (·.2.hash)).Nodup
  follows : blocks.IsChain Follows

theorem Follows.le {b next : Bytes × BlockHeader} (h : Follows b next) : b.2.slot ≤ next.2.slot := by
  obtain lt | ⟨eq, -⟩ := h
  · exact UInt64.le_of_lt lt
  · exact eq ▸ UInt64.le_refl _

namespace Linked

variable {front rest more : List (Bytes × BlockHeader)} {b next : Bytes × BlockHeader}

/-- Slots never decrease. -/
theorem sorted {blocks : List (Bytes × BlockHeader)} (h : Linked blocks) :
    blocks.Pairwise fun b next => b.2.slot ≤ next.2.slot := by
  let R (b next : Bytes × BlockHeader) : Prop := b.2.slot ≤ next.2.slot
  have : Trans R R R := ⟨UInt64.le_trans⟩
  exact (h.follows.imp fun _ _ => Follows.le : blocks.IsChain R).pairwise

/-- What follows right behind a block. -/
theorem follows_next (h : Linked (front ++ b :: next :: more)) : Follows b next :=
  (List.isChain_cons_cons.1 h.follows.right_of_append).1

/-- If the block right behind one has another slot, all that is behind it has a later one. -/
theorem later_of_ne (h : Linked (front ++ b :: rest)) (ne : ∀ next ∈ rest.head?, b.2.slot ≠ next.2.slot) :
    ∀ a ∈ rest, b.2.slot < a.2.slot := by
  cases rest with
  | nil => exact nofun
  | cons next more =>
    have lt : b.2.slot < next.2.slot := h.follows_next.resolve_right fun ⟨same, _⟩ => ne next rfl same
    have sorted := (List.pairwise_append.1 h.sorted).2.1
    obtain ⟨le, -⟩ := List.pairwise_cons.1 (List.pairwise_cons.1 sorted).2
    exact List.forall_mem_cons.2 ⟨lt, fun a ha => UInt64.lt_of_lt_of_le lt (le a ha)⟩

/-- A block right behind one with its slot is the first of an epoch, and that one is the boundary block. -/
theorem boundary_of_eq (h : Linked (front ++ b :: next :: more)) (same : b.2.slot = next.2.slot) :
    IsBoundary b.1 ∧ ¬IsBoundary next.1 :=
  (h.follows_next.resolve_left fun lt => UInt64.lt_irrefl _ (same ▸ lt)).2

/-- All that is behind two blocks with the same slot has a later one. -/
theorem later (h : Linked (front ++ b :: next :: more)) (same : b.2.slot = next.2.slot) :
    ∀ a ∈ more, b.2.slot < a.2.slot := by
  obtain ⟨-, ordinary⟩ := h.boundary_of_eq same
  have split : front ++ b :: next :: more = (front ++ [b]) ++ next :: more := by simp
  refine same ▸ later_of_ne (split ▸ h) fun a ha same' => ?_
  obtain ⟨more, rfl⟩ := List.head?_eq_some_iff.1 ha
  exact ordinary (boundary_of_eq (split ▸ h) same').1

/-- The headers after the point of a block are those of the blocks behind it with a later slot. -/
theorem headersAfter_eq (h : Linked (front ++ b :: rest)) :
    Replay.headersAfter ((front ++ b :: rest).map (·.2)) b.2.point =
      (rest.filter (b.2.slot < ·.2.slot)).map (·.2) := by
  have sorted : ((front ++ b :: rest).map (·.2)).Pairwise fun a b => a.slot ≤ b.slot :=
    List.pairwise_map.2 h.sorted
  rw [List.map_append, List.map_cons] at sorted ⊢
  rw [Replay.headersAfter_eq_filter (h.nonzero b (by simp)) sorted, List.filter_map]
  rfl

end Linked

end RawBlock

open Replay in
/-- Take files whose blocks stand one after the other on a chain, and a replay that goes on after one of them. If
the next block has another slot, or there is none, then exactly the blocks behind it are announced, in order. A next
block with the same slot is the first one of an epoch, behind the boundary block; it alone is left out, and those
behind it are announced. From the origin all blocks are. -/
theorem headersAfter_resumed {front rest : List (Bytes × BlockHeader)} {b : Bytes × BlockHeader}
    (linked : RawBlock.Linked (front ++ b :: rest)) {files : List BlockFile}
    (content : files.map (·.content) = (front ++ b :: rest).map fun b => .ok b.1) :
    let headers := (front ++ b :: rest).map (·.2)
    let announced := headersAfter headers b.2.point
    (∃ store, load files .empty = .ok (store, headers) ∧
      ∀ config db s t, Indexer.new config db = .ok s → s.reset = (.ok b.2.point, t) →
        index config files db = follow t store.source announced) ∧
    ((∀ next ∈ rest.head?, b.2.slot ≠ next.2.slot) → announced = rest.map (·.2)) ∧
    (∀ next more, rest = next :: more → b.2.slot = next.2.slot →
      RawBlock.IsBoundary b.1 ∧ ¬RawBlock.IsBoundary next.1 ∧ announced = more.map (·.2)) ∧
    headersAfter headers .origin = headers := by
  intro headers announced
  have announced_eq : announced = (rest.filter (b.2.slot < ·.2.slot)).map (·.2) := linked.headersAfter_eq
  refine ⟨?_, fun ne => ?_, fun next more split same => ?_, rfl⟩
  · have loaded : load files .empty = .ok (BlockStore.empty.insertAll (front ++ b :: rest), headers) :=
      load_eq_ok.2 ⟨_, content, linked.decodes, rfl, rfl⟩
    exact ⟨_, loaded, fun config db s t new reset => index_eq_follow loaded new reset⟩
  · rw [announced_eq, List.filter_eq_self.2]
    exact fun a ha => decide_eq_true (linked.later_of_ne ne a ha)
  · subst split
    obtain ⟨boundary, ordinary⟩ := linked.boundary_of_eq same
    refine ⟨boundary, ordinary, ?_⟩
    rw [announced_eq, List.filter_cons_of_neg (by simp [same]), List.filter_eq_self.2]
    exact fun a ha => decide_eq_true (linked.later same a ha)

/-! ## An epoch with a single block -/

namespace Fixture

/-- A byte string of 32 octets. -/
def octets32 (octet : UInt8) : Bytes := 0x58 :: 32 :: List.replicate 32 octet

/-- The boundary block of an epoch. -/
def boundaryBlock (epoch : UInt8) : Bytes :=
  [0x82, 0, 0x83, 0x85, 0] ++ octets32 0 ++ octets32 2 ++
    [0x82, epoch, 0x81, 7, 0x81, 0xa0, 0x80, 0x81, 0xa0]

/-- The first block of epoch 1. -/
def epochBlock : Bytes :=
  [0x82, 1, 0x83, 0x85, 0] ++ octets32 1 ++ [0x84, 0x83, 0] ++ octets32 2 ++ octets32 3 ++ [0x82, 3] ++
    octets32 4 ++ octets32 5 ++ octets32 6 ++ [0x84, 0x82, 1, 0, 0x40, 0x81, 8, 0x82, 0, 0x40,
    0x84, 0x83, 0, 1, 0, 0x82, 0x60, 1, 0xa0] ++ octets32 7 ++
    [0x84, 0x80, 0x82, 3, 0xd9, 1, 2, 0x80, 0x80, 0x82, 0x80, 0x80, 0x81, 0xa0]

/-- A block with the header that is read off it. -/
def withHeader (raw : Bytes) : Bytes × BlockHeader :=
  (raw, (RawBlock.decodeHeader raw).toOption.getD ⟨0, blockHash 0, 0, 0⟩)

/-- The first block of an epoch, behind the boundary block and before the next one. -/
def epochBlocks : List (Bytes × BlockHeader) := [boundaryBlock 1, epochBlock, boundaryBlock 2].map withHeader

theorem linked_epochBlocks : RawBlock.Linked epochBlocks := by
  have reads : ∀ raw ∈ [boundaryBlock 1, epochBlock, boundaryBlock 2],
      (RawBlock.decodeHeader raw).toOption.isSome = true := by decide +kernel
  -- the first octets tell the hashes apart
  let octet (hash : BlockHash) : Option UInt8 := hash.bytes.head?
  have first : (epochBlocks.map (·.2.hash)).map octet = [some 4, some 252, some 116] := by decide +kernel
  refine ⟨List.forall_mem_map.2 fun raw hraw => ok_of_toOption ?_, fun b hb => ?_, ?_, by decide +kernel⟩
  · obtain ⟨header, found⟩ := Option.isSome_iff_exists.1 (reads raw hraw)
    rw [withHeader, found]
    rfl
  · have mem : octet b.2.hash ∈ [some 4, some 252, some 116] :=
      first ▸ List.mem_map_of_mem (List.mem_map_of_mem hb)
    refine Bool.eq_false_iff.2 fun zero => ?_
    have none (o : UInt8) (ho : octet b.2.hash = some o) : o = 0 := by
      simpa using List.all_eq_true.1 zero o (List.mem_of_head? ho)
    simp only [List.mem_cons, List.not_mem_nil, or_false] at mem
    obtain h | h | h := mem <;> exact absurd (none _ h) (by decide)
  · exact List.Nodup.of_map octet (first ▸ by decide)

end Fixture

open Fixture Replay

/-- A replay that goes on after the first block of the epoch announces the boundary block behind it. So does one that
goes on after the boundary block before it. -/
theorem headersAfter_epochBlocks :
    let files : List BlockFile := epochBlocks.map fun b => ⟨"", .ok b.1⟩
    let headers := epochBlocks.map (·.2)
    RawBlock.Linked epochBlocks ∧ (files.map (·.content) = epochBlocks.map fun b => .ok b.1) ∧
      (∃ store, load files .empty = .ok (store, headers)) ∧
      headersAfter headers (withHeader epochBlock).2.point = [(withHeader (boundaryBlock 2)).2] ∧
      headersAfter headers (withHeader (boundaryBlock 1)).2.point = [(withHeader (boundaryBlock 2)).2] := by
  intro files headers
  have content : files.map (·.content) = epochBlocks.map fun b => .ok b.1 := List.map_map
  have afterFirst : RawBlock.Linked
      ([withHeader (boundaryBlock 1)] ++ withHeader epochBlock :: [withHeader (boundaryBlock 2)]) :=
    linked_epochBlocks
  have afterBoundary : RawBlock.Linked
      ([] ++ withHeader (boundaryBlock 1) :: [withHeader epochBlock, withHeader (boundaryBlock 2)]) :=
    linked_epochBlocks
  obtain ⟨⟨store, loaded, -⟩, behind, -, -⟩ := headersAfter_resumed afterFirst content
  obtain ⟨-, -, skipped, -⟩ := headersAfter_resumed afterBoundary content
  exact ⟨afterFirst, content, ⟨store, loaded⟩, behind (by decide +kernel),
    (skipped _ _ rfl (by decide +kernel)).2.2⟩

/-- It is not so that after every block of a chain exactly the blocks behind it are announced: after a boundary block
the first block of its epoch is not. -/
theorem not_resumed_of_linked :
    ¬ ∀ (front rest : List (Bytes × BlockHeader)) (b : Bytes × BlockHeader),
      RawBlock.Linked (front ++ b :: rest) →
      headersAfter ((front ++ b :: rest).map (·.2)) b.2.point = rest.map (·.2) := by
  intro h
  have all := h [] [withHeader epochBlock, withHeader (boundaryBlock 2)] (withHeader (boundaryBlock 1))
    linked_epochBlocks
  have announced : (headersAfter (epochBlocks.map (·.2)) (withHeader (boundaryBlock 1)).2.point).length = 1 := by
    decide +kernel
  exact absurd (announced.symm.trans (congrArg List.length all)) (by decide)

end ChainIndex
