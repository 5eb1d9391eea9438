import ChainIndex.Fixture.Basic
import ChainIndex.Proofs.Indexer.Progress

/-!
# Blocks that share a slot

Confirmed blocks are stored by slot. Where two successive blocks have the same slot, as a boundary block and the
first block of its epoch do, the second one takes the place of the first one.

* `Ascends`: slots do not decrease along a chain, and the hashes of its blocks differ.
* `Course.Retains`: the blocks that are stored are those that are left of the confirmed ones. Every turn along
  such a chain keeps it (`Course.Retains.turn`).
* `blocksFrom_eq_survivors`: so a confirmed block is stored as it is until one with its slot is confirmed.
* `not_stored_of_confirmed`: after that it is gone.
-/

namespace ChainIndex

variable {κ : Type}

/-- Slots do not decrease along the chain, and the hashes of its blocks differ. -/
def Ascends (chain : List BlockHeader) : Prop := Climbing chain ∧ (chain.map (·.hash)).Nodup

instance (chain : List BlockHeader) : Decidable (Ascends chain) := inferInstanceAs (Decidable (_ ∧ _))

theorem Ascends.append_left {front rest : List BlockHeader} (h : Ascends (front ++ rest)) :
    Ascends front := by
  obtain ⟨climbing, distinct⟩ := h
  rw [List.map_append] at distinct
  exact ⟨(List.pairwise_append.1 climbing).1, (List.nodup_append.1 distinct).1⟩

theorem Ascends.differ {chain : List BlockHeader} (h : Ascends chain) : Differ chain := by
  refine (List.pairwise_map.1 h.2).imp fun {a b} ne => Bool.eq_false_iff.2 fun same => ?_
  exact ne (Point.sameBlock_iff.1 same).2

/-- Turns take back nothing that the consumer was handed. -/
theorem Session.blocks_prefix_turns {config : IndexerConfig} {t : Session κ}
    (ready : t.indexer.Ready config) (turns : List (Turn κ)) : t.blocks <+: (t.turns turns).blocks := by
  induction turns generalizing t with
  | nil => exact List.prefix_rfl
  | cons turn turns ih =>
    obtain ⟨more, handed⟩ := handed_turn ready turn
    have here : t.blocks <+: (t.turn turn).blocks := by
      rw [blocks, blocks, handed, List.map_append]
      exact List.prefix_append _ _
    exact here.trans (ih (ready_turn ready turn))

namespace Course

variable {config : IndexerConfig} {m : Course κ}

/-- The blocks that are stored are those that are left of the confirmed ones. -/
structure Retains (config : IndexerConfig) (m : Course κ) : Prop where
  ready : m.session.indexer.Ready config
  onTrack : m.OnTrack
  ascends : Ascends m.chain
  recorded : Recorded (survivors m.session.blocks) m.session.contents

namespace Retains

theorem start {db : Database} {s : Indexer} (new : Indexer.new config db = .ok s)
    (empty : db.contents = .empty) (k : κ) : (start s k).Retains config := by
  have ready := Indexer.Ready.new new
  obtain rfl := Indexer.new_ok new
  refine ⟨ready, .anew rfl rfl rfl, ⟨.nil, .nil⟩, ?_⟩
  change Recorded [] db.contents
  rw [empty]
  exact .empty

/-- What is confirmed is the first part of the chain. -/
theorem confirmed (h : m.Retains config) : Ascends m.session.confirmed := by
  have ascends := h.ascends
  rw [h.onTrack.chain_eq] at ascends
  exact ascends.append_left

theorem turn (h : m.Retains config) {turn : Turn κ} (sparing : turn.Sparing m.session.indexer.database)
    (ascends : Ascends (m.turn turn).chain) : (m.turn turn).Retains config := by
  have announced : Differ m.announced := (List.pairwise_append.1 h.ascends.differ).2.1
  have onTrack := h.onTrack.turn h.ready announced turn
  have confirmed : Ascends (m.turn turn).session.confirmed := by
    rw [onTrack.chain_eq] at ascends
    exact ascends.append_left
  refine ⟨?_, onTrack, ascends, ?_⟩
  · rw [session_turn]
    exact Session.ready_turn h.ready turn
  · rw [session_turn] at confirmed ⊢
    exact Session.recorded_turn h.ready sparing h.recorded confirmed.1

theorem turns (h : m.Retains config) {turns : List (Turn κ)}
    (sparing : ∀ turn ∈ turns, ∀ db, turn.Sparing db)
    (ascends : ∀ n ≤ turns.length, Ascends (m.turns (turns.take n)).chain) :
    (m.turns turns).Retains config := by
  induction turns generalizing m with
  | nil => exact h
  | cons turn turns ih =>
    obtain ⟨first, others⟩ := List.forall_mem_cons.1 sparing
    have here : Ascends (m.turn turn).chain := ascends 1 (Nat.succ_le_succ (Nat.zero_le _))
    exact ih (h.turn (first _) here) others fun n hn => ascends (n + 1) (Nat.succ_le_succ hn)

/-- A confirmed block survives as long as none with its slot is confirmed after it. -/
theorem mem_survivors (h : m.Retains config) {front rest : List ConfirmedBlock} {b : ConfirmedBlock}
    (split : m.session.blocks = front ++ b :: rest) :
    b ∈ survivors m.session.blocks ↔ ∀ later ∈ rest, later.slot ≠ b.slot := by
  have hashes : (m.session.blocks.map (·.hash)).Nodup := by
    have distinct := h.confirmed.2
    rwa [Session.confirmed_eq_blocks, List.map_map] at distinct
  rw [split] at hashes ⊢
  refine mem_survivors_iff fun again => ?_
  have distinct := (List.nodup_append.1 (List.map_append ▸ hashes)).2.1
  exact (List.nodup_cons.1 distinct).1 (List.mem_map_of_mem again)

end Retains

theorem session_turns (m : Course κ) (turns : List (Turn κ)) :
    (m.turns turns).session = m.session.turns turns := by
  induction turns generalizing m with
  | nil => rfl
  | cons turn turns ih => exact (ih (m.turn turn)).trans (by rw [session_turn]; rfl)

end Course

/-- Take a store that is empty at first, and an indexer over it that may be reset and restarted at any time.
Sources, the store and consumers may fail, and consumers and others may use the store for anything but blocks.
The slots of the announced headers do not decrease along the chain, and their hashes differ.

Then the stored blocks are what is left of those that were handed to the consumer, in this order, when each
one takes the place of those before it with its slot. A block that was handed to the consumer by some turn is
stored as it is after all later turns, exactly as long as none with its slot is confirmed after it. -/
theorem blocksFrom_eq_survivors {config : IndexerConfig} {empty : Database} {s : Indexer}
    (new : Indexer.new config empty = .ok s) (nothing : empty.contents = .empty) (k : κ)
    {turns : List (Turn κ)} (sparing : ∀ turn ∈ turns, ∀ db, turn.Sparing db)
    (ascends : ∀ n ≤ turns.length, Ascends ((Course.start s k).turns (turns.take n)).chain) :
    let t := (Session.since s k).turns turns
    (∀ db : Database, db.Sound → db.contents = t.contents → ∀ max,
      db.blocksFrom 0 max = .ok ((survivors t.blocks).take max)) ∧
    (∀ n, ((Session.since s k).turns (turns.take n)).blocks <+: t.blocks) ∧
    ∀ front b rest, t.blocks = front ++ b :: rest →
      (b ∈ survivors t.blocks ↔ ∀ later ∈ rest, later.slot ≠ b.slot) := by
  intro t
  have retains := (Course.Retains.start new nothing k).turns sparing ascends
  have session : ((Course.start s k).turns turns).session = t := Course.session_turns _ _
  refine ⟨fun db sound same max => ?_, fun n => ?_, fun front b rest split => ?_⟩
  · have recorded : Recorded (survivors t.blocks) db.contents := by
      rw [same, ← session]
      exact retains.recorded
    exact recorded.blocksFrom_zero sound max
  · have ready : (Session.since s k).indexer.Ready config := .new new
    have later := Session.blocks_prefix_turns (Session.ready_turns ready (turns.take n)) (turns.drop n)
    rwa [← Session.turns_append, List.take_append_drop] at later
  · rw [← session] at split ⊢
    exact retains.mem_survivors split

/-! ## A boundary block -/

/-- The header of a boundary block, at the slot of the first block of its epoch. -/
def boundaryHeader (slot : UInt64) : BlockHeader :=
  { slot, hash := Fixture.markedHash (bigEndian 8 slot.toNat) 0xeb, number := slot, eraId := Era.byron.id }

/-- Nothing fails, and blocks have no transactions. -/
def emptyBlocks : Surroundings Unit :=
  ⟨fun _ => .ok [], fun _ _ k db => (.ok (), k, db), Database.withFaults .never⟩

/-- An indexer over an empty store that lets one header wait. -/
def boundaryIndexer : Indexer :=
  { config := { confirmationDepth := 1 }, database := .new .memory, window := .empty 1 }

/-- A boundary block and the first block of its epoch are announced, and two more. -/
def epochTurns : List (Turn Unit) :=
  .reset (Database.withFaults .never) ::
    [boundaryHeader 21600, Fixture.header 21600, Fixture.header 21601, Fixture.header 21602].map
      fun header => .event ⟨emptyBlocks, .rollForward header⟩

theorem epochTurns_sparing : ∀ turn ∈ epochTurns, ∀ db, turn.Sparing db := by
  have forward (header : BlockHeader) (db : Database) :
      Turn.Sparing db (.event ⟨emptyBlocks, .rollForward header⟩) := by
    refine ⟨?_, fun _ _ _ _ disk => ⟨disk, rfl, rfl⟩, .withFaults rfl⟩
    rintro header _ ⟨⟩
    exact (by decide : 0 < UInt64.size)
  intro turn hm
  obtain rfl | hm := List.mem_cons.1 hm
  · exact fun _ => .withFaults rfl
  · obtain ⟨header, -, rfl⟩ := List.mem_map.1 hm
    exact forward header

theorem epochTurns_ascends : ∀ n ≤ epochTurns.length,
    Ascends ((Course.start boundaryIndexer ()).turns (epochTurns.take n)).chain := by
  decide +kernel

/-- Three blocks are confirmed, and the boundary block is not stored. -/
theorem blocksFrom_epochTurns :
    let t := (Session.since boundaryIndexer ()).turns epochTurns
    let db := (Database.new .memory).withContents t.contents
    t.confirmed = [boundaryHeader 21600, Fixture.header 21600, Fixture.header 21601] ∧
      db.blocksFrom 0 10 = .ok [.ofHeader (Fixture.header 21600) [], .ofHeader (Fixture.header 21601) []] := by
  intro t db
  have new : Indexer.new boundaryIndexer.config (.new .memory) = .ok boundaryIndexer := rfl
  obtain ⟨stored, -, -⟩ := blocksFrom_eq_survivors new rfl () epochTurns_sparing epochTurns_ascends
  have left : survivors t.blocks =
      [.ofHeader (Fixture.header 21600) [], .ofHeader (Fixture.header 21601) []] := by decide +kernel
  refine ⟨by decide +kernel, ?_⟩
  rw [stored db ((Database.Sound.new .memory).withContents _) (Database.contents_withContents ..) 10, left]
  rfl

/-- It is not so that a block that was handed to the consumer is found among the stored ones after all later
turns: where the next block has its slot, it is not. -/
theorem not_stored_of_confirmed :
    ¬ ∀ (config : IndexerConfig) (empty : Database) (s : Indexer) (turns : List (Turn Unit)),
      Indexer.new config empty = .ok s → empty.contents = .empty →
      (∀ turn ∈ turns, ∀ db, turn.Sparing db) →
      (∀ n ≤ turns.length, Ascends ((Course.start s ()).turns (turns.take n)).chain) →
      ∀ n, ∀ b ∈ ((Session.since s ()).turns (turns.take n)).blocks,
        ∀ db : Database, db.Sound → db.contents = ((Session.since s ()).turns turns).contents →
          ∃ max blocks, db.blocksFrom 0 max = .ok blocks ∧ b ∈ blocks := by
  intro h
  have new : Indexer.new boundaryIndexer.config (.new .memory) = .ok boundaryIndexer := rfl
  have retains := (Course.Retains.start new rfl ()).turns epochTurns_sparing epochTurns_ascends
  have handed : ConfirmedBlock.ofHeader (boundaryHeader 21600) [] ∈
      ((Session.since boundaryIndexer ()).turns (epochTurns.take 3)).blocks := by decide +kernel
  let t := (Session.since boundaryIndexer ()).turns epochTurns
  let db := (Database.new .memory).withContents t.contents
  have sound : db.Sound := (Database.Sound.new .memory).withContents _
  obtain ⟨max, blocks, found, hm⟩ := h _ _ _ epochTurns new rfl epochTurns_sparing epochTurns_ascends 3 _
    handed db sound (Database.contents_withContents ..)
  have recorded : Recorded (survivors t.blocks) db.contents := by
    have session : ((Course.start boundaryIndexer ()).turns epochTurns).session = t :=
      Course.session_turns _ _
    rw [Database.contents_withContents, ← session]
    exact retains.recorded
  rw [recorded.blocksFrom_zero sound] at found
  obtain rfl := Except.ok.inj found
  have absent : ConfirmedBlock.ofHeader (boundaryHeader 21600) [] ∉
      survivors t.blocks := by decide +kernel
  exact absent (List.mem_of_mem_take hm)

end ChainIndex
