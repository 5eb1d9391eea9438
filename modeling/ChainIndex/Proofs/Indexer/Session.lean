import ChainIndex.Proofs.Indexer.Reachable
import ChainIndex.Runner

/-!
# Sessions

What an indexer does between two resets, with everything that can be seen of it from outside.

* `Call`: an event, and what the indexer meets on it, its `Surroundings`: a source, a consumer, and a
  store that others may have changed and whose calls may fail.
* `Session`: an indexer with the state of its consumer, the confirmed blocks that the consumer was
  handed and the answers to the events so far. `Session.step` makes one call.
* `Session.announced`: the chain that the events and their answers announce. It does not look at the
  indexer.
* `Session.Moved`: what a step does to the headers that are confirmed and to those that wait
  (`Session.moved_step`).
-/

namespace ChainIndex

variable {κ : Type}

/-- The header of the block that is recorded. -/
def ConfirmedBlock.header (b : ConfirmedBlock) : BlockHeader := ⟨b.slot, b.hash, b.number, b.eraId⟩

@[simp] theorem ConfirmedBlock.header_ofHeader (h : BlockHeader) (txHashes : List TxHash) :
    (ofHeader h txHashes).header = h := rfl

/-- A consumer that also keeps what it was handed. -/
def Consumer.logged (consumer : Consumer κ) : Consumer (κ × List (ConfirmedBlock × List Tx)) :=
  fun block txs (k, handed) db =>
    let (result, k, db) := consumer block txs k db
    (result, (k, handed ++ [(block, txs)]), db)

/-- What the indexer meets on an event. -/
structure Surroundings (κ : Type) where
  source : BlockSource
  consumer : Consumer κ
  /-- What others did to the store before the event, and which of its calls fail now. -/
  store : Database → Database := id

/-- An event in its surroundings. -/
structure Call (κ : Type) extends Surroundings κ where
  event : ChainEvent

/-- What an event was answered. -/
abbrev Answer := Except IndexerError Unit

/-- An event took effect when it was accepted, and also when only the consumer failed. -/
def Answer.isEffective : Answer → Bool
  | .ok () => true
  | .error e => e.kind = .consumer

theorem isEffective_mapError_consumer (point : Point) (r : Except String Unit) :
    Answer.isEffective (r.mapError (.consumer point)) = true := by
  cases r <;> rfl

/-! ## The announced chain -/

/-- The headers up to the first one of the block of a point; none if there is no such block. -/
def cutAfter (point : Point) (chain : List BlockHeader) : List BlockHeader :=
  match chain.findIdx? fun h => h.point.sameBlock point with
  | some index => chain.take (index + 1)
  | none => []

/-- The announced chain after an event. -/
def announce (chain : List BlockHeader) : ChainEvent × Answer → List BlockHeader
  | (.rollForward header, answer) => if Answer.isEffective answer then chain ++ [header] else chain
  | (.rollBackward point, .ok ()) => cutAfter point chain
  | (.rollBackward _, .error _) => chain

/-- The blocks of a chain differ from each other and from the block of the point before it. -/
def Apart (start : Point) (chain : List BlockHeader) : Prop :=
  (chain.Pairwise fun a b => a.point.sameBlock b.point = false) ∧
    ∀ h ∈ chain, h.point.sameBlock start = false

instance (start : Point) (chain : List BlockHeader) : Decidable (Apart start chain) :=
  inferInstanceAs (Decidable (_ ∧ _))

/-- The point of the last header; without headers that before the chain. -/
def tip (start : Point) (chain : List BlockHeader) : Point :=
  (chain.getLast?.map (·.point)).getD start

@[simp] theorem tip_append_singleton (start : Point) (chain : List BlockHeader) (h : BlockHeader) :
    tip start (chain ++ [h]) = h.point := by
  simp [tip]

/-! ## Sessions -/

/-- An indexer since its last reset. -/
structure Session (κ : Type) where
  indexer : Indexer
  state : κ
  /-- What the consumer was handed, in order. -/
  handed : List (ConfirmedBlock × List Tx) := []
  /-- The events with their answers, in order. -/
  answers : List (ChainEvent × Answer) := []

namespace Session

/-- What a call is answered, and the session after it, before the answer is noted. -/
def call (t : Session κ) (c : Call κ) : Answer × Session κ :=
  let s : Indexer := { t.indexer with database := c.store t.indexer.database }
  match c.event with
  | .rollForward header =>
    let r := s.rollForward c.source c.consumer.logged header (t.state, t.handed)
    (r.1, { t with indexer := r.2.1, state := r.2.2.1, handed := r.2.2.2 })
  | .rollBackward point =>
    let r := s.rollBackward point
    (r.1, { t with indexer := r.2 })

/-- Makes a call and notes its answer. -/
def step (t : Session κ) (c : Call κ) : Session κ :=
  { (t.call c).2 with answers := t.answers ++ [(c.event, (t.call c).1)] }

/-- Makes calls in order. -/
def after (t : Session κ) (calls : List (Call κ)) : Session κ := calls.foldl step t

/-- The headers of the blocks that the consumer was handed. -/
def confirmed (t : Session κ) : List BlockHeader := t.handed.map (·.1.header)

/-- The headers that wait. -/
def pending (t : Session κ) : List BlockHeader := t.indexer.pending

/-- The chain that the events have announced. -/
def announced (t : Session κ) : List BlockHeader := t.answers.foldl announce []

/-- What a step does to the headers, by event and answer. -/
inductive Moved (t t' : Session κ) : ChainEvent → Answer → Prop
  | waits (header : BlockHeader) (room : t.pending.length < t.indexer.window.capacity)
      (confirmed : t'.confirmed = t.confirmed) (pending : t'.pending = t.pending ++ [header])
      (latest : t'.indexer.latestPoint = t.indexer.latestPoint) :
      Moved t t' (.rollForward header) (.ok ())
  | confirms (header oldest : BlockHeader) (rest : List BlockHeader) (answer : Answer)
      (effective : answer.isEffective = true)
      (full : t.indexer.window.capacity ≤ t.pending.length) (oldest_eq : t.pending = oldest :: rest)
      (confirmed : t'.confirmed = t.confirmed ++ [oldest])
      (pending : t'.pending = rest ++ [header]) (latest : t'.indexer.latestPoint = oldest.point) :
      Moved t t' (.rollForward header) answer
  | fails (header : BlockHeader) (e : IndexerError) (notConsumer : e.kind ≠ .consumer)
      (full : t.indexer.window.capacity ≤ t.pending.length)
      (confirmed : t'.confirmed = t.confirmed) (pending : t'.pending = t.pending)
      (latest : t'.indexer.latestPoint = t.indexer.latestPoint) :
      Moved t t' (.rollForward header) (.error e)
  | inside (point : Point) (kept dropped : List BlockHeader) (header : BlockHeader)
      (pending_eq : t.pending = kept ++ header :: dropped)
      (same : header.point.sameBlock point = true)
      (before : ∀ h ∈ kept, h.point.sameBlock point = false)
      (confirmed : t'.confirmed = t.confirmed) (pending : t'.pending = kept ++ [header])
      (latest : t'.indexer.latestPoint = t.indexer.latestPoint) :
      Moved t t' (.rollBackward point) (.ok ())
  | latest (point : Point) (absent : ∀ h ∈ t.pending, h.point.sameBlock point = false)
      (same : point.sameBlock t.indexer.latestPoint = true)
      (confirmed : t'.confirmed = t.confirmed) (pending : t'.pending = [])
      (latest : t'.indexer.latestPoint = t.indexer.latestPoint) :
      Moved t t' (.rollBackward point) (.ok ())
  | fatal (point : Point) (absent : ∀ h ∈ t.pending, h.point.sameBlock point = false)
      (other : point.sameBlock t.indexer.latestPoint = false)
      (confirmed : t'.confirmed = t.confirmed) (pending : t'.pending = t.pending)
      (latest : t'.indexer.latestPoint = t.indexer.latestPoint) :
      Moved t t' (.rollBackward point) (.error (.fatalRollback point t.indexer.latestPoint))

theorem moved_step (t : Session κ) (c : Call κ) :
    Moved t (t.step c) c.event (t.call c).1 := by
  obtain ⟨⟨source, consumer, store⟩, event⟩ := c
  cases event with
  | rollForward header =>
    have hf := Indexer.rollForward_forwarded
      { t.indexer with database := store t.indexer.database } source consumer.logged header
      (t.state, t.handed)
    simp only [step, call]
    generalize Indexer.rollForward _ _ _ _ _ = r at hf ⊢
    cases hf with
    | waits window room entries capacity =>
      exact .waits header (Nat.lt_of_not_le fun h => by simp [(Indexer.isFull_iff _).2 h] at room)
        rfl entries rfl
    | failed e writer database full notConsumer idle atomic =>
      exact .fails header e notConsumer ((Indexer.isFull_iff _).1 full) rfl rfl rfl
    | confirmed oldest rest txs c t' window full pending fetched confirm entries capacity =>
      obtain ⟨resolved, database, -, rfl, -, rfl⟩ := Indexer.confirm_ok confirm
      refine .confirms header oldest rest _ (isEffective_mapError_consumer _ _)
        ((Indexer.isFull_iff _).1 full) pending ?_ entries rfl
      simp [Session.confirmed, Consumer.logged, Confirmation.ofBlock]
  | rollBackward point =>
    have hr := Indexer.rollBackward_rolled
      { t.indexer with database := store t.indexer.database } point
    simp only [step, call]
    generalize Indexer.rollBackward _ _ = r at hr ⊢
    cases hr with
    | inside kept dropped header window pending same before entries capacity =>
      exact .inside point kept dropped header pending same before rfl entries rfl
    | latest absent same => exact .latest point absent same rfl rfl rfl
    | fatal absent other => exact .fatal point absent other rfl rfl rfl

/-- The latest point stays that of the last confirmed block. -/
theorem latestPoint_step {start : Point} {t : Session κ}
    (h : t.indexer.latestPoint = tip start t.confirmed) (c : Call κ) :
    (t.step c).indexer.latestPoint = tip start (t.step c).confirmed := by
  have hm := moved_step t c
  generalize c.event = event at hm
  generalize (t.call c).1 = answer at hm
  cases hm with
  | confirms header oldest rest _ effective full oldest_eq confirmed pending latest =>
    rw [latest, confirmed, tip_append_singleton]
  | waits _ _ confirmed _ latest | fails _ _ _ _ confirmed _ latest
  | inside _ _ _ _ _ _ _ confirmed _ latest | latest _ _ _ confirmed _ latest
  | fatal _ _ _ confirmed _ latest => rw [latest, confirmed, h]

end Session

end ChainIndex
