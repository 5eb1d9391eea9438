import ChainIndex.Proofs.Indexer.Course

/-!
# Commits on a course

* `Commit`: a confirmation whose batch was committed, with the store that the commit left.
  `Session.commit?` is the one of a turn, if there is one, and `Session.commits` are those of turns in order.
* `Session.turn_of_none`, `Session.turn_of_some`: a turn without a commit leaves the store and the
  consumer, one with a commit leaves what the consumer makes of it.
* `Session.confirmed_turns`: the headers of the commits are those that are confirmed.
* `Session.Holds`: what is said of the contents and of what the consumer was handed, and is kept by every
  confirmation (`ConfirmKeeps`), is kept by every plain turn (`Session.Holds.turn`).
-/

namespace ChainIndex

variable {κ : Type}

/-- What others do to the store before the turn. -/
def Turn.store : Turn κ → Database → Database
  | event c => c.store
  | reset store | restart store => store

/-- A confirmation whose batch was committed, with the store that the commit left. -/
structure Commit where
  confirmation : Confirmation
  store : Database

namespace Indexer

/-- The commit that an announced header brings about: the window is full, the transactions of the oldest
header can be had, and its confirmation succeeds. -/
def commit? (s : Indexer) (source : BlockSource) : Option Commit :=
  if s.window.isFull then
    match s.window.peek? with
    | none => none
    | some oldest =>
      match source oldest with
      | .error _ => none
      | .ok txs =>
        match s.confirm oldest txs with
        | (.ok confirmation, t) => some ⟨confirmation, t.database⟩
        | (.error _, _) => none
  else none

theorem commit?_eq_some {s : Indexer} {source : BlockSource} {commit : Commit} :
    s.commit? source = some commit ↔ ∃ oldest rest txs t, s.window.isFull = true ∧
      s.pending = oldest :: rest ∧ source oldest = .ok txs ∧
      s.confirm oldest txs = (.ok commit.confirmation, t) ∧ t.database = commit.store := by
  constructor
  · intro h
    unfold commit? at h
    split at h
    · rename_i full
      split at h
      · cases h
      · rename_i oldest hpeek
        obtain ⟨rest, pending⟩ : ∃ rest, s.pending = oldest :: rest := List.head?_eq_some_iff.1 hpeek
        split at h
        · cases h
        · rename_i txs fetched
          split at h
          · rename_i c t confirm
            cases h
            exact ⟨oldest, rest, txs, t, full, pending, fetched, confirm, rfl⟩
          · cases h
    · cases h
  · rintro ⟨oldest, rest, txs, t, full, pending, fetched, confirm, store⟩
    have hpeek : s.window.peek? = some oldest := List.head?_eq_some_iff.2 ⟨rest, pending⟩
    rw [commit?, if_pos full]
    simp only [hpeek, fetched, confirm, store]

/-- Without a commit an announced header leaves the consumer, and the store as far as commits are
atomic. -/
theorem rollForward_of_none {s : Indexer} {source : BlockSource} (h : s.commit? source = none)
    (consumer : Consumer κ) (header : BlockHeader) (k : κ) :
    (s.rollForward source consumer header k).2.2 = k ∧
      (s.database.engine.CommitsAtomically →
        (s.rollForward source consumer header k).2.1.database = s.database) := by
  have hf := s.rollForward_forwarded source consumer header k
  generalize s.rollForward source consumer header k = r at hf ⊢
  cases hf with
  | waits => exact ⟨rfl, fun _ => rfl⟩
  | failed e writer database full notConsumer idle atomic => exact ⟨rfl, atomic⟩
  | confirmed oldest rest txs c t window full pending fetched confirm =>
    have committed : s.commit? source = some ⟨c, t.database⟩ :=
      commit?_eq_some.2 ⟨oldest, rest, txs, t, full, pending, fetched, confirm, rfl⟩
    rw [h] at committed
    cases committed

/-- With a commit the consumer is told of it, on the store that the commit left. -/
theorem rollForward_of_some {s : Indexer} {source : BlockSource} {commit : Commit}
    (h : s.commit? source = some commit) (consumer : Consumer κ) (header : BlockHeader) (k : κ) :
    let told := consumer commit.confirmation.block commit.confirmation.txs k commit.store
    (s.rollForward source consumer header k).2.2 = told.2.1 ∧
      (s.rollForward source consumer header k).2.1.database = told.2.2 := by
  obtain ⟨oldest, rest, txs, t, full, pending, fetched, confirm, store⟩ := commit?_eq_some.1 h
  have hpeek : s.window.peek? = some oldest := List.head?_eq_some_iff.2 ⟨rest, pending⟩
  obtain ⟨window, hpush, -, -⟩ := push_confirmed header pending confirm
  rw [rollForward, if_neg (by simp [full])]
  simp only [hpeek, fetched, confirm]
  rw [hpush, ← store]
  simp only
  split <;> exact ⟨rfl, rfl⟩

end Indexer

namespace Session

variable {config : IndexerConfig} {t : Session κ} {turn : Turn κ} {commit : Commit}

/-- The commit of a turn, if it makes one. -/
def commit? (t : Session κ) : Turn κ → Option Commit
  | .event ⟨⟨source, _, store⟩, .rollForward _⟩ =>
    Indexer.commit? { t.indexer with database := store t.indexer.database } source
  | _ => none

/-- The commits of turns, in order. -/
def commits (t : Session κ) : List (Turn κ) → List Commit
  | [] => []
  | turn :: turns => (t.commit? turn).toList ++ (t.turn turn).commits turns

/-- A commit is the confirmation of the oldest header that waits, over the store that the turn finds. -/
theorem of_commit? (h : t.commit? turn = some commit) :
    ∃ (c : Call κ) (oldest : BlockHeader) (rest : List BlockHeader) (txs : List Tx) (s : Indexer),
      turn = .event c ∧ t.pending = oldest :: rest ∧ c.source oldest = .ok txs ∧
      Indexer.confirm { t.indexer with database := turn.store t.indexer.database } oldest txs =
        (.ok commit.confirmation, s) ∧ s.database = commit.store := by
  cases turn with
  | event c =>
    obtain ⟨⟨source, consumer, store⟩, event⟩ := c
    cases event with
    | rollForward header =>
      obtain ⟨oldest, rest, txs, s, -, pending, fetched, confirm, database⟩ :=
        Indexer.commit?_eq_some.1 h
      exact ⟨_, oldest, rest, txs, s, rfl, pending, fetched, confirm, database⟩
    | rollBackward point => cases h
  | reset store => cases h
  | restart store => cases h

/-- A reset leaves the store. -/
theorem turn_reset_database (t : Session κ) (store : Database → Database) :
    (t.turn (.reset store)).indexer.database = store t.indexer.database := by
  simp only [Session.turn]
  obtain ⟨e, -, hr⟩ | ⟨stored, point, -, -, hr⟩ :=
    Indexer.reset_cases { t.indexer with database := store t.indexer.database } <;> rw [hr]

/-- A restart puts a new indexer in its place, over the same store. -/
theorem turn_restart_eq (ready : t.indexer.Ready config) (store : Database → Database) :
    t.turn (.restart store) =
      { t with
        indexer :=
          { config
            database := store t.indexer.database
            window := .empty config.confirmationDepth.toNat } } := by
  simp only [Session.turn, Indexer.new, ready.config_eq, ready.faultless]

/-- A turn without a commit leaves the consumer, and the store as the turn found it. -/
theorem turn_of_none (ready : t.indexer.Ready config) (h : t.commit? turn = none) :
    (t.turn turn).state = t.state ∧ (t.turn turn).handed = t.handed ∧
      ((turn.store t.indexer.database).engine.ReachesDisk →
        (t.turn turn).indexer.database = turn.store t.indexer.database) := by
  cases turn with
  | event c =>
    obtain ⟨⟨source, consumer, store⟩, event⟩ := c
    cases event with
    | rollForward header =>
      obtain ⟨told, kept⟩ :=
        Indexer.rollForward_of_none h consumer.logged header (t.state, t.handed)
      exact ⟨congrArg Prod.fst told, congrArg Prod.snd told,
        fun disk => kept disk.commitsAtomically⟩
    | rollBackward point => exact ⟨rfl, rfl, fun _ => Indexer.rollBackward_database _ point⟩
  | reset store => exact ⟨rfl, rfl, fun _ => turn_reset_database t store⟩
  | restart store =>
    rw [turn_restart_eq ready]
    exact ⟨rfl, rfl, fun _ => rfl⟩

/-- A turn with a commit leaves what the consumer makes of it when it is told. -/
theorem turn_of_some (h : t.commit? turn = some commit) : ∃ c, turn = .event c ∧
    let told := c.consumer commit.confirmation.block commit.confirmation.txs t.state commit.store
    (t.turn turn).state = told.2.1 ∧
      (t.turn turn).handed = t.handed ++ [(commit.confirmation.block, commit.confirmation.txs)] ∧
      (t.turn turn).indexer.database = told.2.2 := by
  cases turn with
  | event c =>
    obtain ⟨⟨source, consumer, store⟩, event⟩ := c
    cases event with
    | rollForward header =>
      obtain ⟨told, database⟩ :=
        Indexer.rollForward_of_some h consumer.logged header (t.state, t.handed)
      exact ⟨_, rfl, congrArg Prod.fst told, congrArg Prod.snd told, database⟩
    | rollBackward point => cases h
  | reset store => cases h
  | restart store => cases h

/-- A commit carries out the batch of the oldest header that waits. -/
theorem commit?_executes (ready : t.indexer.Ready config) (h : t.commit? turn = some commit) :
    (∃ rest, t.pending = commit.confirmation.block.header :: rest) ∧
      ((commit.confirmation.ops config.softDelete).foldl BatchWriter.push .empty).execute
        (turn.store t.indexer.database) = (.ok (), .empty, commit.store) := by
  obtain ⟨c, oldest, rest, txs, s, -, pending, -, confirm, database⟩ := of_commit? h
  refine ⟨⟨rest, by rw [Indexer.confirm_block confirm, pending]⟩, ?_⟩
  obtain ⟨resolved, after, -, -, hexecute, rfl⟩ := Indexer.confirm_ok confirm
  rwa [ready.config_eq, ready.writer_eq, show after = commit.store from database] at hexecute

/-- The headers of the commits are those that are confirmed. -/
theorem confirmed_turns (ready : t.indexer.Ready config) (turns : List (Turn κ)) :
    (t.turns turns).confirmed =
      t.confirmed ++ (t.commits turns).map (·.confirmation.block.header) := by
  induction turns generalizing t with
  | nil => exact (List.append_nil _).symm
  | cons turn turns ih =>
    have later := ih (ready_turn ready turn)
    refine later.trans ?_
    rw [commits, List.map_append, ← List.append_assoc]
    congr 1
    cases h : t.commit? turn with
    | none =>
      rw [confirmed, (turn_of_none ready h).2.1]
      exact (List.append_nil _).symm
    | some commit =>
      obtain ⟨c, -, -, handed, -⟩ := turn_of_some h
      rw [confirmed, handed, List.map_append]
      rfl

end Session

/-! ## What a course keeps -/

/-- A confirmation of the transactions of a header keeps what is said of the contents of the store and of
what the consumer was handed. -/
def ConfirmKeeps (config : IndexerConfig) (txsOf : BlockHeader → List Tx)
    (P : Contents → List (ConfirmedBlock × List Tx) → Prop) : Prop :=
  ∀ (s t : Indexer) (header : BlockHeader) (c : Confirmation) (handed), s.Ready config →
    s.confirm header (txsOf header) = (.ok c, t) → P s.database.contents handed →
    P t.database.contents (handed ++ [(c.block, c.txs)])

theorem Turn.Plain.keeps {txsOf : BlockHeader → List Tx} {turn : Turn κ} (h : turn.Plain txsOf) :
    KeepsContents turn.store := by
  cases turn with
  | event c => exact h.2.2
  | reset store | restart store => exact h

namespace Session

variable {config : IndexerConfig} {txsOf : BlockHeader → List Tx}
  {P : Contents → List (ConfirmedBlock × List Tx) → Prop} {t : Session κ}

/-- A session between two turns, with what is said of the contents and of what the consumer was handed. -/
structure Holds (config : IndexerConfig) (P : Contents → List (ConfirmedBlock × List Tx) → Prop)
    (t : Session κ) : Prop where
  ready : t.indexer.Ready config
  disk : t.indexer.database.engine.ReachesDisk
  holds : P t.contents t.handed

namespace Holds

theorem new {db : Database} {s : Indexer} (h : Indexer.new config db = .ok s)
    (disk : db.engine.ReachesDisk) (start : P db.contents []) (k : κ) :
    Holds config P (since s k) := by
  have ready := Indexer.Ready.new h
  obtain rfl := Indexer.new_ok h
  exact ⟨ready, disk, start⟩

theorem turn (h : Holds config P t) (kept : ConfirmKeeps config txsOf P) {turn : Turn κ}
    (plain : turn.Plain txsOf) : Holds config P (t.turn turn) := by
  obtain ⟨same, disk⟩ := plain.keeps t.indexer.database
  have ready := ready_turn h.ready turn
  have reaches := disk h.disk
  have found : P (turn.store t.indexer.database).contents t.handed := same ▸ h.holds
  cases hc : t.commit? turn with
  | none =>
    obtain ⟨-, handed, database⟩ := turn_of_none h.ready hc
    have left := database reaches
    exact ⟨ready, left ▸ reaches, by rwa [contents, left, handed]⟩
  | some commit =>
    obtain ⟨c, oldest, rest, txs, s, rfl, -, fetched, confirm, store⟩ := of_commit? hc
    obtain ⟨_, hc', -, handed, database⟩ := turn_of_some hc
    cases hc'
    rw [plain.2.1] at database
    obtain rfl : txs = txsOf oldest := plain.1 oldest txs fetched
    have after := kept _ _ _ _ _ (h.ready.store _) confirm found
    refine ⟨ready, ?_, ?_⟩
    · rw [database, ← store, Indexer.confirm_database confirm]
      exact reaches
    · rw [contents, database, handed, ← store]
      exact after

theorem turns (h : Holds config P t) (kept : ConfirmKeeps config txsOf P) (turns : List (Turn κ))
    (plain : ∀ turn ∈ turns, turn.Plain txsOf) : Holds config P (t.turns turns) := by
  induction turns generalizing t with
  | nil => exact h
  | cons turn turns ih =>
    obtain ⟨here, others⟩ := List.forall_mem_cons.1 plain
    exact ih (h.turn kept here) others

end Holds

end Session

end ChainIndex
