import ChainIndex.Fixture.Basic
import ChainIndex.Proofs.Cbor.Chain
import ChainIndex.Proofs.Indexer.Writes

/-!
# An indexer that is replaced goes on where the other one was

* `Session.announceAll`: headers are announced one after the other, with the same source and consumer.
* `Indexer.Stuck`: no header can be announced, because the oldest one that waits cannot be confirmed.
* `Session.Resumable`: the confirmed headers, those that wait, and those that came when the indexer was stuck
  are the announced ones, and a reset finds the latest point. Every announcement keeps it.
* `Session.Resumable.resume`: so a new indexer over the same store, to which the headers behind the returned
  point are announced, comes to the same state.
* `history_independent`: what a store holds is determined by the headers whose blocks were written, through any
  resets and restarts. `unsynced_history_differs`: the confirmed headers alone do not determine it.
-/

namespace ChainIndex

variable {κ κ' : Type}

theorem Window.ext {α : Type} {w w' : Window α} (entries : w.entries = w'.entries)
    (capacity : w.capacity = w'.capacity) : w = w' := by
  cases w; cases w'
  cases entries; cases capacity
  rfl

namespace Indexer

/-! ## Announcements that fail -/

/-- Why an announcement fails before the consumer has nothing to do with the header. -/
theorem rollForward_failed {s : Indexer} {source : BlockSource} {consumer : Consumer κ}
    {header : BlockHeader} {k : κ} {e : IndexerError}
    (failed : (s.rollForward source consumer header k).1 = .error e) (kind : e.kind ≠ .consumer)
    (consumer' : Consumer κ') (header' : BlockHeader) (k' : κ') :
    s.rollForward source consumer' header' k' =
      (.error e, (s.rollForward source consumer header k).2.1, k') := by
  unfold rollForward at failed ⊢
  split
  · rename_i room
    obtain ⟨window, hpush, -, -⟩ := push_of_room header (by simpa using room)
    rw [if_pos room, hpush] at failed
    cases failed
  · rename_i full
    rw [if_neg full] at failed
    split at failed
    · cases failed; rfl
    · rename_i oldest hpeek
      obtain ⟨rest, pending⟩ : ∃ rest, s.pending = oldest :: rest := List.head?_eq_some_iff.1 hpeek
      split at failed
      · cases failed; rfl
      · split at failed
        · cases failed; rfl
        · rename_i confirm
          -- The window has room now, so that only the consumer can fail.
          obtain ⟨window, hpush, -, -⟩ := push_confirmed header pending confirm
          rw [hpush] at failed
          simp only at failed
          split at failed <;> cases failed
          exact absurd rfl kind

/-- What a consumer leaves that only reads does not depend on its state. -/
theorem rollForward_readsOnly {consumer : Consumer κ} (readsOnly : consumer.ReadsOnly) (s : Indexer)
    (source : BlockSource) (header : BlockHeader) (k k' : κ) :
    (s.rollForward source consumer header k).2.1 =
      (s.rollForward source consumer header k').2.1 := by
  unfold rollForward
  split
  · rfl
  · split
    · rfl
    · split
      · rfl
      · split
        · rfl
        · split
          · rfl
          · simp only [readsOnly _ _ _ _]
            split <;> split <;> rfl

/-- No header can be announced: each fails before the consumer, and leaves everything. -/
def Stuck (source : BlockSource) (s : Indexer) : Prop :=
  ∃ e, e.kind ≠ .consumer ∧ ∀ (κ : Type) (consumer : Consumer κ) (header : BlockHeader) (k : κ),
    s.rollForward source consumer header k = (.error e, s, k)

/-- An indexer is stuck as soon as one announcement fails before the consumer. -/
theorem stuck_of_failed {config : IndexerConfig} {s : Indexer} {source : BlockSource}
    {consumer : Consumer κ} {header : BlockHeader} {k : κ} {e : IndexerError}
    (ready : s.Ready config) (disk : s.database.engine.ReachesDisk)
    (failed : (s.rollForward source consumer header k).1 = .error e) (kind : e.kind ≠ .consumer) :
    s.Stuck source := by
  have same : (s.rollForward source consumer header k).2.1 = s := by
    have hf := s.rollForward_forwarded source consumer header k
    generalize s.rollForward source consumer header k = r at hf failed
    cases hf with
    | waits => cases failed
    | failed e' writer database full notConsumer idle atomic =>
      obtain rfl : writer = s.writer := idle.elim id (·.trans ready.writer_eq.symm)
      obtain rfl := atomic disk.commitsAtomically
      rfl
    | confirmed oldest rest txs c t window full pending fetched confirm entries capacity =>
      have effective := isEffective_mapError_consumer c.block.point
        (consumer c.block c.txs k t.database).1
      simp only at failed
      rw [failed] at effective
      simp [Answer.isEffective, kind] at effective
  refine ⟨e, kind, fun κ' consumer' header' k' => ?_⟩
  rw [rollForward_failed failed kind consumer' header' k', same]

/-- After a confirmation the point of the block can be had, if a point could be had before. -/
theorem confirm_latestPoint {s t : Indexer} {header : BlockHeader} {txs : List Tx}
    {c : Confirmation} {config : IndexerConfig} (ready : s.Ready config)
    (confirm : s.confirm header txs = (.ok c, t)) {stored : Option Point}
    (h : s.database.latestPoint? = .ok stored) :
    t.database.latestPoint? = .ok (some header.point) := by
  rw [confirm_database confirm]
  have written := (confirm_written ready confirm).latestPoint
  have hlookup : t.database.contents.lookup .latestPoint Key.latestPoint =
      some (Cbor.Record.encode header.point) := by
    rw [Contents.lookup, written, KeyMap.get?_insert, if_pos rfl, ← confirm_block confirm]
    rfl
  unfold Database.latestPoint? Database.view at h ⊢
  split at h
  · cases h
  · rename_i usable
    rw [if_neg usable]
    obtain ⟨value?, hget, -⟩ := View.bind_eq_ok.1 h
    refine View.bind_eq_ok.2 ⟨_, View.get_of_contents hget t.database.contents, ?_⟩
    rw [hlookup]
    refine View.bind_eq_ok.2 ⟨header.point, ?_, rfl⟩
    rw [View.record, readRecord, Point.decode_encode]

end Indexer

theorem Consumer.ReadsOnly.logged {consumer : Consumer κ} (h : consumer.ReadsOnly) :
    consumer.logged.ReadsOnly := fun block txs k db => h block txs k.1 db

namespace Session

/-! ## Headers announced one after the other -/

/-- Announces headers in order, with the same source and consumer and a store that nobody else uses. -/
def announceAll (source : BlockSource) (consumer : Consumer κ) (t : Session κ)
    (headers : List BlockHeader) : Session κ :=
  t.after (headers.map fun header => ⟨⟨source, consumer, id⟩, .rollForward header⟩)

variable {source : BlockSource} {consumer : Consumer κ} {t u : Session κ}

theorem announceAll_append (front rest : List BlockHeader) :
    t.announceAll source consumer (front ++ rest) =
      (t.announceAll source consumer front).announceAll source consumer rest := by
  simp only [announceAll, List.map_append, after_append]

/-- What becomes of the indexer depends on it alone. -/
theorem announceAll_indexer_congr (readsOnly : consumer.ReadsOnly) (same : t.indexer = u.indexer)
    (headers : List BlockHeader) : (t.announceAll source consumer headers).indexer =
      (u.announceAll source consumer headers).indexer := by
  induction headers generalizing t u with
  | nil => exact same
  | cons header headers ih =>
    have step : (t.announceAll source consumer [header]).indexer =
        (u.announceAll source consumer [header]).indexer := by
      change (t.indexer.rollForward source consumer.logged header (t.state, t.handed)).2.1 = _
      rw [same]
      exact Indexer.rollForward_readsOnly readsOnly.logged u.indexer source header _ _
    exact ih step

/-- Headers for which there is room wait. -/
theorem announceAll_of_room (source : BlockSource) (consumer : Consumer κ)
    {headers : List BlockHeader}
    (room : t.pending.length + headers.length ≤ t.indexer.window.capacity) :
    ∃ window : Window BlockHeader, window.entries = t.pending ++ headers ∧
      window.capacity = t.indexer.window.capacity ∧
      (t.announceAll source consumer headers).indexer = { t.indexer with window } := by
  induction headers generalizing t with
  | nil => exact ⟨t.indexer.window, (List.append_nil _).symm, rfl, rfl⟩
  | cons header headers ih =>
    have hf := Indexer.rollForward_forwarded t.indexer source consumer.logged header
      (t.state, t.handed)
    have hs : (t.announceAll source consumer [header]).indexer =
      (t.indexer.rollForward source consumer.logged header (t.state, t.handed)).2.1 := rfl
    have hlt : t.pending.length < t.indexer.window.capacity := by
      rw [List.length_cons] at room
      omega
    generalize Indexer.rollForward _ _ _ _ _ = r at hf hs
    cases hf with
    | failed e writer database full | confirmed oldest rest txs c s window full =>
      exact absurd ((Indexer.isFull_iff _).1 full) (Nat.not_le.2 hlt)
    | waits window _ entries capacity =>
      have pending : (t.announceAll source consumer [header]).pending = t.pending ++ [header] := by
        rw [Session.pending, hs]
        exact entries
      have room' : (t.announceAll source consumer [header]).pending.length + headers.length ≤
          (t.announceAll source consumer [header]).indexer.window.capacity := by
        rw [pending, hs, List.length_append, List.length_singleton, capacity]
        rw [List.length_cons] at room
        omega
      obtain ⟨window', entries', capacity', indexer'⟩ := ih room'
      refine ⟨window', ?_, ?_, ?_⟩
      · rw [entries', pending, List.append_assoc, List.singleton_append]
      · rw [capacity', hs]
        exact capacity
      · refine Eq.trans ?_ (indexer'.trans ?_)
        · rfl
        · rw [hs]

/-- A stuck indexer stays as it is. -/
theorem announceAll_of_stuck (stuck : t.indexer.Stuck source) (headers : List BlockHeader) :
    (t.announceAll source consumer headers).indexer = t.indexer := by
  induction headers generalizing t with
  | nil => rfl
  | cons header headers ih =>
    obtain ⟨e, -, fails⟩ := id stuck
    have hs : (t.announceAll source consumer [header]).indexer = t.indexer :=
      congrArg (·.2.1) (fails _ consumer.logged header (t.state, t.handed))
    exact (ih (t := t.announceAll source consumer [header]) (hs ▸ stuck)).trans hs

/-! ## Where a new indexer goes on -/

/-- The announced headers are those confirmed, those that wait, and those that came when the indexer was
stuck; and a reset finds the latest point. -/
structure Resumable (config : IndexerConfig) (source : BlockSource) (start : Point)
    (headers : List BlockHeader) (t : Session κ) : Prop where
  ready : t.indexer.Ready config
  disk : t.indexer.database.engine.ReachesDisk
  found : ∃ stored, t.indexer.database.latestPoint? = .ok stored ∧
    stored.getD (config.startingPoint.getD .origin) = t.indexer.latestPoint
  latest_eq : t.indexer.latestPoint = tip start t.confirmed
  headers_eq : ∃ refused, headers = t.confirmed ++ (t.pending ++ refused) ∧
    (refused = [] ∨ t.indexer.Stuck source)

namespace Resumable

variable {config : IndexerConfig} {start : Point} {front : List BlockHeader}

theorem since {s₀ s : Indexer} (ready : s₀.Ready config) (disk : s₀.database.engine.ReachesDisk)
    (reset : s₀.reset = (.ok start, s)) (k : κ) :
    Resumable config source start [] (Session.since s k) := by
  have ready' := ready.reset
  obtain ⟨e, -, hr⟩ | ⟨stored, point, hstored, rfl, hr⟩ := s₀.reset_cases
  · rw [hr] at reset; cases reset
  · rw [hr] at reset ready'; cases reset
    exact ⟨ready', disk, ⟨stored, hstored, by rw [← ready.config_eq]; rfl⟩, rfl, [], rfl, .inl rfl⟩

/-- An announcement that is refused leaves the indexer stuck. -/
theorem refused (h : Resumable config source start front t) (stuck : t.indexer.Stuck source)
    (indexer : u.indexer = t.indexer) (handed : u.handed = t.handed) (header : BlockHeader) :
    Resumable config source start (front ++ [header]) u := by
  obtain ⟨refused, rfl, -⟩ := h.headers_eq
  have confirmed : u.confirmed = t.confirmed := by
    rw [Session.confirmed, handed]
    rfl
  have pending : u.pending = t.pending := congrArg Indexer.pending indexer
  rw [← indexer] at stuck
  refine ⟨indexer ▸ h.ready, indexer ▸ h.disk, indexer ▸ h.found, ?_, refused ++ [header], ?_,
    .inr stuck⟩
  · rw [indexer, confirmed, h.latest_eq]
  · rw [confirmed, pending]
    simp only [List.append_assoc]

theorem announce (h : Resumable config source start front t) (readsOnly : consumer.ReadsOnly)
    (header : BlockHeader) :
    Resumable config source start (front ++ [header]) (t.announceAll source consumer [header]) := by
  change Resumable _ _ _ _ (t.step ⟨⟨source, consumer, id⟩, .rollForward header⟩)
  have latest := latestPoint_step h.latest_eq ⟨⟨source, consumer, id⟩, .rollForward header⟩
  have ready := ready_step h.ready ⟨⟨source, consumer, id⟩, .rollForward header⟩
  by_cases stuck : t.indexer.Stuck source
  · obtain ⟨e, -, fails⟩ := id stuck
    have hcall := fails _ consumer.logged header (t.state, t.handed)
    exact h.refused stuck (congrArg (·.2.1) hcall) (congrArg (·.2.2.2) hcall) header
  · obtain ⟨refused, rfl, blocked⟩ := h.headers_eq
    obtain rfl := blocked.resolve_right stuck
    have effective : ∀ e, (t.indexer.rollForward source consumer.logged header
        (t.state, t.handed)).1 = .error e → e.kind = .consumer := fun e failed =>
      Classical.byContradiction fun kind =>
        stuck (Indexer.stuck_of_failed h.ready h.disk failed kind)
    have hf := Indexer.rollForward_forwarded t.indexer source consumer.logged header
      (t.state, t.handed)
    simp only [step, call, id] at latest ready ⊢
    generalize Indexer.rollForward _ _ _ _ _ = r at hf effective latest ready ⊢
    cases hf with
    | waits window room entries capacity =>
      refine ⟨ready, h.disk, h.found, latest, [], ?_, .inl rfl⟩
      simp [confirmed, Session.pending, Indexer.pending, entries]
    | failed e writer database full notConsumer => exact absurd (effective e rfl) notConsumer
    | confirmed oldest rest txs c s window full pending fetched confirm entries capacity =>
      obtain ⟨stored, hstored, -⟩ := h.found
      have hlatest := Indexer.confirm_latestPoint h.ready confirm hstored
      have disk : s.database.engine.ReachesDisk := by
        rw [Indexer.confirm_database confirm]
        exact h.disk
      have unchanged : (consumer.logged c.block c.txs (t.state, t.handed) s.database).2.2 =
          s.database := readsOnly.logged c.block c.txs (t.state, t.handed) s.database
      obtain ⟨resolved, database, -, rfl, -, rfl⟩ := Indexer.confirm_ok confirm
      refine ⟨ready, ?_, ⟨some oldest.point, ?_, rfl⟩, latest, [], ?_, .inl rfl⟩
      · simp only [unchanged]
        exact disk
      · simp only [unchanged]
        exact hlatest
      · change t.pending = oldest :: rest at pending
        rw [pending]
        simp [confirmed, Session.pending, Indexer.pending, entries, Consumer.logged,
          Confirmation.ofBlock]

theorem announceAll (h : Resumable config source start front t) (readsOnly : consumer.ReadsOnly)
    (headers : List BlockHeader) :
    Resumable config source start (front ++ headers) (t.announceAll source consumer headers) := by
  induction headers generalizing t front with
  | nil => rwa [List.append_nil]
  | cons header headers ih =>
    rw [List.append_cons]
    exact ih (h.announce readsOnly header)

/-- A new indexer over the same store returns the point of the last confirmed block. -/
theorem reset_new (h : Resumable config source start front t) :
    ∃ fresh, Indexer.new config t.indexer.database = .ok fresh ∧
      fresh.reset =
        (.ok (tip start t.confirmed), { t.indexer with window := t.indexer.window.clear }) := by
  obtain ⟨stored, hstored, hpoint⟩ := h.found
  refine ⟨{ config, database := t.indexer.database,
            window := .empty config.confirmationDepth.toNat }, ?_, ?_⟩
  · unfold Indexer.new
    rw [h.ready.faultless]
  · have hreset : t.indexer.reset = (.ok t.indexer.latestPoint,
        { t.indexer with window := t.indexer.window.clear }) := by
      rw [Indexer.reset, hstored]
      simp only [h.ready.config_eq, hpoint]
    rw [← h.latest_eq, ← hreset, Indexer.reset, Indexer.reset]
    simp only [hstored, h.ready.config_eq, h.ready.writer_eq, Window.clear, h.ready.capacity_eq]
    rfl

/-- Announcing to it what comes behind that point leads to where the old indexer gets. -/
theorem resume (h : Resumable config source start front t) (readsOnly : consumer.ReadsOnly)
    (tail : List BlockHeader) : ∃ rest, front ++ tail = t.confirmed ++ rest ∧ ∀ k : κ,
      ((Session.since { t.indexer with window := t.indexer.window.clear } k).announceAll source
        consumer rest).indexer = (t.announceAll source consumer tail).indexer := by
  obtain ⟨refused, rfl, blocked⟩ := h.headers_eq
  refine ⟨t.pending ++ (refused ++ tail), by simp, fun k => ?_⟩
  rw [announceAll_append, announceAll_append]
  refine announceAll_indexer_congr readsOnly ?_ tail
  -- What waited has room again; what was refused is refused again.
  generalize hv : Session.since { t.indexer with window := t.indexer.window.clear } k = v
  have room : v.pending.length + t.pending.length ≤ v.indexer.window.capacity := by
    subst hv
    simpa [Session.since, Session.pending, Indexer.pending, Window.clear, Window.empty] using
      t.indexer.window.length_le
  obtain ⟨window, entries, capacity, waits⟩ := announceAll_of_room source consumer room
  have hw : window = t.indexer.window := by
    subst hv
    exact Window.ext entries capacity
  have refill : (v.announceAll source consumer t.pending).indexer = t.indexer := by
    rw [waits, hw, ← hv]
    rfl
  obtain rfl | stuck := blocked
  · exact refill
  · exact (announceAll_of_stuck (refill.symm ▸ stuck) refused).trans refill

end Resumable

/-- On a chain of different blocks, what comes behind the point of the last confirmed one. -/
theorem drop_cutAfter_tip {start : Point} {front rest : List BlockHeader}
    (apart : Apart start (front ++ rest)) :
    (front ++ rest).drop (cutAfter (tip start front) (front ++ rest)).length = rest := by
  rcases List.eq_nil_or_concat front with rfl | ⟨before, last, rfl⟩
  · have hcut : cutAfter (tip start []) ([] ++ rest) = [] := cutAfter_of_absent apart.2
    rw [hcut]
    rfl
  · rw [List.concat_eq_append] at apart ⊢
    have same : last.point.sameBlock last.point = true := Point.sameBlock_iff.2 ⟨rfl, rfl⟩
    rw [tip_append_singleton, List.append_assoc, List.singleton_append] at *
    rw [cutAfter_append_cons (apart.before same) same]
    simp

end Session

/-! ## What a store holds -/

namespace Session

variable {config : IndexerConfig} {txsOf : BlockHeader → List Tx} {t : Session κ} {turn : Turn κ}

/-- What is written is what a confirmation leaves that meets no faults. -/
theorem written?_confirmed (ready : t.indexer.Ready config) (agrees : turn.Agrees txsOf) {commit : Commit}
    (h : t.written? turn = some commit) :
    (turn.store t.indexer.database).contents.confirmed config txsOf commit.confirmation.block.header =
      some commit.store.contents := by
  obtain ⟨c, oldest, rest, txs, s, rfl, -, fetched, confirm, store⟩ := of_written? h
  obtain rfl : txs = txsOf oldest := agrees oldest txs fetched
  rw [Indexer.confirm_block confirm, store, Database.contents_withContents]
  exact Indexer.confirm_contents (ready.store (Turn.store (.event c) t.indexer.database).synced) confirm

/-- If nobody else writes to the store, it holds what the written blocks leave, one after the other. -/
theorem confirmedAll_written (ready : t.indexer.Ready config) {turns : List (Turn κ)}
    (alone : ∀ turn ∈ turns, turn.Alone txsOf) :
    t.contents.confirmedAll config txsOf ((t.written turns).map (·.confirmation.block.header)) =
      some (t.turns turns).contents := by
  refine quiet_turns ready (fun turn mem => (alone turn mem).2) (P := fun written c =>
    t.contents.confirmedAll config txsOf (written.map (·.confirmation.block.header)) = some c) rfl
    fun u turn commit before ready mem hw sofar => ?_
  have here := written?_confirmed ready (alone turn mem).1 hw
  rw [(alone turn mem).2.store] at here
  rw [List.map_append, List.map_singleton]
  exact Contents.confirmedAll_append_singleton sofar here

end Session

/-- Take two stores with the same contents, and two courses of new indexers with the same configuration over
them, through events, failing calls, resets and restarts. Nobody else writes to the stores, and the
transactions of a block are those of its header.

All through a course the store holds what the written blocks leave, one after the other, and nothing else. So
if the same headers were written, the stores hold the same. The confirmed headers are among them, and nothing
that is confirmed is taken back. If no commit waits for the disk in vain, nothing else is written, and the
stores hold the same if the same headers were confirmed.

After a course and a reset let headers be announced, over a store whose commits reach the disk, with any
source that may fail, and stop anywhere. A new indexer over the store returns the point of the last confirmed
header, or that of the reset if there is none; when what comes behind is announced to it, it gets to the state
that the other indexer would have got to. -/
theorem history_independent {config : IndexerConfig} {txsOf : BlockHeader → List Tx}
    {db db' : Database} {s s' : Indexer} (same : db.contents = db'.contents)
    (new : Indexer.new config db = .ok s) (new' : Indexer.new config db' = .ok s') (k : κ) (k' : κ')
    (turns : List (Turn κ)) (turns' : List (Turn κ'))
    (alone : ∀ turn ∈ turns, turn.Alone txsOf) (alone' : ∀ turn ∈ turns', turn.Alone txsOf) :
    let start := Session.since s k
    let start' := Session.since s' k'
    let t := start.turns turns
    let t' := start'.turns turns'
    let header (c : Commit) := c.confirmation.block.header
    ((start.written turns).map header = (start'.written turns').map header → t.contents = t'.contents) ∧
    (start.ReachesDisk turns → start'.ReachesDisk turns' →
      t.confirmed = t'.confirmed → t.contents = t'.contents) ∧
    (∀ front, front <+: turns →
      let u := start.turns front
      let written := (start.written front).map header
      db.contents.confirmedAll config txsOf written = some u.contents ∧
        written <+: (start.written turns).map header ∧ u.confirmed.Sublist written ∧
        (start.ReachesDisk front → written = u.confirmed) ∧ u.confirmed <+: t.confirmed) ∧
    (t.indexer.database.engine.ReachesDisk →
      ∀ (point : Point) (s₀ : Indexer), t.indexer.reset = (.ok point, s₀) →
      ∀ (source : BlockSource) (consumer : Consumer κ), consumer.ReadsOnly →
      ∀ (k₀ : κ) (front headers : List BlockHeader), front <+: headers →
        let whole := (Session.since s₀ k₀).announceAll source consumer headers
        let stopped := (Session.since s₀ k₀).announceAll source consumer front
        ∃ rest fresh s₁, headers = stopped.confirmed ++ rest ∧
          (Apart point headers →
            rest = headers.drop (cutAfter (tip point stopped.confirmed) headers).length) ∧
          Indexer.new config stopped.indexer.database = .ok fresh ∧
          fresh.reset = (.ok (tip point stopped.confirmed), s₁) ∧
          ∀ k₁, ((Session.since s₁ k₁).announceAll source consumer rest).indexer =
            whole.indexer) := by
  intro start start' t t' header
  have ready : start.indexer.Ready config := .new new
  have ready' : start'.indexer.Ready config := .new new'
  have initial : start.contents = db.contents := by obtain rfl := Indexer.new_ok new; rfl
  have initial' : start'.contents = db'.contents := by obtain rfl := Indexer.new_ok new'; rfl
  have holds : ∀ front, front <+: turns →
      db.contents.confirmedAll config txsOf ((start.written front).map header) =
        some (start.turns front).contents := fun front hf => by
    rw [← initial]
    exact Session.confirmedAll_written ready fun turn mem => alone turn (hf.subset mem)
  have holds' : db'.contents.confirmedAll config txsOf ((start'.written turns').map header) =
      some t'.contents := by
    rw [← initial']
    exact Session.confirmedAll_written ready' alone'
  have determined : (start.written turns).map header = (start'.written turns').map header →
      t.contents = t'.contents := by
    intro written
    have here := holds turns List.prefix_rfl
    rw [written, same, holds'] at here
    exact (Option.some.inj here).symm
  refine ⟨determined, fun disk disk' confirmed => determined ?_, fun front hf => ?_, ?_⟩
  · exact (disk.confirmed_eq ready rfl).trans (confirmed.trans (disk'.confirmed_eq ready' rfl).symm)
  · refine ⟨holds front hf, ?_, ?_, fun disk => disk.confirmed_eq ready rfl, ?_⟩
    · obtain ⟨rest, rfl⟩ := hf
      rw [Session.written_append, List.map_append]
      exact List.prefix_append ..
    · rw [Session.confirmed_turns ready]
      exact (Session.commits_sublist_written ready front).map _
    · obtain ⟨rest, rfl⟩ := hf
      simp only [t, Session.turns_append]
      exact Session.confirmed_prefix_turns _ rest
  · rintro disk point s₀ reset source consumer readsOnly k₀ front _ ⟨tail, rfl⟩ whole stopped
    have hstopped : stopped.Resumable config source point front :=
      (Session.Resumable.since (Session.ready_turns ready turns) disk reset k₀).announceAll readsOnly front
    obtain ⟨fresh, hfresh, hreset⟩ := hstopped.reset_new
    obtain ⟨rest, headers_eq, resume⟩ := hstopped.resume readsOnly tail
    refine ⟨rest, fresh, _, headers_eq, fun apart => ?_, hfresh, hreset, fun k₁ => ?_⟩
    · rw [headers_eq] at apart ⊢
      exact (Session.drop_cutAfter_tip apart).symm
    · rw [resume k₁]
      simp only [whole, Session.announceAll_append]
      rfl

/-- A block that pays, and from the second slot on a block that spends what the first one paid. -/
def chainedTxs (header : BlockHeader) : List Tx :=
  if header.slot = 1 then [Fixture.tx 1 0 [] [Fixture.output "alice" 5]]
  else [Fixture.tx header.slot 0 [⟨Fixture.txHash 1 0, 0⟩] [Fixture.output "bob" 5]]

/-- A fork is given up, a fetch and a commit fail, and the indexer is replaced. -/
def interruptedTurns : List (Turn Unit) :=
  let works : Surroundings Unit := ⟨fun h => .ok (chainedTxs h), fun _ _ k db => (.ok (), k, db), id⟩
  let offline : Surroundings Unit := { works with source := fun _ => .error "offline" }
  let full : Surroundings Unit :=
    { works with store := Database.withFaults { commit := fun _ => some (.io "disk full") } }
  let forward (slot : UInt64) : ChainEvent := .rollForward (Fixture.header slot)
  [.event ⟨works, forward 1⟩, .event ⟨works, forward 2⟩,
    .event ⟨works, .rollBackward (Fixture.point 1)⟩, .event ⟨works, forward 3⟩,
    .event ⟨offline, forward 4⟩, .event ⟨full, forward 4⟩, .restart (Database.withFaults .never),
    .event ⟨works, forward 3⟩, .event ⟨works, forward 4⟩]

theorem interruptedTurns_plain : ∀ turn ∈ interruptedTurns, turn.Plain chainedTxs := by
  have agrees : BlockSource.Agrees (fun h => .ok (chainedTxs h)) chainedTxs := fun header txs h =>
    (Except.ok.inj h).symm
  have offline : BlockSource.Agrees (fun _ => .error "offline") chainedTxs := nofun
  have readsOnly : Consumer.ReadsOnly fun _ _ (k : Unit) db => (.ok (), k, db) := fun _ _ _ _ => rfl
  simp only [interruptedTurns, List.forall_mem_cons, Turn.Plain]
  exact ⟨⟨agrees, readsOnly, .id⟩, ⟨agrees, readsOnly, .id⟩, ⟨agrees, readsOnly, .id⟩,
    ⟨agrees, readsOnly, .id⟩, ⟨offline, readsOnly, .id⟩, ⟨agrees, readsOnly, .withFaults rfl⟩,
    .withFaults rfl,
    ⟨agrees, readsOnly, .id⟩, ⟨agrees, readsOnly, .id⟩, nofun⟩

/-- Both courses confirm the first and the third block, and their stores hold the same. Then a reset
returns the third one, and a new indexer that takes over after two of three further headers gets to
where one gets that does not stop. -/
theorem history_independent_interruptedTurns :
    let config : IndexerConfig := { confirmationDepth := 1 }
    let s (medium : Medium) : Indexer := { config, database := .new medium, window := .empty 1 }
    let t := (Session.since (s .memory) ()).turns interruptedTurns
    let t' := (Session.since (s (.durable true)) ()).turns (Turn.forwards chainedTxs [1, 3, 4])
    let announced (s : Indexer) (headers : List BlockHeader) : Session Unit :=
      (Session.since s ()).announceAll (fun h => .ok (chainedTxs h)) (fun _ _ k db => (.ok (), k, db))
        headers
    let headers := [5, 6, 7].map Fixture.header
    let stopped := announced t.indexer.reset.2 (headers.take 2)
    t.confirmed = [Fixture.header 1, Fixture.header 3] ∧ t.contents = t'.contents ∧
      stopped.confirmed = [Fixture.header 5] ∧
      ∃ fresh s₁, Indexer.new config stopped.indexer.database = .ok fresh ∧
        fresh.reset = (.ok (Fixture.point 5), s₁) ∧
        (announced s₁ ([6, 7].map Fixture.header)).indexer =
          (announced t.indexer.reset.2 headers).indexer := by
  intro config s t t' announced headers stopped
  have new (medium : Medium) : Indexer.new config (.new medium) = .ok (s medium) := by
    rw [Indexer.new, show config.fault? = none by decide]
    rfl
  obtain ⟨-, same, -, resume⟩ := history_independent
    (show (Database.new .memory).contents = (Database.new (.durable true)).contents from rfl)
    (new .memory) (new (.durable true)) () () interruptedTurns (Turn.forwards chainedTxs [1, 3, 4])
    (fun turn mem => (interruptedTurns_plain turn mem).alone)
    (fun turn mem => (Turn.forwards_plain chainedTxs [1, 3, 4] turn mem).alone)
  have confirmed : t.confirmed = [Fixture.header 1, Fixture.header 3] := by decide +kernel
  have confirmed' : t'.confirmed = [Fixture.header 1, Fixture.header 3] := by decide +kernel
  have stopped_eq : stopped.confirmed = [Fixture.header 5] := by decide +kernel
  have reset : t.indexer.reset.1 = .ok (Fixture.point 3) := by
    have h : t.indexer.reset.1.toOption = some (Fixture.point 3) := by decide +kernel
    cases hr : t.indexer.reset.1 with
    | error e => rw [hr] at h; cases h
    | ok point => rw [hr] at h; rw [Option.some.inj h]
  obtain ⟨rest, fresh, s₁, headers_eq, -, hnew, hreset, goesOn⟩ := resume (by decide +kernel)
    (Fixture.point 3) t.indexer.reset.2 (Prod.ext reset rfl) (fun h => .ok (chainedTxs h))
    (fun _ _ k db => (.ok (), k, db)) (fun _ _ _ _ => rfl) () (headers.take 2) headers
    (List.take_prefix 2 headers)
  change headers = stopped.confirmed ++ rest at headers_eq
  change fresh.reset = (.ok (tip (Fixture.point 3) stopped.confirmed), s₁) at hreset
  rw [stopped_eq] at headers_eq hreset
  obtain rfl : [6, 7].map Fixture.header = rest := (List.cons.inj headers_eq).2
  have contents := same (by decide +kernel) (by decide +kernel) (confirmed.trans confirmed'.symm)
  exact ⟨confirmed, contents, stopped_eq, fresh, s₁, hnew, hreset, goesOn ()⟩

/-- Two courses of the same indexer, on which nobody else writes to the store, both confirm the blocks of the
first and the second slot. On the first one the block of the fifth slot was written in vain, and then the chain
went back: its store still holds this block, and that of the other one does not. -/
theorem unsynced_history_differs :
    let config : IndexerConfig := { confirmationDepth := 1 }
    let db : Database := .new (.durable true)
    let s : Indexer := { config, database := db, window := .empty 1 }
    let txsOf (header : BlockHeader) : List Tx := [Fixture.tx header.slot 0 [] []]
    let turns := unsyncedTurns txsOf
    let turns' := Turn.forwards txsOf [1, 2, 3]
    let t := (Session.since s ()).turns turns
    let t' := (Session.since s ()).turns turns'
    let fifth := ConfirmedBlock.ofHeader (Fixture.header 5) [Fixture.txHash 5 0]
    Indexer.new config db = .ok s ∧
      (∀ turn ∈ turns, turn.Alone txsOf) ∧ (∀ turn ∈ turns', turn.Alone txsOf) ∧
      t.confirmed = [Fixture.header 1, Fixture.header 2] ∧ t'.confirmed = t.confirmed ∧
      t.contents.lookup .confirmedBlocks (Key.ofSlot 5) = some (Cbor.Record.encode fifth) ∧
      t'.contents.lookup .confirmedBlocks (Key.ofSlot 5) = none := by
  intro config db s txsOf turns turns' t t' fifth
  have new : Indexer.new config db = .ok s := by
    rw [Indexer.new, show config.fault? = none by decide]
    rfl
  exact ⟨new, unsyncedTurns_alone txsOf,
    fun turn mem => (Turn.forwards_plain txsOf [1, 2, 3] turn mem).alone, by decide +kernel,
    by decide +kernel, by decide +kernel, by decide +kernel⟩

end ChainIndex
