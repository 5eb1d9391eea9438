import ChainIndex.Proofs.Storage.Atomic
import ChainIndex.Indexer.Basic

/-!
# What the calls of the indexer come to

One statement for each call says everything that it can do; what is proved about the indexer takes a
call apart with it and does not unfold the call.

* `Indexer.confirm_error`, `Indexer.confirm_ok`: a confirmation that fails changes neither window nor
  latest point; one that succeeds has carried out the batch of the block.
* `Indexer.Forwarded`: the three outcomes of `rollForward` (`Indexer.rollForward_forwarded`).
* `Indexer.Rolled`: the three outcomes of `rollBackward` (`Indexer.rollBackward_rolled`).
* `Indexer.reset_cases`: the outcomes of `reset`.
-/

namespace ChainIndex

theorem StoreError.kind_ne_consumer (e : StoreError) : e.kind ≠ .consumer := by
  cases e <;> simp [StoreError.kind]

namespace Indexer

variable {κ : Type}

/-! ## Confirmation -/

/-- A confirmation that fails may empty the batch, and touches the database only if commits are not
atomic. -/
theorem confirm_error {s s' : Indexer} {header : BlockHeader} {txs : List Tx} {e : IndexerError}
    (h : s.confirm header txs = (.error e, s')) :
    ∃ cause writer database, e = .store cause ∧ s' = { s with writer, database } ∧
      (writer = s.writer ∨ writer = .empty) ∧
      (s.database.engine.CommitsAtomically → database = s.database) := by
  unfold confirm at h
  split at h
  · rename_i cause _
    cases h
    exact ⟨cause, s.writer, s.database, rfl, rfl, .inl rfl, fun _ => rfl⟩
  · rename_i resolved _
    simp only at h
    split at h
    · rename_i cause writer database hx
      cases h
      have hw := BatchWriter.execute_writer
        (((Confirmation.ofBlock s.config header resolved).ops s.config.softDelete).foldl
          BatchWriter.push s.writer) s.database
      rw [hx] at hw
      exact ⟨cause, writer, database, rfl, rfl, .inr hw, fun ha => BatchWriter.execute_error ha hx⟩
    · cases h

/-- A confirmation that succeeds has resolved the inputs and carried out the batch of the block. -/
theorem confirm_ok {s s' : Indexer} {header : BlockHeader} {txs : List Tx} {c : Confirmation}
    (h : s.confirm header txs = (.ok c, s')) :
    ∃ resolved database, resolveInputs s.database.txOutput txs = .ok resolved ∧
      c = Confirmation.ofBlock s.config header resolved ∧
      ((c.ops s.config.softDelete).foldl BatchWriter.push s.writer).execute s.database =
        (.ok (), .empty, database) ∧
      s' = { s with writer := .empty, database, latestPoint := header.point } := by
  unfold confirm at h
  split at h
  · cases h
  · rename_i resolved hr
    simp only at h
    split at h
    · cases h
    · rename_i writer database hx
      cases h
      have hw := BatchWriter.execute_writer
        (((Confirmation.ofBlock s.config header resolved).ops s.config.softDelete).foldl
          BatchWriter.push s.writer) s.database
      rw [hx] at hw
      simp only at hw
      subst hw
      exact ⟨resolved, database, hr, rfl, hx, rfl⟩

/-- And a confirmation whose parts succeed does so. -/
theorem confirm_of_ok {s : Indexer} {header : BlockHeader} {txs resolved : List Tx}
    {database : Database} (hresolved : resolveInputs s.database.txOutput txs = .ok resolved)
    (hexecute : (((Confirmation.ofBlock s.config header resolved).ops s.config.softDelete).foldl
      BatchWriter.push s.writer).execute s.database = (.ok (), .empty, database)) :
    s.confirm header txs = (.ok (Confirmation.ofBlock s.config header resolved),
      { s with writer := .empty, database, latestPoint := header.point }) := by
  unfold confirm
  rw [hresolved]
  simp only [hexecute]

/-! ## Announced headers -/

theorem isFull_iff (s : Indexer) :
    s.window.isFull = true ↔ s.window.capacity ≤ s.pending.length := by
  unfold Window.isFull
  exact decide_eq_true_iff

theorem push_of_room {s : Indexer} (header : BlockHeader) (h : s.window.isFull = false) :
    ∃ window : Window BlockHeader, s.push header = (.ok (), { s with window }) ∧
      window.entries = s.pending ++ [header] ∧ window.capacity = s.window.capacity := by
  unfold push
  cases hp : s.window.push? header with
  | none => rw [Window.push?_eq_none_iff, h] at hp; cases hp
  | some window =>
    refine ⟨window, rfl, Window.entries_of_push? hp, ?_⟩
    unfold Window.push? at hp
    split at hp
    · cases hp; rfl
    · cases hp

/-- After a confirmation the window loses its oldest header, so there is room for the new one. -/
theorem push_confirmed {s t : Indexer} {oldest : BlockHeader} {rest : List BlockHeader}
    {txs : List Tx} {c : Confirmation} (header : BlockHeader) (pending : s.pending = oldest :: rest)
    (confirm : s.confirm oldest txs = (.ok c, t)) :
    ∃ window : Window BlockHeader,
      ({ t with window := t.window.pop } : Indexer).push header = (.ok (), { t with window }) ∧
      window.entries = rest ++ [header] ∧ window.capacity = s.window.capacity := by
  have hw : t.window = s.window := by
    obtain ⟨resolved, database, -, -, -, rfl⟩ := confirm_ok confirm
    rfl
  change s.window.entries = oldest :: rest at pending
  have room : ({ t with window := t.window.pop } : Indexer).window.isFull = false := by
    have := s.window.length_le
    simp [hw, Window.isFull, Window.size, Window.pop, pending] at this ⊢
    omega
  obtain ⟨window, hpush, entries, capacity⟩ := push_of_room header room
  refine ⟨window, hpush, ?_, ?_⟩
  · rw [entries]; simp [Indexer.pending, hw, pending]
  · rw [capacity, hw]; rfl

/-- What a call of `rollForward` comes to: its answer, the indexer and the state of the consumer. -/
inductive Forwarded (s : Indexer) (source : BlockSource) (consumer : Consumer κ)
    (header : BlockHeader) (k : κ) : Except IndexerError Unit × Indexer × κ → Prop
  /-- There is room: the header waits. -/
  | waits (window : Window BlockHeader) (room : s.window.isFull = false)
      (entries : window.entries = s.pending ++ [header])
      (capacity : window.capacity = s.window.capacity) :
      Forwarded s source consumer header k (.ok (), { s with window }, k)
  /-- Something before the consumer fails: the window, the latest point and the consumer are as
  before. -/
  | failed (e : IndexerError) (writer : BatchWriter) (database : Database)
      (full : s.window.isFull = true) (notConsumer : e.kind ≠ .consumer)
      (idle : writer = s.writer ∨ writer = .empty)
      (atomic : s.database.engine.CommitsAtomically → database = s.database) :
      Forwarded s source consumer header k (.error e, { s with writer, database }, k)
  /-- The oldest header is confirmed, the new one waits, and the consumer is told. -/
  | confirmed (oldest : BlockHeader) (rest : List BlockHeader) (txs : List Tx) (c : Confirmation)
      (t : Indexer) (window : Window BlockHeader) (full : s.window.isFull = true)
      (pending : s.pending = oldest :: rest) (fetched : source oldest = .ok txs)
      (confirm : s.confirm oldest txs = (.ok c, t)) (entries : window.entries = rest ++ [header])
      (capacity : window.capacity = s.window.capacity) :
      Forwarded s source consumer header k
        ((consumer c.block c.txs k t.database).1.mapError (.consumer c.block.point),
          { t with window, database := (consumer c.block c.txs k t.database).2.2 },
          (consumer c.block c.txs k t.database).2.1)

/-- Every call of `rollForward` comes to one of the three. -/
theorem rollForward_forwarded (s : Indexer) (source : BlockSource) (consumer : Consumer κ)
    (header : BlockHeader) (k : κ) :
    Forwarded s source consumer header k (s.rollForward source consumer header k) := by
  unfold rollForward
  split
  · rename_i room
    obtain ⟨window, hpush, entries, capacity⟩ := push_of_room header (by simpa using room)
    rw [hpush]
    exact .waits window (by simpa using room) entries capacity
  · rename_i hfull
    have full : s.window.isFull = true := by simpa using hfull
    split
    · exact .failed _ s.writer s.database full (by simp [IndexerError.kind]) (.inl rfl) fun _ => rfl
    · rename_i oldest hpeek
      obtain ⟨rest, pending⟩ : ∃ rest, s.pending = oldest :: rest := List.head?_eq_some_iff.1 hpeek
      split
      · exact .failed _ s.writer s.database full (by simp [IndexerError.kind]) (.inl rfl)
          fun _ => rfl
      · rename_i txs fetched
        split
        · rename_i e t hconfirm
          obtain ⟨cause, writer, database, rfl, rfl, idle, atomic⟩ := confirm_error hconfirm
          exact .failed _ writer database full cause.kind_ne_consumer idle atomic
        · rename_i c t confirm
          obtain ⟨window, hpush, entries, capacity⟩ := push_confirmed header pending confirm
          rw [hpush]
          have confirmed : Forwarded s source consumer header k _ :=
            .confirmed oldest rest txs c t window full pending fetched confirm entries capacity
          simp only
          split <;> rename_i hc <;> rw [hc] at confirmed <;> exact confirmed

/-! ## Going back -/

/-- What a call of `rollBackward` comes to. -/
inductive Rolled (s : Indexer) (point : Point) : Except IndexerError Unit × Indexer → Prop
  /-- The block of the point waits: what waits behind it is dropped. -/
  | inside (kept dropped : List BlockHeader) (header : BlockHeader) (window : Window BlockHeader)
      (pending : s.pending = kept ++ header :: dropped)
      (same : header.point.sameBlock point = true)
      (before : ∀ h ∈ kept, h.point.sameBlock point = false)
      (entries : window.entries = kept ++ [header])
      (capacity : window.capacity = s.window.capacity) :
      Rolled s point (.ok (), { s with window })
  /-- The point is the latest one: everything that waits is dropped. -/
  | latest (absent : ∀ h ∈ s.pending, h.point.sameBlock point = false)
      (same : point.sameBlock s.latestPoint = true) :
      Rolled s point (.ok (), { s with window := s.window.clear })
  /-- The point is neither. -/
  | fatal (absent : ∀ h ∈ s.pending, h.point.sameBlock point = false)
      (other : point.sameBlock s.latestPoint = false) :
      Rolled s point (.error (.fatalRollback point s.latestPoint), s)

/-- Every call of `rollBackward` comes to one of the three. -/
theorem rollBackward_rolled (s : Indexer) (point : Point) :
    Rolled s point (s.rollBackward point) := by
  unfold rollBackward
  split
  · rename_i index hfind
    obtain ⟨hlt, same, before⟩ := List.findIdx?_eq_some_iff_getElem.1 hfind
    refine .inside (s.pending.take index) (s.pending.drop (index + 1)) s.window.entries[index]
      (s.window.truncate (index + 1)) ?_ same ?_ ?_ rfl
    · simp [Indexer.pending]
    · intro h hmem
      obtain ⟨i, hi, rfl⟩ := List.mem_take_iff_getElem.1 hmem
      simpa [Indexer.pending] using before i (by omega)
    · simp [Indexer.pending]
  · rename_i hfind
    have absent : ∀ h ∈ s.pending, h.point.sameBlock point = false := by
      simpa [Indexer.pending, Window.find?] using List.findIdx?_eq_none_iff.1 hfind
    split
    · rename_i same
      exact .latest absent same
    · rename_i other
      exact .fatal absent (by simpa using other)

/-! ## Starting over -/

/-- `reset` reads the stored point; if that fails it changes nothing. -/
theorem reset_cases (s : Indexer) :
    (∃ e, s.database.latestPoint? = .error e ∧ s.reset = (.error (.store e), s)) ∨
    ∃ stored point, s.database.latestPoint? = .ok stored ∧
      point = stored.getD (s.config.startingPoint.getD .origin) ∧
      s.reset = (.ok point, { s with latestPoint := point, window := s.window.clear }) := by
  unfold reset
  cases h : s.database.latestPoint? with
  | error e => exact .inl ⟨e, rfl, rfl⟩
  | ok stored => exact .inr ⟨stored, _, rfl, rfl, rfl⟩

/-- After a reset nothing waits, and the latest point is the one that was picked. -/
theorem reset_ok {s t : Indexer} {start : Point} (h : s.reset = (.ok start, t)) :
    t.latestPoint = start ∧ t.pending = [] := by
  obtain ⟨e, -, hr⟩ | ⟨stored, point, -, -, hr⟩ := s.reset_cases
  · rw [hr] at h; cases h
  · rw [hr] at h; cases h
    exact ⟨rfl, rfl⟩

end Indexer

end ChainIndex
