import ChainIndex.Proofs.Indexer.Outcome

/-!
# Reachable indexers

* `Indexer.Reachable config`: what can become of a new indexer by any calls, with any sources and
  consumers, while others do what they like with the store and its calls begin or cease to fail.
* `Indexer.Ready config`: what holds of every reachable indexer between two calls: its configuration
  has no fault, no change waits in its batch, and its window has the capacity of the configuration.
-/

namespace ChainIndex

/-- A configuration without fault selects a side and no unknown bit, and has depth and queue. -/
theorem IndexerConfig.fault?_eq_none_iff (c : IndexerConfig) :
    c.fault? = none ↔ c.addressCheck.bits &&& 3 ≠ 0 ∧ c.addressCheck.bits &&& 0xfc = 0 ∧
      c.confirmationDepth ≠ 0 ∧ c.queueSize ≠ 0 := by
  unfold fault?
  grind

namespace Indexer

/-- What can become of a new indexer. -/
inductive Reachable (config : IndexerConfig) : Indexer → Prop
  | new {database : Database} {s : Indexer} (h : Indexer.new config database = .ok s) :
      Reachable config s
  /-- Somebody else uses the store, or the store begins or ceases to fail. -/
  | store {s : Indexer} (h : Reachable config s) (database : Database) :
      Reachable config { s with database }
  | rollForward {κ : Type} {s : Indexer} (h : Reachable config s) (source : BlockSource)
      (consumer : Consumer κ) (header : BlockHeader) (k : κ) :
      Reachable config (s.rollForward source consumer header k).2.1
  | rollBackward {s : Indexer} (h : Reachable config s) (point : Point) :
      Reachable config (s.rollBackward point).2
  | reset {s : Indexer} (h : Reachable config s) : Reachable config s.reset.2

/-- An indexer between two calls. -/
structure Ready (config : IndexerConfig) (s : Indexer) : Prop where
  config_eq : s.config = config
  faultless : config.fault? = none
  writer_eq : s.writer = .empty
  capacity_eq : s.window.capacity = config.confirmationDepth.toNat

namespace Ready

variable {config : IndexerConfig} {s : Indexer}

theorem new {database : Database} (h : Indexer.new config database = .ok s) : Ready config s := by
  unfold Indexer.new at h
  split at h
  · cases h
  · rename_i hf
    cases h
    exact ⟨rfl, hf, rfl, rfl⟩

theorem store (h : Ready config s) (database : Database) : Ready config { s with database } :=
  ⟨h.config_eq, h.faultless, h.writer_eq, h.capacity_eq⟩

theorem confirm {t : Indexer} {header : BlockHeader} {txs : List Tx} {c : Confirmation}
    (h : Ready config s) (hc : s.confirm header txs = (.ok c, t)) : Ready config t := by
  obtain ⟨resolved, database, -, -, -, rfl⟩ := confirm_ok hc
  exact ⟨h.config_eq, h.faultless, rfl, h.capacity_eq⟩

theorem forwarded {κ : Type} {source : BlockSource} {consumer : Consumer κ} {header : BlockHeader}
    {k : κ} {r : Except IndexerError Unit × Indexer × κ} (h : Ready config s)
    (hf : Forwarded s source consumer header k r) : Ready config r.2.1 := by
  cases hf with
  | waits window room entries capacity =>
    exact ⟨h.config_eq, h.faultless, h.writer_eq, capacity.trans h.capacity_eq⟩
  | failed e writer database full notConsumer idle atomic =>
    exact ⟨h.config_eq, h.faultless, idle.elim (·.trans h.writer_eq) id, h.capacity_eq⟩
  | confirmed oldest rest txs c t window full pending fetched confirm entries capacity =>
    have ht := h.confirm confirm
    exact ⟨ht.config_eq, h.faultless, ht.writer_eq, capacity.trans h.capacity_eq⟩

theorem rolled {point : Point} {r : Except IndexerError Unit × Indexer} (h : Ready config s)
    (hr : Rolled s point r) : Ready config r.2 := by
  cases hr with
  | inside kept dropped header window pending same before entries capacity =>
    exact ⟨h.config_eq, h.faultless, h.writer_eq, capacity.trans h.capacity_eq⟩
  | latest => exact ⟨h.config_eq, h.faultless, h.writer_eq, h.capacity_eq⟩
  | fatal => exact h

theorem reset (h : Ready config s) : Ready config s.reset.2 := by
  obtain ⟨e, -, hr⟩ | ⟨stored, point, -, -, hr⟩ := s.reset_cases
  · rw [hr]; exact h
  · rw [hr]; exact ⟨h.config_eq, h.faultless, h.writer_eq, h.capacity_eq⟩

end Ready

theorem Reachable.ready {config : IndexerConfig} {s : Indexer} (h : Reachable config s) :
    Ready config s := by
  induction h with
  | new h => exact .new h
  | store _ database ih => exact ih.store database
  | rollForward _ source consumer header k ih =>
    exact ih.forwarded (rollForward_forwarded _ source consumer header k)
  | rollBackward _ point ih => exact ih.rolled (rollBackward_rolled _ point)
  | reset _ ih => exact ih.reset

end Indexer

end ChainIndex
