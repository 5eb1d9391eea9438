import ChainIndex.Proofs.Indexer.Course

/-!
# The chain that is announced on a course

* `Rising`: slots increase along a chain, so its blocks differ (`Rising.differ`).
* `Climbing`: slots may also stay the same from one block to the next one.
* `Course`: a session with what was settled when the last reset or restart began it anew, and the chain that
  the events have announced since. It does not look at what the indexer keeps.
* `Course.OnTrack`: the settled headers and the announced chain are what is confirmed, followed by what waits.
  Every turn keeps this (`Course.OnTrack.turn`).
-/

namespace ChainIndex

variable {κ : Type}

/-- Slots increase along the chain. -/
def Rising (chain : List BlockHeader) : Prop := chain.Pairwise fun a b => a.slot < b.slot

instance (chain : List BlockHeader) : Decidable (Rising chain) :=
  inferInstanceAs (Decidable (List.Pairwise _ _))

theorem Rising.append_left {front rest : List BlockHeader} (h : Rising (front ++ rest)) :
    Rising front := (List.pairwise_append.1 h).1

theorem Rising.append_right {front rest : List BlockHeader} (h : Rising (front ++ rest)) :
    Rising rest := (List.pairwise_append.1 h).2.1

/-- A header behind others has a later slot. -/
theorem Rising.later {front : List BlockHeader} {header : BlockHeader}
    (h : Rising (front ++ [header])) : ∀ g ∈ front, g.slot < header.slot :=
  fun g hg => (List.pairwise_append.1 h).2.2 g hg header (List.mem_singleton_self _)

theorem Rising.differ {chain : List BlockHeader} (h : Rising chain) : Differ chain := by
  refine h.imp fun {a b} lt => Bool.eq_false_iff.2 fun same => ?_
  have eq : a.slot = b.slot := (Point.sameBlock_iff.1 same).1
  exact UInt64.lt_irrefl _ (eq ▸ lt)

/-- Slots do not decrease along the chain. -/
def Climbing (chain : List BlockHeader) : Prop := chain.Pairwise fun a b => a.slot ≤ b.slot

instance (chain : List BlockHeader) : Decidable (Climbing chain) :=
  inferInstanceAs (Decidable (List.Pairwise _ _))

theorem Rising.climbing {chain : List BlockHeader} (h : Rising chain) : Climbing chain :=
  h.imp UInt64.le_of_lt

/-- A header behind others has no earlier slot. -/
theorem Climbing.newest {front : List BlockHeader} {header : BlockHeader}
    (h : Climbing (front ++ [header])) : ∀ g ∈ front, g.slot ≤ header.slot :=
  fun g hg => (List.pairwise_append.1 h).2.2 g hg header (List.mem_singleton_self _)

/-- A course of an indexer through resets and restarts, with the chain that is announced on it. -/
structure Course (κ : Type) where
  session : Session κ
  /-- The headers that were confirmed before the last reset or restart. -/
  settled : List BlockHeader := []
  /-- The chain that the events since then have announced. -/
  announced : List BlockHeader := []
  /-- Whether there was a reset since the last restart. -/
  isReset : Bool := false

namespace Course

/-- The settled headers, followed by those that were announced since. -/
def chain (m : Course κ) : List BlockHeader := m.settled ++ m.announced

/-- The indexer that a turn finds: others may have used its store. -/
def found (m : Course κ) (store : Database → Database) : Indexer :=
  { m.session.indexer with database := store m.session.indexer.database }

/-- The course after a turn. A reset that succeeds, and a restart, settle what is confirmed. -/
def turn (m : Course κ) : Turn κ → Course κ
  | .event c =>
    { m with
      session := m.session.turn (.event c)
      announced := announce m.announced (c.event, (m.session.call c).1) }
  | .reset store =>
    match (m.found store).reset with
    | (.ok _, s) =>
      { session := { m.session with indexer := s }, settled := m.session.confirmed, isReset := true }
    | (.error _, s) => { m with session := { m.session with indexer := s } }
  | .restart store =>
    { session := m.session.turn (.restart store), settled := m.session.confirmed }

variable {m : Course κ} {store : Database → Database} {s : Indexer}

theorem turn_reset_ok {point : Point} (h : (m.found store).reset = (.ok point, s)) :
    m.turn (.reset store) =
      { session := { m.session with indexer := s }
        settled := m.session.confirmed
        isReset := true } := by
  rw [turn, h]

theorem turn_reset_error {e : IndexerError} (h : (m.found store).reset = (.error e, s)) :
    m.turn (.reset store) = { m with session := { m.session with indexer := s } } := by
  rw [turn, h]

@[simp] theorem session_turn (m : Course κ) (turn : Turn κ) :
    (m.turn turn).session = m.session.turn turn := by
  cases turn with
  | event c => rfl
  | reset store =>
    have session : m.session.turn (.reset store) =
        { m.session with indexer := (m.found store).reset.2 } := rfl
    rw [session]
    obtain ⟨e, -, hr⟩ | ⟨stored, point, -, -, hr⟩ := (m.found store).reset_cases
    · rw [turn_reset_error hr, hr]
    · rw [turn_reset_ok hr, hr]
  | restart store => rfl

/-- The settled headers and the announced chain are what is confirmed, followed by what waits. -/
def OnTrack (m : Course κ) : Prop := ∃ start, m.session.Continues m.settled m.announced start

theorem OnTrack.chain_eq (h : m.OnTrack) : m.chain = m.session.confirmed ++ m.session.pending := by
  obtain ⟨start, since, confirmed, announced, -⟩ := h
  rw [chain, confirmed, announced, List.append_assoc]

/-- Where nothing waits, what is confirmed can be settled. -/
theorem OnTrack.anew (settled : m.session.confirmed = m.settled) (announced : m.announced = [])
    (idle : m.session.pending = []) : m.OnTrack :=
  ⟨m.session.indexer.latestPoint, [], by rw [settled, List.append_nil], by rw [announced, idle]; rfl,
    rfl⟩

theorem OnTrack.turn {config : IndexerConfig} (ready : m.session.indexer.Ready config)
    (h : m.OnTrack) (differ : Differ m.announced) (turn : Turn κ) : (m.turn turn).OnTrack := by
  cases turn with
  | event c =>
    obtain ⟨start, continues⟩ := h
    exact ⟨start, continues.step differ c⟩
  | reset store =>
    obtain ⟨e, -, hr⟩ | ⟨stored, point, -, -, hr⟩ := (m.found store).reset_cases
    · rw [turn_reset_error hr]
      exact h
    · rw [turn_reset_ok hr]
      exact .anew rfl rfl (Indexer.reset_ok hr).2
  | restart store =>
    refine .anew ?_ rfl ?_
    · simp only [Course.turn, Session.turn, Indexer.new, ready.config_eq, ready.faultless]
      rfl
    · simp only [Course.turn, Session.turn, Indexer.new, ready.config_eq, ready.faultless]
      rfl

/-- Along a chain with increasing slots, those of what is confirmed increase. -/
theorem OnTrack.rising (h : m.OnTrack) (rising : Rising m.chain) : Rising m.session.confirmed := by
  rw [h.chain_eq] at rising
  exact rising.append_left

end Course

end ChainIndex
