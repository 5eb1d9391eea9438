import ChainIndex.Proofs.Runner.Steady

/-!
# A runner whose handler does not fail

* `Runner.Takes`: a handler takes events one after the other, from a state to another one, without an error.
* `Runner.Heads`: no event has failed, and what is queued takes the handler to a state. Every step of the
  owner keeps this (`Runner.Heads.ownerStep`).
* `Runner.Serving`: the owner runs and messages are accepted. So a caller who waits is never refused
  (`Runner.Heads.send`), and once the runner is closed the handler has taken all that was sent
  (`Runner.Heads.close`).
-/

namespace ChainIndex.Runner

variable {σ : Type} {handle : Handler σ} {goal goal' : σ} {r : Runner σ}

/-- A handler takes events one after the other without an error. -/
inductive Takes (handle : Handler σ) : σ → List ChainEvent → σ → Prop
  | done (s : σ) : Takes handle s [] s
  | step {s t u : σ} {e : ChainEvent} {events : List ChainEvent} (answer : handle e s = (.ok (), t))
      (rest : Takes handle t events u) : Takes handle s (e :: events) u

theorem Takes.append {s t u : σ} {front rest : List ChainEvent} (h : Takes handle s front t)
    (h' : Takes handle t rest u) : Takes handle s (front ++ rest) u := by
  induction h with
  | done => exact h'
  | step answer _ ih => exact .step answer (ih h')

/-- No event has failed, and what is queued takes the handler to a state. -/
structure Heads (handle : Handler σ) (goal : σ) (r : Runner σ) : Prop where
  takes : Takes handle r.handler (r.queue.filterMap Message.event?) goal
  errors : r.errors = []
  settled : r.owner = .finishing ∨ r.owner = .ended → r.queue = []

/-- The owner runs, nobody has told it to end, and messages are accepted. -/
structure Serving (r : Runner σ) : Prop where
  running : r.owner = .running
  isOpen : r.isOpen = true
  isClosed : r.isClosed = false
  goesOn : r.isShutdown = false
  room : 0 < r.capacity

namespace Heads

/-! ## The owner -/

theorem not_settled (alive : r.owner = .running ∨ r.owner = .draining) :
    ¬(r.owner = .finishing ∨ r.owner = .ended) := by
  rcases alive with alive | alive <;> rw [alive] <;> decide

theorem ownerStep (h : Heads handle goal r) : Heads handle goal (r.ownerStep handle) := by
  have hs := r.ownerStep_stepped handle
  generalize r.ownerStep handle = r' at hs ⊢
  have takes := h.takes
  cases hs with
  | rests => exact h
  | acknowledges ticket rest queue alive =>
    rw [queue] at takes
    exact ⟨takes, h.errors, fun settled => absurd settled (not_settled alive)⟩
  | applies e rest queue alive answer =>
    rw [queue] at takes
    obtain _ | ⟨answer', takes⟩ := takes
    rw [answer']
    exact ⟨takes, h.errors, fun settled => absurd settled (not_settled alive)⟩
  | fails e rest queue alive error answer =>
    rw [queue] at takes
    obtain _ | ⟨answer', takes⟩ := takes
    rw [answer'] at answer
    cases answer
  | drains queue => exact ⟨takes, h.errors, fun _ => queue⟩
  | finishes queue => exact ⟨takes, h.errors, fun _ => queue⟩
  | ends finishing =>
    rw [h.settled (.inl finishing)] at takes
    exact ⟨takes, h.errors, fun _ => rfl⟩

theorem run (h : Heads handle goal r) (steps : Nat) : Heads handle goal (r.run handle steps) := by
  induction steps generalizing r with
  | zero => exact h
  | succ steps ih =>
    unfold Runner.run
    split
    · exact ih h.ownerStep
    · exact h

/-- An owner that runs goes on to do so. -/
theorem serving_ownerStep (h : Heads handle goal r) (serving : Serving r) :
    Serving (r.ownerStep handle) := by
  have hs := r.ownerStep_stepped handle
  generalize r.ownerStep handle = r' at hs ⊢
  obtain ⟨running, isOpen, isClosed, goesOn, room⟩ := serving
  cases hs with
  | rests | acknowledges | applies => exact ⟨running, isOpen, isClosed, goesOn, room⟩
  | fails e rest queue alive error answer =>
    have takes := h.takes
    rw [queue] at takes
    obtain _ | ⟨answer', -⟩ := takes
    rw [answer'] at answer
    cases answer
  | drains _ _ shutdown => rw [goesOn] at shutdown; cases shutdown
  | finishes _ draining => rw [running] at draining; cases draining
  | ends finishing => rw [running] at finishing; cases finishing

/-- With a step for each message nothing is left in the queue. -/
theorem run_idle (h : Heads handle goal r) (serving : Serving r) {steps : Nat}
    (enough : r.queue.length ≤ steps) :
    Serving (r.run handle steps) ∧ (r.run handle steps).queue = [] := by
  induction steps generalizing r with
  | zero => exact ⟨serving, List.eq_nil_of_length_eq_zero (Nat.le_zero.1 enough)⟩
  | succ steps ih =>
    unfold Runner.run
    cases queue : r.queue with
    | nil =>
      have rests : r.canStep = false := by simp [canStep, serving.running, queue, serving.goesOn]
      rw [if_neg (by simp [rests])]
      exact ⟨serving, queue⟩
    | cons m rest =>
      have canStep : r.canStep = true := by simp [canStep, serving.running, queue]
      have popped : (r.ownerStep handle).queue = rest := by
        unfold Runner.ownerStep
        simp only [serving.running, queue]
        exact (apply_fields ..).1
      rw [if_pos canStep]
      refine ih h.ownerStep (h.serving_ownerStep serving) ?_
      rw [popped]
      rw [queue] at enough
      exact Nat.le_of_succ_le_succ enough

theorem settle_idle (h : Heads handle goal r) (serving : Serving r) :
    Serving (r.settle handle) ∧ (r.settle handle).queue = [] :=
  h.run_idle serving (Nat.le_add_right _ 3)

/-! ## Callers who wait -/

theorem offer (h : Heads handle goal r) (serving : Serving r)
    (room : r.queue.length < r.capacity) {m : Message}
    (takes : Takes handle goal m.event?.toList goal') :
    (r.offer m).1 = .accepted ∧ Heads handle goal' (r.offer m).2 ∧ Serving (r.offer m).2 := by
  have accepted : r.offer m = (.accepted, { r with queue := r.queue ++ [m] }) := by
    unfold Runner.offer
    rw [if_neg (by simp [serving.isOpen]), if_pos room]
  have taken : (r.queue ++ [m]).filterMap Message.event? =
      r.queue.filterMap Message.event? ++ m.event?.toList := by
    rw [List.filterMap_append]
    cases m <;> rfl
  rw [accepted]
  refine ⟨rfl, ⟨?_, h.errors, ?_⟩, ⟨serving.running, serving.isOpen, serving.isClosed, serving.goesOn,
    serving.room⟩⟩
  · simp only [taken]
    exact h.takes.append takes
  · exact fun settled => absurd settled (not_settled (.inl serving.running))

/-- A message that the handler can take in its turn is accepted. -/
theorem send (h : Heads handle goal r) (serving : Serving r) {m : Message}
    (takes : Takes handle goal m.event?.toList goal') :
    (r.send handle m).1 = .accepted ∧ Heads handle goal' (r.send handle m).2 ∧
      Serving (r.send handle m).2 := by
  have admitted : r.enqueue m = r.offer m := by
    unfold enqueue admits
    rw [serving.isClosed]
    rfl
  unfold Runner.send
  rw [admitted]
  by_cases room : r.queue.length < r.capacity
  · obtain ⟨accepted, heads, serving⟩ := h.offer serving room takes
    rcases hr : r.offer m with ⟨answer, r'⟩
    rw [hr] at accepted heads serving
    cases accepted
    exact ⟨rfl, heads, serving⟩
  · -- The queue is full, so it is not empty, and the owner makes room.
    have full : r.offer m = (.full, r) := by
      unfold Runner.offer
      rw [if_neg (by simp [serving.isOpen]), if_neg room]
    have canStep : r.canStep = true := by
      have busy : r.queue ≠ [] := fun idle => room (by simpa [idle] using serving.room)
      simp [canStep, serving.running, busy]
    obtain ⟨serving', idle⟩ := h.settle_idle serving
    rw [full]
    simp only [canStep, if_true]
    refine Heads.offer (h.run _) serving' ?_ takes
    exact idle ▸ serving'.room

theorem sync (h : Heads handle goal r) (serving : Serving r) :
    Heads handle goal (r.sync handle).2 ∧ Serving (r.sync handle).2 := by
  have ticketed : Heads handle goal r.ticket.2 := ⟨h.takes, h.errors, h.settled⟩
  have waiting : Serving r.ticket.2 :=
    ⟨serving.running, serving.isOpen, serving.isClosed, serving.goesOn, serving.room⟩
  obtain ⟨accepted, heads, serving'⟩ := ticketed.send waiting (m := .sync r.ticket.1) (.done goal)
  unfold Runner.sync
  rcases hr : r.ticket.2.send handle (.sync r.ticket.1) with ⟨answer, r'⟩
  rw [hr] at accepted heads serving'
  cases accepted
  simp only [hr]
  split
  · exact ⟨heads.run _, (heads.settle_idle serving').1⟩
  · split <;> exact ⟨heads.run _, (heads.settle_idle serving').1⟩

/-- Once it is closed the handler has taken all that was sent. -/
theorem close (h : Heads handle goal r) (serving : Serving r) :
    (r.close handle).handler = goal ∧ (r.close handle).errors = [] := by
  have told : r.beginClose = { r with isClosed := true, isShutdown := true } := by
    unfold beginClose
    rw [serving.running]
  have closing : Heads handle goal r.beginClose := by
    rw [told]
    exact ⟨h.takes, h.errors, h.settled⟩
  have heads : Heads handle goal (r.close handle) := closing.run _
  have takes := heads.takes
  rw [heads.settled (.inr (close_ended handle r))] at takes
  obtain ⟨⟩ := takes
  exact ⟨rfl, heads.errors⟩

end Heads

end ChainIndex.Runner
