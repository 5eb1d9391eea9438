import ChainIndex.Proofs.Runner.Service

/-!
# The queue of a runner and its owner

* `Runner.Steady`: in what order messages were settled (`Runner.InOrder`), how many wait, and what the owner
  leaves behind when it ends. Whatever happens to a runner keeps it.
* `Runner.close_ended`: an owner that was told to end does so.
* `Runner.Later`: what only grows on a runner.
* `Runner.Shut`: a runner that is closed and whose owner has ended stays so.
-/

namespace ChainIndex

variable {σ : Type}

namespace Runner

/-! ## The owner and the queue -/

/-- Whether an event failed so that no other one can be applied. -/
def HasFailed (r : Runner σ) : Prop := ∃ e ∈ r.errors, e.isFatal = true

theorem offer_room {r : Runner σ} {m : Message} (ok : (r.offer m).1 = .accepted) :
    r.queue.length < r.capacity := by
  unfold offer at ok
  split at ok
  · cases ok
  · split at ok
    · assumption
    · cases ok

/-- A runner with the messages it accepted: they are in order, not too many wait, and an owner that was
started and ends without a fatal error has applied every accepted event. -/
structure Steady (queueSize : Nat) (accepted : List Message) (isBegun : Bool)
    (r : Runner (σ × List (ChainEvent × Answer))) : Prop where
  order : InOrder Prod.snd accepted r
  capacity : r.capacity = max queueSize 1
  room : r.queue.length ≤ max queueSize 1
  unstarted : r.owner = .unstarted → isBegun = false
  draining : r.owner = .draining → r.isOpen = false
  finishing : r.owner = .finishing → r.HasFailed ∨ r.isOpen = false ∧ r.queue = []
  ended : r.owner = .ended → r.queue = [] ∧ (isBegun = true →
    r.HasFailed ∨ r.handler.2.map (·.1) = accepted.filterMap Message.event?)

namespace Steady

variable {queueSize : Nat} {accepted : List Message} {isBegun : Bool}
  {r : Runner (σ × List (ChainEvent × Answer))}

theorem new (handler : σ) : Steady queueSize [] false (.new (handler, []) queueSize) where
  order := ⟨⟨[], [], rfl, rfl, rfl, .inl rfl⟩, nofun, rfl, nofun, nofun⟩
  capacity := rfl
  room := Nat.zero_le _
  unstarted _ := rfl
  draining := nofun
  finishing := nofun
  ended := nofun

/-- An owner that ends before it was started leaves the queue behind. -/
theorem dropped (h : Steady queueSize accepted isBegun r) (unstarted : r.owner = .unstarted)
    (isClosed isShutdown : Bool) : Steady queueSize accepted isBegun
      { r with owner := .ended, isOpen := false, queue := [], isClosed, isShutdown } where
  order := h.order.dropped (by rw [unstarted]; decide) isClosed isShutdown
  capacity := h.capacity
  room := Nat.zero_le _
  unstarted := nofun
  draining := nofun
  finishing := nofun
  ended _ := ⟨rfl, fun begun => by rw [h.unstarted unstarted] at begun; cases begun⟩

theorem start (h : Steady queueSize accepted isBegun r) :
    Steady queueSize accepted (isBegun || r.start.owner == .running) r.start := by
  have order := h.order.start
  obtain hr | ⟨unstarted, hr | hr⟩ := r.start_cases
  · rw [hr]
    cases running : r.owner == .running with
    | false => rwa [Bool.or_false]
    | true =>
      have running : r.owner = .running := eq_of_beq running
      exact ⟨h.order, h.capacity, h.room, by simp [running], h.draining, h.finishing,
        by simp [running]⟩
  · rw [hr, show (Owner.ended == Owner.running) = false from rfl, Bool.or_false]
    exact h.dropped unstarted r.isClosed r.isShutdown
  · rw [hr] at order ⊢
    exact ⟨order, h.capacity, h.room, nofun, nofun, nofun, nofun⟩

theorem offer (h : Steady queueSize accepted isBegun r) {m : Message}
    (ok : (r.offer m).1 = .accepted) : Steady queueSize (accepted ++ [m]) isBegun (r.offer m).2 := by
  have order := h.order.offer ok
  have room := offer_room ok
  obtain ⟨isOpen, hr⟩ := offer_accepted ok
  rw [hr] at order ⊢
  refine ⟨order, h.capacity, ?_, h.unstarted, h.draining, fun finishing => .inl ?_, fun ended => ?_⟩
  · rw [h.capacity] at room
    simpa only [List.length_append, List.length_singleton] using Nat.succ_le_of_lt room
  · exact (h.finishing finishing).resolve_right fun shut => by simp [shut.1] at isOpen
  · simp [h.order.shut ended] at isOpen

/-- Taking no more messages. -/
theorem drain (h : Steady queueSize accepted isBegun r) (running : r.owner = .running) :
    Steady queueSize accepted isBegun { r with owner := .draining, isOpen := false } where
  order := h.order.drain running
  capacity := h.capacity
  room := h.room
  unstarted := nofun
  draining _ := rfl
  finishing := nofun
  ended := nofun

/-- As long as messages are settled it only matters that there are no more of them. -/
theorem settle (h : Steady queueSize accepted isBegun r)
    (alive : r.owner = .running ∨ r.owner = .draining)
    {r' : Runner (σ × List (ChainEvent × Answer))} (order : InOrder Prod.snd accepted r')
    (capacity : r'.capacity = r.capacity) (queue : r'.queue.length ≤ r.queue.length)
    (isOpen : r'.isOpen = r.isOpen)
    (owner : r'.owner = r.owner ∨ r'.owner = .finishing ∧ r'.HasFailed) :
    Steady queueSize accepted isBegun r' := by
  refine ⟨order, capacity.trans h.capacity, Nat.le_trans queue h.room, ?_, ?_, ?_, ?_⟩ <;>
    intro owner_eq <;> rw [owner_eq] at owner
  · obtain owner | ⟨owner, -⟩ := owner
    · exact h.unstarted owner.symm
    · cases owner
  · obtain owner | ⟨owner, -⟩ := owner
    · exact isOpen.trans (h.draining owner.symm)
    · cases owner
  · obtain owner | ⟨-, failed⟩ := owner
    · rcases alive with ha | ha <;> rw [ha] at owner <;> cases owner
    · exact .inl failed
  · obtain owner | ⟨owner, -⟩ := owner
    · rcases alive with ha | ha <;> rw [ha] at owner <;> cases owner
    · cases owner

theorem owner (h : Steady queueSize accepted isBegun r) (handle : Handler σ) :
    Steady queueSize accepted isBegun (r.ownerStep (noting handle)) := by
  have notes : ∀ e s, (noting handle e s).2.2 = s.2 ++ [(e, (noting handle e s).1)] :=
    fun _ _ => rfl
  have order := h.order.owner notes
  have hs := r.ownerStep_stepped (noting handle)
  generalize r.ownerStep (noting handle) = r' at hs order ⊢
  cases hs with
  | rests => exact h
  | acknowledges ticket rest queue alive =>
    exact h.settle alive order rfl (by simp [queue]) rfl (.inl rfl)
  | applies e rest queue alive answer =>
    exact h.settle alive order rfl (by simp [queue]) rfl (.inl rfl)
  | fails e rest queue alive error answer =>
    refine h.settle alive order rfl (by simp [queue]) rfl ?_
    by_cases fatal : error.isFatal = true
    · exact .inr ⟨if_pos fatal, error, by simp, fatal⟩
    · exact .inl (if_neg fatal)
  | drains queue running shutdown => exact h.drain running
  | finishes queue draining =>
    exact ⟨order, h.capacity, h.room, nofun, nofun,
      fun _ => .inr ⟨h.draining draining, queue⟩, nofun⟩
  | ends finishing =>
    refine ⟨order, h.capacity, Nat.zero_le _, nofun, nofun, nofun, fun _ => ⟨rfl, fun _ => ?_⟩⟩
    refine (h.finishing finishing).imp id fun ⟨_, empty⟩ => ?_
    obtain ⟨done, accepted_eq, events, -⟩ :=
      h.order.settled_of_ne (show r.owner ≠ .ended by rw [finishing]; decide)
    rw [accepted_eq, empty, List.append_nil]
    exact events.symm

theorem close (h : Steady queueSize accepted isBegun r) :
    Steady queueSize accepted isBegun r.beginClose := by
  have order := h.order.close
  obtain hr | ⟨unstarted, hr⟩ := r.beginClose_cases
  · rw [hr] at order ⊢
    exact ⟨order, h.capacity, h.room, h.unstarted, h.draining, h.finishing, h.ended⟩
  · rw [hr]
    exact h.dropped unstarted true true

/-- The flag, the numbers of syncs and the handler itself are of no account. -/
theorem congr (h : Steady queueSize accepted isBegun r) (handler : σ) (isClosed : Bool)
    (nextTicket : Nat) : Steady queueSize accepted isBegun
      { r with handler := (handler, r.handler.2), isClosed, nextTicket } where
  order := ⟨h.order.settled, h.order.shut, h.order.errors_eq, h.order.alive, h.order.final⟩
  capacity := h.capacity
  room := h.room
  unstarted := h.unstarted
  draining := h.draining
  finishing := h.finishing
  ended := h.ended

end Steady

/-! ## The end of the owner -/

/-- How many steps an owner takes at most that was told to end. -/
def remaining (r : Runner σ) : Nat :=
  match r.owner with
  | .unstarted | .running => r.queue.length + 3
  | .draining => r.queue.length + 2
  | .finishing => 1
  | .ended => 0

theorem apply_fields (handle : Handler σ) (r : Runner σ) (m : Message) :
    (apply handle r m).queue = r.queue ∧ (apply handle r m).isShutdown = r.isShutdown ∧
      ((apply handle r m).owner = r.owner ∨ (apply handle r m).owner = .finishing) := by
  cases m with
  | sync ticket => exact ⟨rfl, rfl, .inl rfl⟩
  | event e =>
    simp only [apply]
    rcases handle e r.handler with ⟨error | _, handler⟩
    · refine ⟨rfl, rfl, ?_⟩
      by_cases fatal : error.isFatal = true
      · exact .inr (if_pos fatal)
      · exact .inl (if_neg fatal)
    · exact ⟨rfl, rfl, .inl rfl⟩

/-- A message that is settled is a step less. -/
theorem remaining_apply (handle : Handler σ) {r : Runner σ} {m : Message} {rest : List Message}
    (queue : r.queue = m :: rest) (alive : r.owner = .running ∨ r.owner = .draining) :
    (apply handle { r with queue := rest } m).remaining < r.remaining := by
  obtain ⟨hqueue, -, howner⟩ := apply_fields handle { r with queue := rest } m
  unfold remaining
  rw [hqueue]
  rcases howner with howner | howner <;> rw [howner] <;> rcases alive with ha | ha <;>
    simp only [ha, queue, List.length_cons] <;> omega

theorem remaining_ownerStep (handle : Handler σ) {r : Runner σ} (shutdown : r.isShutdown = true)
    (canStep : r.canStep = true) :
    (r.ownerStep handle).isShutdown = true ∧ (r.ownerStep handle).remaining < r.remaining := by
  unfold ownerStep
  split
  · simp_all [Runner.canStep]
  · simp_all [Runner.canStep]
  · rename_i running queue
    exact ⟨(apply_fields ..).2.1.trans shutdown, remaining_apply handle queue (.inl running)⟩
  · rename_i running queue
    rw [if_pos shutdown]
    exact ⟨shutdown, by simp [remaining, running]⟩
  · rename_i draining queue
    exact ⟨(apply_fields ..).2.1.trans shutdown, remaining_apply handle queue (.inr draining)⟩
  · rename_i draining queue
    exact ⟨shutdown, by simp [remaining, draining]⟩
  · rename_i finishing
    exact ⟨shutdown, by simp [remaining, finishing]⟩

theorem ownerStep_begun (handle : Handler σ) {r : Runner σ} (begun : r.owner ≠ .unstarted) :
    (r.ownerStep handle).owner ≠ .unstarted := by
  have hs := r.ownerStep_stepped handle
  generalize r.ownerStep handle = r' at hs ⊢
  cases hs with
  | rests | acknowledges | applies => exact begun
  | fails e rest queue alive error answer =>
    by_cases fatal : error.isFatal = true
    · rw [if_pos fatal]; nofun
    · rw [if_neg fatal]; exact begun
  | drains | finishes | ends => nofun

theorem run_ended (handle : Handler σ) (steps : Nat) {r : Runner σ} (shutdown : r.isShutdown = true)
    (begun : r.owner ≠ .unstarted) (enough : r.remaining ≤ steps) :
    (run handle steps r).owner = .ended := by
  induction steps generalizing r with
  | zero =>
    unfold remaining at enough
    cases owner : r.owner <;> simp_all [run]
  | succ steps ih =>
    unfold run
    split
    · rename_i canStep
      obtain ⟨shutdown', less⟩ := remaining_ownerStep handle shutdown canStep
      exact ih shutdown' (ownerStep_begun handle begun) (by omega)
    · rename_i rests
      cases owner : r.owner <;> simp_all [Runner.canStep]

/-- An owner that was told to end does so, whatever its handler answers. -/
theorem close_ended (handle : Handler σ) (r : Runner σ) : (r.close handle).owner = .ended := by
  unfold close settle beginClose
  split
  · rfl
  · rename_i begun
    refine run_ended handle _ rfl begun ?_
    unfold remaining
    split <;> simp

/-! ## Later runners -/

/-- What only grows on a runner. -/
structure Later (r r' : Runner σ) : Prop where
  acknowledged : r.acknowledged ⊆ r'.acknowledged
  nextTicket : r'.nextTicket = r.nextTicket
  isClosed : r.isClosed = true → r'.isClosed = true
  ended : r.owner = .ended → r'.owner = .ended

theorem start_later (r : Runner σ) : Later r r.start := by
  obtain hr | ⟨unstarted, hr | hr⟩ := r.start_cases <;> rw [hr]
  · exact ⟨fun _ => id, rfl, id, id⟩
  · exact ⟨fun _ => id, rfl, id, fun _ => rfl⟩
  · exact ⟨fun _ => id, rfl, id, fun ended => by rw [unstarted] at ended; cases ended⟩

theorem ownerStep_later (handle : Handler σ) (r : Runner σ) : Later r (r.ownerStep handle) := by
  have hs := r.ownerStep_stepped handle
  generalize r.ownerStep handle = r' at hs ⊢
  have ne_ended (alive : r.owner = .running ∨ r.owner = .draining) (owner : Owner) :
      r.owner = .ended → owner = .ended := fun ended => absurd ended (InOrder.alive_ne alive)
  cases hs with
  | rests => exact ⟨fun _ => id, rfl, id, id⟩
  | acknowledges => exact ⟨fun _ => List.mem_append_left _, rfl, id, id⟩
  | applies => exact ⟨fun _ => id, rfl, id, id⟩
  | fails e rest queue alive => exact ⟨fun _ => id, rfl, id, ne_ended alive _⟩
  | drains queue running => exact ⟨fun _ => id, rfl, id, ne_ended (.inl running) _⟩
  | finishes queue draining => exact ⟨fun _ => id, rfl, id, ne_ended (.inr draining) _⟩
  | ends => exact ⟨fun _ => id, rfl, fun _ => rfl, fun _ => rfl⟩

theorem beginClose_later (r : Runner σ) : Later r r.beginClose := by
  obtain hr | ⟨-, hr⟩ := r.beginClose_cases <;> rw [hr]
  · exact ⟨fun _ => id, rfl, fun _ => rfl, id⟩
  · exact ⟨fun _ => id, rfl, fun _ => rfl, fun _ => rfl⟩

/-! ## After the end -/

/-- The runner is closed and its owner has ended. -/
structure Shut (r : Runner σ) : Prop where
  isClosed : r.isClosed = true
  ended : r.owner = .ended
  isOpen : r.isOpen = false

namespace Shut

variable {r : Runner σ}

theorem congr (h : r.Shut) (handler : σ) {isClosed : Bool} (closed : isClosed = true)
    (isShutdown : Bool) (nextTicket : Nat) :
    Shut { r with handler, isClosed, isShutdown, nextTicket } := ⟨closed, h.ended, h.isOpen⟩

theorem start_eq (h : r.Shut) : r.start = r := by
  unfold start
  rw [h.ended]

theorem ownerStep_eq (h : r.Shut) (handle : Handler σ) : r.ownerStep handle = r := by
  unfold ownerStep
  rw [h.ended]

theorem beginClose_eq (h : r.Shut) : r.beginClose = { r with isShutdown := true } := by
  unfold beginClose
  rw [h.ended, ← h.isClosed]

theorem offer_eq (h : r.Shut) (m : Message) : r.offer m = (.refused, r) := by
  simp [offer, h.isOpen]

theorem enqueue_eq (h : r.Shut) (m : Message) : r.enqueue m = (.refused, r) := by
  simp [enqueue, admits, h.isClosed]

end Shut

end Runner

end ChainIndex
