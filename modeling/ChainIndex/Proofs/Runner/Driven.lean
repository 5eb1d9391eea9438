import ChainIndex.Proofs.Indexer.Session

/-!
# Runs of a runner

* `Runner.Stepped`: what one step of the owner comes to (`Runner.ownerStep_stepped`).
* `Runner.Driven`: what can become of a new runner by starting, accepted messages, steps of the owner and
  closing, in any order. At each step the owner may have another handler, so that what the handler
  meets can change from one event to the next.
* `Runner.InOrder`: the accepted messages are those that were applied or acknowledged, followed by those in
  the queue and, once the owner has ended, by those that were dropped; the errors are those of the applied
  events; and nothing is applied after a fatal one.
-/

namespace ChainIndex

/-- The event of a message. -/
def Message.event? : Message → Option ChainEvent
  | .event e => some e
  | .sync _ => none

@[simp] theorem Message.event?_event (e : ChainEvent) : (event e).event? = some e := rfl

@[simp] theorem Message.event?_sync (ticket : Nat) : (sync ticket).event? = none := rfl

/-- The number of a sync. -/
def Message.ticket? : Message → Option Nat
  | .event _ => none
  | .sync ticket => some ticket

@[simp] theorem Message.ticket?_event (e : ChainEvent) : (event e).ticket? = none := rfl

@[simp] theorem Message.ticket?_sync (ticket : Nat) : (sync ticket).ticket? = some ticket := rfl

/-- The error of an answer. -/
def Answer.error? : Answer → Option IndexerError
  | .ok () => none
  | .error e => some e

namespace Runner

variable {σ : Type}

/-! ## One step -/

/-- What a step of the owner comes to. -/
inductive Stepped (handle : Handler σ) (r : Runner σ) : Runner σ → Prop
  | rests : Stepped handle r r
  | acknowledges (ticket : Nat) (rest : List Message) (queue : r.queue = .sync ticket :: rest)
      (alive : r.owner = .running ∨ r.owner = .draining) :
      Stepped handle r { r with queue := rest, acknowledged := r.acknowledged ++ [ticket] }
  | applies (e : ChainEvent) (rest : List Message) (queue : r.queue = .event e :: rest)
      (alive : r.owner = .running ∨ r.owner = .draining)
      (answer : (handle e r.handler).1 = .ok ()) :
      Stepped handle r { r with queue := rest, handler := (handle e r.handler).2 }
  | fails (e : ChainEvent) (rest : List Message) (queue : r.queue = .event e :: rest)
      (alive : r.owner = .running ∨ r.owner = .draining) (error : IndexerError)
      (answer : (handle e r.handler).1 = .error error) :
      Stepped handle r
        { r with
          queue := rest
          handler := (handle e r.handler).2
          errors := r.errors ++ [error]
          owner := if error.isFatal then .finishing else r.owner }
  | drains (queue : r.queue = []) (running : r.owner = .running) (shutdown : r.isShutdown = true) :
      Stepped handle r { r with owner := .draining, isOpen := false }
  | finishes (queue : r.queue = []) (draining : r.owner = .draining) :
      Stepped handle r { r with owner := .finishing }
  | ends (finishing : r.owner = .finishing) :
      Stepped handle r { r with owner := .ended, isOpen := false, isClosed := true, queue := [] }

theorem apply_stepped (handle : Handler σ) {r : Runner σ} {m : Message} {rest : List Message}
    (queue : r.queue = m :: rest) (alive : r.owner = .running ∨ r.owner = .draining) :
    Stepped handle r (apply handle { r with queue := rest } m) := by
  cases m with
  | sync ticket => exact .acknowledges ticket rest queue alive
  | event e =>
    simp only [apply]
    split
    · rename_i s h
      have : Stepped handle r _ := .applies e rest queue alive (by rw [h])
      simpa only [h] using this
    · rename_i error s h
      have : Stepped handle r _ := .fails e rest queue alive error (by rw [h])
      simpa only [h] using this

theorem ownerStep_stepped (handle : Handler σ) (r : Runner σ) :
    Stepped handle r (r.ownerStep handle) := by
  unfold ownerStep
  split
  · exact .rests
  · exact .rests
  · rename_i running queue
    exact apply_stepped handle queue (.inl running)
  · rename_i running queue
    split
    · rename_i shutdown
      exact .drains queue running shutdown
    · exact .rests
  · rename_i draining queue
    exact apply_stepped handle queue (.inr draining)
  · rename_i draining queue
    exact .finishes queue draining
  · rename_i finishing
    exact .ends finishing

theorem start_cases (r : Runner σ) :
    r.start = r ∨ r.owner = .unstarted ∧
      (r.start = { r with owner := .ended, isOpen := false, queue := [] } ∨
        r.start = { r with owner := .running }) := by
  unfold start
  split
  · rename_i unstarted
    split
    · exact .inr ⟨unstarted, .inl rfl⟩
    · exact .inr ⟨unstarted, .inr rfl⟩
  · exact .inl rfl

theorem beginClose_cases (r : Runner σ) :
    r.beginClose = { r with isClosed := true, isShutdown := true } ∨
    r.owner = .unstarted ∧ r.beginClose =
      { r with isClosed := true, isShutdown := true, owner := .ended, isOpen := false, queue := [] } := by
  unfold beginClose
  split
  · rename_i unstarted
    exact .inr ⟨unstarted, rfl⟩
  · exact .inl rfl

theorem offer_accepted {r : Runner σ} {m : Message} (ok : (r.offer m).1 = .accepted) :
    r.isOpen = true ∧ (r.offer m).2 = { r with queue := r.queue ++ [m] } := by
  unfold offer at ok ⊢
  split at ok
  · cases ok
  · rename_i isOpen
    split at ok
    · rename_i room
      exact ⟨by simpa using isOpen, by rw [if_neg isOpen, if_pos room]⟩
    · cases ok

/-! ## Runs -/

/-- What can become of a new runner with the messages it accepted; at each step of the owner any of some
handlers answers. -/
inductive Driven (handles : Handler σ → Prop) (s : σ) (queueSize : Nat) :
    List Message → Runner σ → Prop
  | new : Driven handles s queueSize [] (.new s queueSize)
  | start {accepted : List Message} {r : Runner σ} (h : Driven handles s queueSize accepted r) :
      Driven handles s queueSize accepted r.start
  | offer {accepted : List Message} {r : Runner σ} (h : Driven handles s queueSize accepted r)
      (m : Message) (ok : (r.offer m).1 = .accepted) :
      Driven handles s queueSize (accepted ++ [m]) (r.offer m).2
  | ticket {accepted : List Message} {r : Runner σ} (h : Driven handles s queueSize accepted r) :
      Driven handles s queueSize accepted r.ticket.2
  | owner {accepted : List Message} {r : Runner σ} (h : Driven handles s queueSize accepted r)
      (handle : Handler σ) (allowed : handles handle) :
      Driven handles s queueSize accepted (r.ownerStep handle)
  | close {accepted : List Message} {r : Runner σ} (h : Driven handles s queueSize accepted r) :
      Driven handles s queueSize accepted r.beginClose

/-- What every handler keeps holds all through a run. -/
theorem Driven.keeps {handles : Handler σ → Prop} {s : σ} {queueSize : Nat}
    {accepted : List Message} {r : Runner σ} (h : Driven handles s queueSize accepted r)
    {P : σ → Prop} (init : P s)
    (step : ∀ handle, handles handle → ∀ e s, P s → P (handle e s).2) : P r.handler := by
  induction h with
  | new => exact init
  | @start _ r _ ih => obtain h | ⟨-, h | h⟩ := r.start_cases <;> rw [h] <;> exact ih
  | offer _ m ok ih => rw [(offer_accepted ok).2]; exact ih
  | ticket _ ih => exact ih
  | @owner _ r _ handle allowed ih =>
    have hs := r.ownerStep_stepped handle
    generalize r.ownerStep handle = r' at hs ⊢
    cases hs with
    | applies e | fails e => exact step handle allowed e r.handler ih
    | rests | acknowledges | drains | finishes | ends => exact ih
  | @close _ r _ ih => obtain h | ⟨-, h⟩ := r.beginClose_cases <;> rw [h] <;> exact ih

/-! ## Order -/

/-- The accepted messages are those that were settled, those in the queue, and those that were dropped in
the end. Of the settled ones the events are the applied ones, and the syncs are those that were
acknowledged. The errors are those of the applied events, of which at most the last one was answered
with a fatal error. -/
structure InOrder (log : σ → List (ChainEvent × Answer)) (accepted : List Message)
    (r : Runner σ) : Prop where
  settled : ∃ done dropped, accepted = done ++ r.queue ++ dropped ∧
    done.filterMap Message.event? = (log r.handler).map (·.1) ∧
    done.filterMap Message.ticket? = r.acknowledged ∧ (dropped = [] ∨ r.owner = .ended)
  shut : r.owner = .ended → r.isOpen = false
  errors_eq : r.errors = (log r.handler).filterMap fun a => a.2.error?
  alive : (∃ e ∈ r.errors, e.isFatal = true) → r.owner = .finishing ∨ r.owner = .ended
  final : ∀ a ∈ (log r.handler).dropLast, ∀ e, a.2.error? = some e → e.isFatal = false

namespace InOrder

variable {log : σ → List (ChainEvent × Answer)} {accepted : List Message} {r : Runner σ}

/-- The accepted events are the applied ones, those in the queue, and those that were dropped. -/
theorem accepted_eq (h : InOrder log accepted r) :
    ∃ dropped, accepted.filterMap Message.event? =
      (log r.handler).map (·.1) ++ r.queue.filterMap Message.event? ++ dropped ∧
        (dropped = [] ∨ r.owner = .ended) := by
  obtain ⟨done, dropped, rfl, events, -, hdropped⟩ := h.settled
  refine ⟨dropped.filterMap Message.event?, ?_, ?_⟩
  · rw [List.filterMap_append, List.filterMap_append, events]
  · exact hdropped.imp (fun h => by rw [h]; rfl) id

/-- Nothing was dropped before the end. -/
theorem settled_of_ne (h : InOrder log accepted r) (ne : r.owner ≠ .ended) :
    ∃ done, accepted = done ++ r.queue ∧
      done.filterMap Message.event? = (log r.handler).map (·.1) ∧
      done.filterMap Message.ticket? = r.acknowledged := by
  obtain ⟨done, dropped, rfl, events, tickets, rfl | ended⟩ := h.settled
  · exact ⟨done, List.append_nil _, events, tickets⟩
  · exact absurd ended ne

/-- At most the last error is fatal. -/
theorem last (h : InOrder log accepted r) : ∀ e ∈ r.errors.dropLast, e.isFatal = false := by
  intro e he
  have hlog := h.final
  rw [h.errors_eq] at he
  generalize log r.handler = entries at he hlog
  rcases entries.eq_nil_or_concat with rfl | ⟨front, entry, rfl⟩
  · cases he
  · rw [List.concat_eq_append] at he hlog
    rw [List.dropLast_concat] at hlog
    have hfront : e ∈ front.filterMap fun a => a.2.error? := by
      rw [List.filterMap_append] at he
      cases hentry : entry.2.error? with
      | none =>
        simp only [List.filterMap_cons, hentry, List.filterMap_nil, List.append_nil] at he
        exact (List.dropLast_sublist _).subset he
      | some e' =>
        simpa only [List.filterMap_cons, hentry, List.filterMap_nil, List.dropLast_concat] using he
    obtain ⟨a, ha, hae⟩ := List.mem_filterMap.1 hfront
    exact hlog a ha e hae

/-- As long as events are applied, no error was fatal. -/
theorem not_fatal (h : InOrder log accepted r) (alive : r.owner = .running ∨ r.owner = .draining) :
    ∀ e ∈ r.errors, e.isFatal = false := by
  intro e he
  cases hf : e.isFatal with
  | false => rfl
  | true =>
    rcases h.alive ⟨e, he, hf⟩ with ho | ho <;> rcases alive with ha | ha <;> rw [ho] at ha <;>
      cases ha

/-- Nor was the answer to an applied event. -/
theorem not_fatal_answer (h : InOrder log accepted r)
    (alive : r.owner = .running ∨ r.owner = .draining) :
    ∀ a ∈ log r.handler, ∀ e, a.2.error? = some e → e.isFatal = false := by
  intro a ha e he
  refine h.not_fatal alive e ?_
  rw [h.errors_eq]
  exact List.mem_filterMap.2 ⟨a, ha, he⟩

theorem alive_ne {r : Runner σ} (alive : r.owner = .running ∨ r.owner = .draining) :
    r.owner ≠ .ended := by
  rcases alive with ha | ha <;> rw [ha] <;> decide

/-- Dropping the queue in the end. -/
theorem dropped (h : InOrder log accepted r) (ne : r.owner ≠ .ended) (isClosed isShutdown : Bool) :
    InOrder log accepted
      { r with owner := .ended, isOpen := false, queue := [], isClosed, isShutdown } := by
  obtain ⟨done, accepted_eq, events, tickets⟩ := h.settled_of_ne ne
  refine ⟨⟨done, r.queue, ?_, events, tickets, .inr rfl⟩, fun _ => rfl, h.errors_eq, fun _ => .inr rfl,
    h.final⟩
  rw [accepted_eq, List.append_nil]

theorem offer (h : InOrder log accepted r) {m : Message} (ok : (r.offer m).1 = .accepted) :
    InOrder log (accepted ++ [m]) (r.offer m).2 := by
  obtain ⟨isOpen, hr⟩ := offer_accepted ok
  have ne : r.owner ≠ .ended := fun ended => by simp [h.shut ended] at isOpen
  obtain ⟨done, accepted_eq, events, tickets⟩ := h.settled_of_ne ne
  rw [hr]
  refine ⟨⟨done, [], ?_, events, tickets, .inl rfl⟩, h.shut, h.errors_eq, h.alive, h.final⟩
  simp [accepted_eq]

theorem start (h : InOrder log accepted r) : InOrder log accepted r.start := by
  obtain hr | ⟨unstarted, hr | hr⟩ := r.start_cases
  · rw [hr]; exact h
  · rw [hr]; exact h.dropped (by rw [unstarted]; decide) r.isClosed r.isShutdown
  · obtain ⟨done, accepted_eq, events, tickets⟩ :=
      h.settled_of_ne (show r.owner ≠ .ended by rw [unstarted]; decide)
    rw [hr]
    refine ⟨⟨done, [], by simpa using accepted_eq, events, tickets, .inl rfl⟩, nofun, h.errors_eq,
      fun fatal => ?_, h.final⟩
    rcases h.alive fatal with ho | ho <;> rw [unstarted] at ho <;> cases ho

theorem close (h : InOrder log accepted r) : InOrder log accepted r.beginClose := by
  obtain hr | ⟨unstarted, hr⟩ := r.beginClose_cases
  · rw [hr]; exact ⟨h.settled, h.shut, h.errors_eq, h.alive, h.final⟩
  · rw [hr]; exact h.dropped (by rw [unstarted]; decide) true true

/-- Taking no more messages, also while some are queued. -/
theorem drain (h : InOrder log accepted r) (running : r.owner = .running) :
    InOrder log accepted { r with owner := .draining, isOpen := false } := by
  obtain ⟨done, accepted_eq, events, tickets⟩ := h.settled_of_ne (alive_ne (.inl running))
  refine ⟨⟨done, [], by simpa using accepted_eq, events, tickets, .inl rfl⟩, nofun, h.errors_eq,
    fun ⟨e, he, hf⟩ => ?_, h.final⟩
  rw [h.not_fatal (.inl running) e he] at hf
  cases hf

/-- A step of the owner keeps the order, if the handler notes events with their answers. -/
theorem owner (h : InOrder log accepted r) {handle : Handler σ}
    (notes : ∀ e s, log (handle e s).2 = log s ++ [(e, (handle e s).1)]) :
    InOrder log accepted (r.ownerStep handle) := by
  have hs := r.ownerStep_stepped handle
  generalize r.ownerStep handle = r' at hs ⊢
  cases hs with
  | rests => exact h
  | acknowledges ticket rest queue alive =>
    obtain ⟨done, accepted_eq, events, tickets⟩ := h.settled_of_ne (alive_ne alive)
    refine ⟨⟨done ++ [.sync ticket], [], ?_, ?_, ?_, .inl rfl⟩, h.shut, h.errors_eq, h.alive, h.final⟩
    · simp [accepted_eq, queue]
    · simp [List.filterMap_append, List.filterMap_cons, events]
    · simp [tickets]
  | applies e rest queue alive answer =>
    obtain ⟨done, accepted_eq, events, tickets⟩ := h.settled_of_ne (alive_ne alive)
    refine ⟨⟨done ++ [.event e], [], ?_, ?_, ?_, .inl rfl⟩, h.shut, ?_, h.alive, ?_⟩
    · simp [accepted_eq, queue]
    · simp [events, notes]
    · simp [List.filterMap_append, List.filterMap_cons, tickets]
    · simp [h.errors_eq, notes, answer, Answer.error?]
    · simpa [notes] using h.not_fatal_answer alive
  | fails e rest queue alive error answer =>
    obtain ⟨done, accepted_eq, events, tickets⟩ := h.settled_of_ne (alive_ne alive)
    refine ⟨⟨done ++ [.event e], [], ?_, ?_, ?_, .inl rfl⟩, fun ended => ?_, ?_, fun fatal => ?_, ?_⟩
    · simp [accepted_eq, queue]
    · simp [events, notes]
    · simp [List.filterMap_append, List.filterMap_cons, tickets]
    · simp only at ended
      split at ended
      · cases ended
      · exact absurd ended (alive_ne alive)
    · simp [h.errors_eq, notes, answer, Answer.error?]
    · obtain ⟨e', he, hf⟩ := fatal
      rcases List.mem_append.1 he with he | he
      · rw [h.not_fatal alive e' he] at hf; cases hf
      · rw [List.mem_singleton.1 he] at hf
        exact .inl (if_pos hf)
    · simpa [notes] using h.not_fatal_answer alive
  | drains queue running shutdown => exact h.drain running
  | finishes queue draining =>
    obtain ⟨done, accepted_eq, events, tickets⟩ := h.settled_of_ne (alive_ne (.inr draining))
    exact ⟨⟨done, [], by simpa using accepted_eq, events, tickets, .inl rfl⟩, nofun, h.errors_eq,
      fun _ => .inl rfl, h.final⟩
  | ends finishing => exact h.dropped (by rw [finishing]; decide) true r.isShutdown

end InOrder

theorem Driven.inOrder {log : σ → List (ChainEvent × Answer)} {handles : Handler σ → Prop} {s : σ}
    {queueSize : Nat} {accepted : List Message} {r : Runner σ}
    (h : Driven handles s queueSize accepted r) (fresh : log s = [])
    (notes : ∀ handle, handles handle →
      ∀ e s, log (handle e s).2 = log s ++ [(e, (handle e s).1)]) : InOrder log accepted r := by
  induction h with
  | new =>
    refine ⟨⟨[], [], rfl, ?_, rfl, .inl rfl⟩, nofun, ?_, nofun, ?_⟩ <;> simp [Runner.new, fresh]
  | start _ ih => exact ih.start
  | offer _ m ok ih => exact ih.offer ok
  | ticket _ ih => exact ⟨ih.settled, ih.shut, ih.errors_eq, ih.alive, ih.final⟩
  | owner _ handle allowed ih => exact ih.owner (notes handle allowed)
  | close _ ih => exact ih.close

end Runner

end ChainIndex
