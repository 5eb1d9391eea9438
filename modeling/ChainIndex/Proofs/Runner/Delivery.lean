import ChainIndex.Fixture.Basic
import ChainIndex.Proofs.Runner.Steady

/-!
# What a runner delivers to its callers

* `Service.Recorded`: the accepted messages are those of the calls that were not refused, each call once,
  and a sync that succeeded was acknowledged.
* `Service.Sound`: that, and what the runner keeps (`Runner.Steady`). Every move keeps it.
* `runner_delivers`: so the handler gets the accepted events in the order of their acceptance, a sync that
  succeeds comes after all that was accepted before it, and a closing leaves nothing behind.
-/

namespace ChainIndex

variable {σ : Type}

namespace Service

/-! ## The calls -/

/-- The accepted messages are those of the calls that were not refused, each call once; a sync that
succeeded was acknowledged, under a number of its own. -/
structure Recorded (s : Service σ) : Prop where
  distinct : (s.accepted.map (·.1)).Nodup
  mem_accepted : ∀ i m, (i, m) ∈ s.accepted ↔ (s.calls i).bind CallState.accepted? = some m
  acknowledged : ∀ i ticket, s.calls i = some (.succeeded (.sync ticket)) →
    ticket ∈ s.runner.acknowledged
  fresh : ∀ i c ticket, s.calls i = some c → c.message = .sync ticket → ticket < s.runner.nextTicket
  own : ∀ i j c d ticket, s.calls i = some c → s.calls j = some d → c.message = .sync ticket →
    d.message = .sync ticket → i = j

theorem record_eq (s : Service σ) (id : Nat) (c : CallState) {i : Nat} {d : CallState}
    (h : s.record id c i = some d) : (i = id ∧ d = c) ∨ (i ≠ id ∧ s.calls i = some d) := by
  unfold record at h
  split at h
  · rename_i hi
    exact .inl ⟨hi, (Option.some.inj h).symm⟩
  · rename_i hi
    exact .inr ⟨hi, h⟩

namespace Recorded

variable {s : Service σ}

theorem new (handler : σ) (queueSize : Nat) : Recorded (Service.new handler queueSize) where
  distinct := .nil
  mem_accepted i m := by simp [Service.new]
  acknowledged := nofun
  fresh := nofun
  own := nofun

/-- Only what was acknowledged and the next number matter of the runner. -/
theorem later (h : Recorded s) {r : Runner (σ × List (ChainEvent × Answer))}
    (later : s.runner.Later r) (isBegun : Bool) (closing : Closing) :
    Recorded { s with runner := r, isBegun, closing } where
  distinct := h.distinct
  mem_accepted := h.mem_accepted
  acknowledged i ticket hi := later.acknowledged (h.acknowledged i ticket hi)
  fresh i c ticket hi hc := later.nextTicket ▸ h.fresh i c ticket hi hc
  own := h.own

/-- A call goes on with its message. -/
theorem advance (h : Recorded s) {id : Nat} {c c' : CallState} (hid : s.calls id = some c)
    (message : c'.message = c.message) {accepted : List (Nat × Message)}
    (distinct : (accepted.map (·.1)).Nodup)
    (mem_accepted : ∀ i m, (i, m) ∈ accepted ↔
      (s.record id c' i).bind CallState.accepted? = some m)
    (acknowledged : ∀ ticket, c' = .succeeded (.sync ticket) → ticket ∈ s.runner.acknowledged) :
    Recorded { s with calls := s.record id c', accepted } := by
  have before : ∀ i d, s.record id c' i = some d →
      ∃ d', s.calls i = some d' ∧ d.message = d'.message := fun i d hd => by
    obtain ⟨rfl, rfl⟩ | ⟨-, hd⟩ := s.record_eq id c' hd
    · exact ⟨c, hid, message⟩
    · exact ⟨d, hd, rfl⟩
  refine ⟨distinct, mem_accepted, fun i ticket hi => ?_, fun i d ticket hi hd => ?_,
    fun i j d e ticket hi hj hd he => ?_⟩
  · obtain ⟨-, hc⟩ | ⟨-, hi⟩ := s.record_eq id c' hi
    · exact acknowledged ticket hc.symm
    · exact h.acknowledged i ticket hi
  · obtain ⟨d', hd', hm⟩ := before i d hi
    exact h.fresh i d' ticket hd' (hm.symm.trans hd)
  · obtain ⟨d', hd', hm⟩ := before i d hi
    obtain ⟨e', he', hn⟩ := before j e hj
    exact h.own i j d' e' ticket hd' he' (hm.symm.trans hd) (hn.symm.trans he)

/-- A call returns without its message being accepted only now. -/
theorem progress (h : Recorded s) {id : Nat} {c c' : CallState} (hid : s.calls id = some c)
    (message : c'.message = c.message) (accepted : c'.accepted? = c.accepted?)
    (acknowledged : ∀ ticket, c' = .succeeded (.sync ticket) → ticket ∈ s.runner.acknowledged) :
    Recorded { s with calls := s.record id c' } := by
  refine h.advance hid message h.distinct (fun i m => ?_) acknowledged
  rw [h.mem_accepted]
  by_cases hi : i = id
  · rw [hi, hid]; simp [record, accepted]
  · simp [record, hi]

/-- The message of a call is accepted. -/
theorem accept (h : Recorded s) {id : Nat} {m : Message} {c' : CallState}
    (hid : s.calls id = some (.offering m)) (accepted : c'.accepted? = some m)
    (acknowledged : ∀ ticket, c' = .succeeded (.sync ticket) → ticket ∈ s.runner.acknowledged) :
    Recorded { s with calls := s.record id c', accepted := s.accepted ++ [(id, m)] } := by
  have absent : ∀ m', (id, m') ∉ s.accepted := fun m' hm' => by
    have := (h.mem_accepted id m').1 hm'
    rw [hid] at this
    cases this
  refine h.advance hid (CallState.message_of_accepted? accepted) ?_ (fun i m' => ?_) acknowledged
  · rw [List.map_append, List.nodup_append]
    refine ⟨h.distinct, by simp, fun i hi j hj => ?_⟩
    obtain ⟨⟨_, m'⟩, hm', rfl⟩ := List.mem_map.1 hi
    simp only [List.map_cons, List.map_nil, List.mem_singleton] at hj
    rintro rfl
    exact absent m' (hj ▸ hm')
  · by_cases hi : i = id
    · subst hi
      simp [record, accepted, absent, eq_comm]
    · simp [record, hi, h.mem_accepted]

/-- A call is made, and a sync under a number of its own. -/
theorem invoke (h : Recorded s) (id : Nat) {m : Message}
    (own : ∀ ticket, m = .sync ticket → ticket < s.runner.nextTicket ∧
      ∀ i c, s.calls i = some c → c.message ≠ .sync ticket) : Recorded (s.invoke id m) := by
  unfold Service.invoke
  split
  · exact h
  · rename_i hid
    generalize hc : (if s.runner.admits then CallState.offering m else .refused m) = c
    have message : c.message = m := by rw [← hc]; split <;> rfl
    have accepted : c.accepted? = none := by rw [← hc]; split <;> rfl
    refine ⟨h.distinct, fun i m' => ?_, fun i ticket hi => ?_, fun i d ticket hi hd => ?_,
      fun i j d e ticket hi hj hd he => ?_⟩
    · rw [h.mem_accepted]
      by_cases hi : i = id
      · rw [hi, hid]; simp [record, accepted]
      · simp [record, hi]
    · obtain ⟨-, hd⟩ | ⟨-, hi⟩ := s.record_eq id c hi
      · rw [← hd] at accepted; cases accepted
      · exact h.acknowledged i ticket hi
    · obtain ⟨-, rfl⟩ | ⟨-, hi⟩ := s.record_eq id c hi
      · exact (own ticket (message.symm.trans hd)).1
      · exact h.fresh i d ticket hi hd
    · obtain ⟨hii, hdc⟩ | ⟨-, hi⟩ := s.record_eq id c hi <;>
        obtain ⟨hjj, hec⟩ | ⟨-, hj⟩ := s.record_eq id c hj
      · exact hii.trans hjj.symm
      · exact absurd he ((own ticket (message.symm.trans (hdc ▸ hd))).2 j e hj)
      · exact absurd hd ((own ticket (message.symm.trans (hec ▸ he))).2 i d hi)
      · exact h.own i j d e ticket hi hj hd he

theorem offer (h : Recorded s) (id : Nat) : Recorded (s.offer id) := by
  unfold Service.offer
  split
  · rename_i m hid
    have hr := @Runner.offer_accepted _ s.runner m
    split
    · exact h
    · exact h.progress hid rfl rfl nofun
    · rename_i runner hoffer
      rw [hoffer] at hr
      obtain ⟨-, rfl⟩ := hr rfl
      have later : s.runner.Later { s.runner with queue := s.runner.queue ++ [m] } :=
        ⟨List.Subset.refl _, rfl, fun closed => closed, fun ended => ended⟩
      cases m with
      | event e =>
        have accepted : (CallState.succeeded (.event e)).accepted? = some (.event e) := rfl
        exact (h.accept hid accepted fun _ hc => by cases hc).later later s.isBegun s.closing
      | sync ticket =>
        have accepted : (CallState.awaiting ticket).accepted? = some (.sync ticket) := rfl
        exact (h.accept hid accepted nofun).later later s.isBegun s.closing
  · exact h

theorem hear (h : Recorded s) (id : Nat) : Recorded (s.hear id) := by
  unfold Service.hear
  split
  · rename_i ticket hid
    split
    · rename_i acknowledged
      refine h.progress hid rfl rfl fun t ht => ?_
      cases ht
      exact acknowledged
    · split
      · exact h
      · exact h.progress hid rfl rfl nofun
  · exact h

end Recorded

/-! ## Moves -/

theorem invoke_frame (s : Service σ) (id : Nat) (m : Message) :
    ∃ calls, s.invoke id m = { s with calls } := by
  unfold invoke
  split <;> exact ⟨_, rfl⟩

theorem hear_frame (s : Service σ) (id : Nat) : ∃ calls, s.hear id = { s with calls } := by
  unfold hear
  split
  · split
    · exact ⟨_, rfl⟩
    · split <;> exact ⟨_, rfl⟩
  · exact ⟨_, rfl⟩

/-- An offer is accepted, or nothing comes of it but an answer. -/
theorem offer_cases (s : Service σ) (id : Nat) :
    (∃ calls, s.offer id = { s with calls }) ∨
    ∃ m calls, (s.runner.offer m).1 = .accepted ∧ s.offer id =
      { s with runner := (s.runner.offer m).2, accepted := s.accepted ++ [(id, m)], calls } := by
  unfold offer
  split
  · rename_i m _
    split
    · exact .inl ⟨_, rfl⟩
    · exact .inl ⟨_, rfl⟩
    · rename_i runner hoffer
      exact .inr ⟨m, _, by rw [hoffer], by rw [hoffer]⟩
  · exact .inl ⟨_, rfl⟩

/-- What holds of a service after any moves. -/
structure Sound (queueSize : Nat) (s : Service σ) : Prop where
  steady : Runner.Steady queueSize s.messages s.isBegun s.runner
  recorded : s.Recorded
  closed : s.closing ≠ .idle → s.runner.isClosed = true
  ended : s.closing = .returned → s.runner.owner = .ended

namespace Sound

variable {queueSize : Nat} {s : Service σ}

theorem new (handler : σ) : Sound queueSize (Service.new handler queueSize) where
  steady := .new handler
  recorded := .new handler queueSize
  closed := nofun
  ended := nofun

/-- A move of the runner alone. -/
theorem later (h : Sound queueSize s) {r : Runner (σ × List (ChainEvent × Answer))} {isBegun : Bool}
    (steady : Runner.Steady queueSize s.messages isBegun r) (later : s.runner.Later r) :
    Sound queueSize { s with runner := r, isBegun } where
  steady := steady
  recorded := h.recorded.later later isBegun s.closing
  closed hc := later.isClosed (h.closed hc)
  ended hc := later.ended (h.ended hc)

theorem calls (h : Sound queueSize s) {calls : Nat → Option CallState}
    (recorded : Recorded { s with calls }) : Sound queueSize { s with calls } where
  steady := h.steady
  recorded := recorded
  closed := h.closed
  ended := h.ended

/-- A number is taken. -/
theorem ticket (h : Sound queueSize s) :
    Sound queueSize { s with runner := s.runner.ticket.2 } where
  steady := h.steady.congr s.runner.handler.1 s.runner.isClosed (s.runner.nextTicket + 1)
  recorded := ⟨h.recorded.distinct, h.recorded.mem_accepted, h.recorded.acknowledged,
    fun i c ticket hi hc => Nat.lt_succ_of_lt (h.recorded.fresh i c ticket hi hc), h.recorded.own⟩
  closed := h.closed
  ended := h.ended

theorem invoke (h : Sound queueSize s) (id : Nat) {m : Message}
    (own : ∀ ticket, m = .sync ticket → ticket < s.runner.nextTicket ∧
      ∀ i c, s.calls i = some c → c.message ≠ .sync ticket) : Sound queueSize (s.invoke id m) := by
  have recorded := h.recorded.invoke id own
  obtain ⟨calls, hs⟩ := s.invoke_frame id m
  rw [hs] at recorded ⊢
  exact h.calls recorded

theorem offer (h : Sound queueSize s) (id : Nat) : Sound queueSize (s.offer id) := by
  have recorded := h.recorded.offer id
  obtain ⟨calls, hs⟩ | ⟨m, calls, ok, hs⟩ := s.offer_cases id
  · rw [hs] at recorded ⊢
    exact h.calls recorded
  · rw [hs] at recorded ⊢
    have steady := h.steady.offer ok
    obtain ⟨isOpen, hr⟩ := Runner.offer_accepted ok
    rw [hr] at recorded steady ⊢
    exact ⟨by simpa [messages] using steady, recorded, h.closed, h.ended⟩

theorem hear (h : Sound queueSize s) (id : Nat) : Sound queueSize (s.hear id) := by
  have recorded := h.recorded.hear id
  obtain ⟨calls, hs⟩ := s.hear_frame id
  rw [hs] at recorded ⊢
  exact h.calls recorded

theorem move (h : Sound queueSize s) (m : Move σ) : Sound queueSize (s.move m) := by
  cases m with
  | start =>
    simp only [Service.move]
    split
    · exact h.later h.steady.start s.runner.start_later
    · exact h.later h.steady.start s.runner.start_later
    · exact h
    · exact h
  | enqueue id e => exact h.invoke id nofun
  | sync id =>
    refine h.ticket.invoke id fun ticket ht => ?_
    cases ht
    refine ⟨Nat.lt_succ_self _, fun i c hi hc => ?_⟩
    exact Nat.lt_irrefl _ (h.recorded.fresh i c _ hi hc)
  | offer id => exact h.offer id
  | hear id => exact h.hear id
  | owner handle => exact h.later (h.steady.owner handle) (s.runner.ownerStep_later _)
  | drain =>
    simp only [Service.move]
    split
    · rename_i running
      exact h.later (h.steady.drain running.1) ⟨fun _ => id, rfl, id, by simp [running.1]⟩
    · exact h
  | flag =>
    simp only [Service.move]
    split
    · exact h.later (h.steady.congr s.runner.handler.1 true s.runner.nextTicket)
        ⟨fun _ => id, rfl, fun _ => rfl, id⟩
    · exact h
  | replace handler =>
    exact h.later (h.steady.congr handler s.runner.isClosed s.runner.nextTicket)
      ⟨fun _ => id, rfl, id, id⟩
  | close =>
    have steady := h.steady.congr s.runner.handler.1 true s.runner.nextTicket
    have later : s.runner.Later { s.runner with isClosed := true } :=
      ⟨fun _ => id, rfl, fun _ => rfl, id⟩
    simp only [Service.move]
    split
    · exact ⟨steady, h.recorded.later later s.isBegun .flagged, fun _ => rfl, nofun⟩
    · exact ⟨steady, h.recorded.later later s.isBegun .flagged, fun _ => rfl, nofun⟩
    · exact h
    · exact h
  | signal =>
    simp only [Service.move]
    split
    · rename_i flagged
      have later := s.runner.beginClose_later
      refine ⟨h.steady.close, h.recorded.later later s.isBegun .signalled, fun _ => ?_, nofun⟩
      exact later.isClosed (h.closed (by rw [flagged]; decide))
    · exact h
  | await =>
    simp only [Service.move]
    split
    · rename_i signalled
      refine ⟨h.steady, h.recorded.later ⟨fun _ => id, rfl, id, id⟩ s.isBegun .returned,
        fun _ => h.closed (by rw [signalled.1]; decide), fun _ => signalled.2⟩
    · exact h

theorem run (h : Sound queueSize s) (moves : List (Move σ)) : Sound queueSize (s.run moves) :=
  run_induction h (fun _ m ht => ht.move m) moves

/-! ## Syncs -/

/-- A sync that succeeded was accepted, and the events accepted before it are applied. -/
theorem synced (h : Sound queueSize s) {i ticket : Nat}
    (succeeded : s.calls i = some (.succeeded (.sync ticket))) :
    ∃ before after, s.accepted = before ++ (i, .sync ticket) :: after ∧
      (before.map (·.2)).filterMap Message.event? <+: s.log.map (·.1) := by
  obtain ⟨done, dropped, accepted_eq, events, tickets, -⟩ := h.steady.order.settled
  rw [List.append_assoc] at accepted_eq
  obtain ⟨front, back, hsplit, hfront, -⟩ := List.map_eq_append_iff.1 accepted_eq
  have acknowledged := h.recorded.acknowledged i ticket succeeded
  rw [← tickets] at acknowledged
  -- The number leads to a message that is done, and to this call, since it is the call's own.
  obtain ⟨m, hm, hticket⟩ := List.mem_filterMap.1 acknowledged
  rw [← hfront] at hm
  obtain ⟨⟨j, m'⟩, hj, rfl⟩ := List.mem_map.1 hm
  have hsync : m' = .sync ticket := by
    cases m' with
    | event e => cases hticket
    | sync t => cases hticket; rfl
  subst hsync
  have hji : j = i := by
    have hcall := (h.recorded.mem_accepted j _).1 (hsplit ▸ List.mem_append_left back hj)
    obtain ⟨c, hc, hac⟩ := Option.bind_eq_some_iff.1 hcall
    exact h.recorded.own j i c _ ticket hc succeeded (CallState.message_of_accepted? hac) rfl
  subst hji
  obtain ⟨before, after, rfl⟩ := List.append_of_mem hj
  refine ⟨before, after ++ back, by simp [hsplit], ?_⟩
  show _ <+: s.runner.handler.2.map (·.1)
  rw [← events, ← hfront, List.map_append, List.filterMap_append]
  exact List.prefix_append _ _

end Sound

/-! ## After a closing -/

/-- A call that was not made, or whose message was not accepted. -/
def Outside (c : Option CallState) : Prop := c = none ∨ ∃ m, c = some (.refused m)

/-- What is left of a service after its runner was closed: nothing more is accepted or applied, and who
calls now is refused. -/
structure Finished (s t : Service σ) : Prop where
  shut : t.runner.Shut
  accepted : t.accepted = s.accepted
  log : t.log = s.log
  outside : ∀ i, s.calls i = none → Outside (t.calls i)

namespace Finished

variable {s t : Service σ}

theorem runner (h : Finished s t) {r : Runner (σ × List (ChainEvent × Answer))} (shut : r.Shut)
    (log : r.handler.2 = t.runner.handler.2) (isBegun : Bool) (closing : Closing) :
    Finished s { t with runner := r, isBegun, closing } :=
  ⟨shut, h.accepted, log.trans h.log, h.outside⟩

/-- Only a call that was not made comes further, and it is refused. -/
theorem calls (h : Finished s t) {calls : Nat → Option CallState}
    (outside : ∀ i, Outside (t.calls i) → Outside (calls i)) : Finished s { t with calls } :=
  ⟨h.shut, h.accepted, h.log, fun i hi => outside i (h.outside i hi)⟩

theorem invoke (h : Finished s t) (id : Nat) (m : Message) : Finished s (t.invoke id m) := by
  have admits : t.runner.admits = false := by simp [Runner.admits, h.shut.isClosed]
  unfold Service.invoke
  split
  · exact h
  · rw [admits]
    refine h.calls fun i hi => ?_
    unfold record
    split
    · exact .inr ⟨m, rfl⟩
    · exact hi

/-- A call that is not outside may come further. -/
theorem record (h : Finished s t) {id : Nat} (hid : ¬ Outside (t.calls id))
    (d : CallState) : Finished s { t with calls := t.record id d } := by
  refine h.calls fun i hi => ?_
  unfold Service.record
  split
  · rename_i same
    exact absurd (same ▸ hi) hid
  · exact hi

theorem offer (h : Finished s t) (id : Nat) : Finished s (t.offer id) := by
  unfold Service.offer
  split
  · rename_i m hid
    rw [h.shut.offer_eq]
    exact h.record (by simp [Outside, hid]) _
  · exact h

theorem hear (h : Finished s t) (id : Nat) : Finished s (t.hear id) := by
  unfold Service.hear
  split
  · rename_i ticket hid
    have inside : ¬ Outside (t.calls id) := by simp [Outside, hid]
    split
    · exact h.record inside _
    · split
      · exact h
      · exact h.record inside _
  · exact h

theorem move (h : Finished s t) (m : Move σ) : Finished s (t.move m) := by
  have shut := h.shut
  cases m with
  | start =>
    simp only [Service.move, shut.start_eq]
    split
    · exact h.runner shut rfl _ _
    · exact h.runner shut rfl _ _
    · exact h
    · exact h
  | enqueue id e => exact h.invoke id _
  | sync id =>
    have taken := shut.congr t.runner.handler shut.isClosed t.runner.isShutdown
      (t.runner.nextTicket + 1)
    exact (h.runner taken rfl t.isBegun t.closing).invoke id _
  | offer id => exact h.offer id
  | hear id => exact h.hear id
  | owner handle =>
    simp only [Service.move, shut.ownerStep_eq]
    exact h
  | drain => simpa [Service.move, shut.ended] using h
  | flag => simpa [Service.move, shut.ended] using h
  | replace handler =>
    have replaced := shut.congr (handler, t.log) shut.isClosed t.runner.isShutdown
      t.runner.nextTicket
    exact h.runner replaced rfl t.isBegun t.closing
  | close =>
    have closed := shut.congr t.runner.handler rfl t.runner.isShutdown t.runner.nextTicket
    simp only [Service.move]
    split
    · exact h.runner closed rfl t.isBegun .flagged
    · exact h.runner closed rfl t.isBegun .flagged
    · exact h
    · exact h
  | signal =>
    have told := shut.congr t.runner.handler shut.isClosed true t.runner.nextTicket
    simp only [Service.move, shut.beginClose_eq]
    split
    · exact h.runner told rfl t.isBegun .signalled
    · exact h
  | await =>
    simp only [Service.move]
    split
    · exact h.runner shut rfl _ _
    · exact h

theorem run (shut : s.runner.Shut) (moves : List (Move σ)) : Finished s (s.run moves) :=
  run_induction ⟨shut, rfl, rfl, fun _ hi => .inl hi⟩ (fun _ m ht => ht.move m) moves

end Finished

end Service

open Service in
/-- Whatever callers, the owner and the one who starts and closes a runner do, in any order and with any
handlers: the accepted messages are those of calls, each call once, and an event counts as accepted
exactly if its call succeeded. The handler got the accepted events in the order of their acceptance, up
to some one of them. When a sync succeeds, the events that were accepted before it are applied. When a
closing returns, all accepted events are, if the owner was started and no error was fatal. After a fatal
error nothing is applied. The errors are those of the applied events, in order. No more messages wait
than there is room for. After a closing has returned, nothing more is accepted or applied, every later
call is refused, and so is whatever is still offered. The owner ends once it was told to. -/
theorem runner_delivers (handler : σ) (queueSize : Nat) (moves : List (Move σ)) :
    let s := (Service.new handler queueSize).run moves
    let applied := s.log.map (·.1)
    ((s.accepted.map (·.1)).Nodup ∧
      ∀ i e, (i, .event e) ∈ s.accepted ↔ s.calls i = some (.succeeded (.event e))) ∧
    applied <+: s.events ∧
    (∀ i ticket, s.calls i = some (.succeeded (.sync ticket)) →
      ∃ before after, s.accepted = before ++ (i, .sync ticket) :: after ∧
        (before.map (·.2)).filterMap Message.event? <+: applied) ∧
    (s.closing = .returned → s.isBegun = true → (∀ e ∈ s.runner.errors, e.isFatal = false) →
      applied = s.events) ∧
    (∀ a ∈ s.log.dropLast, ∀ e, a.2.error? = some e → e.isFatal = false) ∧
    s.runner.errors = (s.log.filterMap fun a => a.2.error?) ∧
    s.runner.queue.length ≤ max queueSize 1 ∧
    (s.closing = .returned → ∀ later, let t := s.run later
      t.accepted = s.accepted ∧ t.log = s.log ∧
      (∀ i c, s.calls i = none → t.calls i = some c →
        c.answer? = some (.error .runnerClosed)) ∧
      ∀ m, (t.runner.enqueue m).1 = .refused ∧ (t.runner.offer m).1 = .refused) ∧
    ∀ handle, (s.runner.close handle).owner = .ended := by
  intro s applied
  have h : Sound queueSize s := (Sound.new handler).run moves
  have order := h.steady.order
  refine ⟨⟨h.recorded.distinct, fun i e => ?_⟩, ?_, fun i ticket succeeded => h.synced succeeded,
    fun returned begun harmless => ?_, order.final, order.errors_eq, h.steady.room,
    fun returned later => ?_, fun handle => s.runner.close_ended handle⟩
  · rw [h.recorded.mem_accepted, Option.bind_eq_some_iff]
    constructor
    · rintro ⟨c, hc, accepted⟩
      cases c <;> simp_all [CallState.accepted?]
    · intro hc
      exact ⟨_, hc, rfl⟩
  · obtain ⟨dropped, events_eq, -⟩ := order.accepted_eq
    rw [List.append_assoc] at events_eq
    exact ⟨_, events_eq.symm⟩
  · rcases (h.steady.ended (h.ended returned)).2 begun with ⟨e, he, fatal⟩ | complete
    · rw [harmless e he] at fatal
      cases fatal
    · exact complete
  · intro t
    have ended := h.ended returned
    have shut : s.runner.Shut := ⟨h.closed (by rw [returned]; decide), ended, order.shut ended⟩
    have finished : Finished s t := .run shut later
    refine ⟨finished.accepted, finished.log, fun i c hi hc => ?_, fun m => ⟨?_, ?_⟩⟩
    · rcases finished.outside i hi with absent | ⟨m, refused⟩
      · rw [absent] at hc; cases hc
      · rw [refused] at hc; cases hc; rfl
    · rw [finished.shut.enqueue_eq]
    · rw [finished.shut.offer_eq]

/-- Room for one message: the second event has to wait, and fails; a sync waits for both; the third event
passes the flag before the closing sets it, and is accepted after that. -/
def closedMoves : List (Move Nat) :=
  let handle : Runner.Handler Nat := fun
    | .rollForward _, n => (.ok (), n + 1)
    | .rollBackward point, n => (.error (.fetch point "offline"), n)
  let forward (slot : UInt64) : ChainEvent := .rollForward (Fixture.header slot)
  [.enqueue 0 (forward 1), .offer 0, .enqueue 1 (.rollBackward .origin), .offer 1, .start,
    .owner handle, .offer 1, .sync 2, .offer 2, .owner handle, .offer 2, .enqueue 3 (forward 2),
    .close, .enqueue 4 (forward 3), .owner handle, .hear 2, .offer 3, .signal, .drain,
    .owner handle, .owner handle, .owner handle, .await]

/-- The closing leaves all three accepted events applied, the sync succeeded, and the call after the flag
was set is refused. -/
theorem runner_delivers_closedMoves :
    let s := (Service.new 0 0).run closedMoves
    s.log.map (·.1) = s.events ∧ s.events.length = 3 ∧ s.runner.errors.length = 1 ∧
      s.calls 2 = some (.succeeded (.sync 0)) ∧
      s.calls 4 = some (.refused (.event (.rollForward (Fixture.header 3)))) := by
  intro s
  have complete := (runner_delivers 0 0 closedMoves).2.2.2.1
  refine ⟨complete ?_ ?_ ?_, ?_, ?_, ?_, ?_⟩ <;> decide +kernel

end ChainIndex
