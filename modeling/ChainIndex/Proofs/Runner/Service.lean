import ChainIndex.Proofs.Runner.Driven

/-!
# A runner with its callers

* `Service`: a runner, the calls that any number of callers have made on it, and how far its closing has
  come. The handler notes every event it gets together with its answer (`Runner.noting`).
* `Move`: one step of a caller, of the owner, or of the one who starts and closes the runner.
  `Service.move` carries it out; a move that is not possible at present changes nothing. A call looks at
  the flag first and offers its message later, and any moves may come between the two. The flag, the
  signal to the owner and the end of a closing are three moves as well.

The owner reads the queue before the signal, but it may turn to the signal while messages wait: they
can have come after it read the queue, or it can have been made to yield. `Move.drain` is that step.
-/

namespace ChainIndex

variable {σ : Type}

/-- The handler that also notes every event with its answer. -/
def Runner.noting (handle : Handler σ) : Handler (σ × List (ChainEvent × Answer)) :=
  fun e s => ((handle e s.1).1, ((handle e s.1).2, s.2 ++ [(e, (handle e s.1).1)]))

/-- How far a call has come. -/
inductive CallState where
  /-- The flag did not stand in its way, and its message waits for room in the queue. -/
  | offering (m : Message)
  /-- The message of a sync was accepted. -/
  | awaiting (ticket : Nat)
  /-- It returned without an error. -/
  | succeeded (m : Message)
  /-- The runner is closed: its message was not accepted. -/
  | refused (m : Message)
  /-- The runner is closed: the message of the sync was accepted and will not be acknowledged. -/
  | forsaken (ticket : Nat)
deriving DecidableEq

namespace CallState

def message : CallState → Message
  | offering m | succeeded m | refused m => m
  | awaiting ticket | forsaken ticket => .sync ticket

/-- The message of a call, if it was accepted. -/
def accepted? : CallState → Option Message
  | offering _ | refused _ => none
  | succeeded m => some m
  | awaiting ticket | forsaken ticket => some (.sync ticket)

/-- What a call returned. -/
def answer? : CallState → Option Answer
  | offering _ | awaiting _ => none
  | succeeded _ => some (.ok ())
  | refused _ | forsaken _ => some (.error .runnerClosed)

theorem message_of_accepted? {c : CallState} {m : Message} (h : c.accepted? = some m) :
    c.message = m := by
  cases c <;> simp_all [accepted?, message]

end CallState

/-- How far the closing of a runner has come. -/
inductive Closing where
  | idle
  | flagged
  /-- The owner was told, and its end is waited for. -/
  | signalled
  | returned
deriving DecidableEq, Repr

/-- A runner with its callers. -/
structure Service (σ : Type) where
  runner : Runner (σ × List (ChainEvent × Answer))
  /-- The calls that were made so far. -/
  calls : Nat → Option CallState := fun _ => none
  /-- The messages that were accepted, in the order of their acceptance, with their calls. -/
  accepted : List (Nat × Message) := []
  /-- Whether the owner was started. -/
  isBegun : Bool := false
  closing : Closing := .idle

/-- A step of somebody. -/
inductive Move (σ : Type) where
  | start
  /-- A call that enqueues an event, and one that syncs. -/
  | enqueue (id : Nat) (e : ChainEvent)
  | sync (id : Nat)
  /-- The message of a call is offered to the queue. -/
  | offer (id : Nat)
  /-- A sync hears what became of its message. -/
  | hear (id : Nat)
  | owner (handle : Runner.Handler σ)
  /-- The owner turns to the signal. -/
  | drain
  /-- The owner, which has finished, sets the flag. -/
  | flag
  /-- Somebody else changes the handler. -/
  | replace (handler : σ)
  | close
  | signal
  | await

namespace Service

/-- A new runner that nobody has called. -/
def new (handler : σ) (queueSize : Nat) : Service σ := { runner := .new (handler, []) queueSize }

/-- The events that the handler got, with its answers. -/
def log (s : Service σ) : List (ChainEvent × Answer) := s.runner.handler.2

/-- The messages that were accepted. -/
def messages (s : Service σ) : List Message := s.accepted.map (·.2)

/-- The accepted events, in the order of their acceptance. -/
def events (s : Service σ) : List ChainEvent := s.messages.filterMap Message.event?

/-- Whether an event failed so that no other one can be applied. -/
def HasFailed (s : Service σ) : Prop := ∃ e ∈ s.runner.errors, e.isFatal = true

/-- The calls after one of them has come further. -/
def record (s : Service σ) (id : Nat) (c : CallState) : Nat → Option CallState :=
  fun i => if i = id then some c else s.calls i

/-- A call is made: it looks at the flag. -/
def invoke (s : Service σ) (id : Nat) (m : Message) : Service σ :=
  match s.calls id with
  | some _ => s
  | none => { s with calls := s.record id (if s.runner.admits then .offering m else .refused m) }

/-- The message of a call is offered. -/
def offer (s : Service σ) (id : Nat) : Service σ :=
  match s.calls id with
  | some (.offering m) =>
    match s.runner.offer m with
    | (.full, _) => s
    | (.refused, _) => { s with calls := s.record id (.refused m) }
    | (.accepted, runner) =>
      { s with
        runner
        accepted := s.accepted ++ [(id, m)]
        calls := s.record id <| match m with
          | .event e => .succeeded (.event e)
          | .sync ticket => .awaiting ticket }
  | _ => s

/-- A sync hears that its message was acknowledged, or that it is gone. -/
def hear (s : Service σ) (id : Nat) : Service σ :=
  match s.calls id with
  | some (.awaiting ticket) =>
    if ticket ∈ s.runner.acknowledged then
      { s with calls := s.record id (.succeeded (.sync ticket)) }
    else if .sync ticket ∈ s.runner.queue then s
    else { s with calls := s.record id (.forsaken ticket) }
  | _ => s

/-- Carries out a move. -/
def move (s : Service σ) : Move σ → Service σ
  | .start =>
    match s.closing with
    | .idle | .returned =>
      { s with
        runner := s.runner.start
        isBegun := s.isBegun || s.runner.start.owner == .running }
    | .flagged | .signalled => s
  | .enqueue id e => s.invoke id (.event e)
  | .sync id => { s with runner := s.runner.ticket.2 }.invoke id (.sync s.runner.ticket.1)
  | .offer id => s.offer id
  | .hear id => s.hear id
  | .owner handle => { s with runner := s.runner.ownerStep (Runner.noting handle) }
  | .drain =>
    if s.runner.owner = .running ∧ s.runner.isShutdown = true then
      { s with runner := { s.runner with owner := .draining, isOpen := false } }
    else s
  | .flag =>
    if s.runner.owner = .finishing then { s with runner := { s.runner with isClosed := true } } else s
  | .replace handler => { s with runner := { s.runner with handler := (handler, s.log) } }
  | .close =>
    match s.closing with
    | .idle | .returned =>
      { s with closing := .flagged, runner := { s.runner with isClosed := true } }
    | .flagged | .signalled => s
  | .signal =>
    if s.closing = .flagged then { s with closing := .signalled, runner := s.runner.beginClose } else s
  | .await =>
    if s.closing = .signalled ∧ s.runner.owner = .ended then { s with closing := .returned } else s

/-- Carries out moves one after the other. -/
def run (s : Service σ) (moves : List (Move σ)) : Service σ := moves.foldl move s

/-- What every move keeps holds after any moves. -/
theorem run_induction {P : Service σ → Prop} {s : Service σ} (init : P s)
    (step : ∀ t m, P t → P (t.move m)) (moves : List (Move σ)) : P (s.run moves) := by
  induction moves generalizing s with
  | nil => exact init
  | cons m moves ih => exact ih (step s m init)

end Service

end ChainIndex
