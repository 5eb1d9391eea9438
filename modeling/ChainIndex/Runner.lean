import ChainIndex.Indexer.Basic

/-!
# The runner

* `Runner σ`: feeds a handler from a bounded queue. Any number of callers enqueue events; one owner
  applies them in the order in which they were accepted.
* `Runner.enqueue` is `Runner.admits`, a look at the closed flag, and then `Runner.offer`, which is all
  that happens to the queue; other callers may come between the two.
* `Runner.ownerStep` is one step of the owner: it applies the event at the front, or moves on to its end.
  `Runner.settle` runs it until nothing is left to do. `Runner.send` and `Runner.sync` are the calls of
  a caller who waits and is alone with the owner.
* After a fatal error the owner ends and what is queued is dropped. After `Runner.close` nothing is
  accepted; what is queued is still applied. A `sync` is acknowledged when everything before it has been
  applied, and refused when it is dropped.
-/

namespace ChainIndex

/-- An event of the chain. -/
inductive ChainEvent where
  | rollForward (header : BlockHeader)
  | rollBackward (point : Point)
deriving DecidableEq

/-- What waits in the queue. -/
inductive Message where
  | event (e : ChainEvent)
  /-- To be acknowledged under a number. -/
  | sync (ticket : Nat)
deriving DecidableEq

/-- How far the owner of the queue has come. -/
inductive Owner where
  | unstarted
  | running
  /-- Nothing more is accepted, and what is queued is still applied. -/
  | draining
  /-- Nothing more is applied. -/
  | finishing
  | ended
deriving DecidableEq, Repr

/-- What became of a message offered to the queue. -/
inductive Offer where
  | accepted
  | refused
  /-- There is no room at present. -/
  | full
deriving DecidableEq, Repr

/-- A handler behind a queue. -/
structure Runner (σ : Type) where
  handler : σ
  capacity : Nat
  queue : List Message := []
  owner : Owner := .unstarted
  /-- Whether the queue still takes messages. -/
  isOpen : Bool := true
  /-- The flag that all callers see. -/
  isClosed : Bool := false
  /-- Whether the owner was told to end once the queue is empty. -/
  isShutdown : Bool := false
  /-- The errors of events, in the order in which they were applied. -/
  errors : List IndexerError := []
  /-- The numbers of acknowledged syncs. -/
  acknowledged : List Nat := []
  nextTicket : Nat := 0

namespace Runner

variable {σ : Type}

/-- What a handler does with an event. -/
abbrev Handler (σ : Type) := ChainEvent → σ → Except IndexerError Unit × σ

/-- A runner whose queue has room for at least one message. -/
def new (handler : σ) (queueSize : Nat) : Runner σ := { handler, capacity := max queueSize 1 }

/-- Whether a caller may go on to offer a message. -/
def admits (r : Runner σ) : Bool := !r.isClosed

/-- Appends a message to the queue if it is open and has room. -/
def offer (r : Runner σ) (m : Message) : Offer × Runner σ :=
  if !r.isOpen then (.refused, r)
  else if r.queue.length < r.capacity then (.accepted, { r with queue := r.queue ++ [m] })
  else (.full, r)

/-- Looks at the flag and offers a message. -/
def enqueue (r : Runner σ) (m : Message) : Offer × Runner σ :=
  if r.admits then r.offer m else (.refused, r)

/-- A fresh number for a sync. -/
def ticket (r : Runner σ) : Nat × Runner σ :=
  (r.nextTicket, { r with nextTicket := r.nextTicket + 1 })

/-- Lets the owner begin. Only the first call counts, and none on a closed runner. -/
def start (r : Runner σ) : Runner σ :=
  match r.owner with
  | .unstarted =>
    if r.isClosed then { r with owner := .ended, isOpen := false, queue := [] }
    else { r with owner := .running }
  | _ => r

/-- Applies one message; an event that fails leaves its error, and a fatal one makes the owner finish. -/
def apply (handle : Handler σ) (r : Runner σ) : Message → Runner σ
  | .sync ticket => { r with acknowledged := r.acknowledged ++ [ticket] }
  | .event e =>
    match handle e r.handler with
    | (.ok (), handler) => { r with handler }
    | (.error error, handler) =>
      { r with
        handler
        errors := r.errors ++ [error]
        owner := if error.isFatal then .finishing else r.owner }

/-- Whether the owner has something to do. -/
def canStep (r : Runner σ) : Bool :=
  match r.owner with
  | .unstarted | .ended => false
  | .running => !r.queue.isEmpty || r.isShutdown
  | .draining | .finishing => true

/-- One step of the owner. -/
def ownerStep (handle : Handler σ) (r : Runner σ) : Runner σ :=
  match r.owner, r.queue with
  | .unstarted, _ | .ended, _ => r
  | .running, m :: queue => apply handle { r with queue } m
  | .running, [] => if r.isShutdown then { r with owner := .draining, isOpen := false } else r
  | .draining, m :: queue => apply handle { r with queue } m
  | .draining, [] => { r with owner := .finishing }
  | .finishing, _ => { r with owner := .ended, isOpen := false, isClosed := true, queue := [] }

/-- Runs the owner for a number of steps, or until it has nothing to do. -/
def run (handle : Handler σ) : Nat → Runner σ → Runner σ
  | 0, r => r
  | steps + 1, r => if r.canStep then run handle steps (ownerStep handle r) else r

/-- Runs the owner until it has nothing to do: each message takes a step, and its end three. -/
def settle (handle : Handler σ) (r : Runner σ) : Runner σ :=
  run handle (r.queue.length + 3) r

/-- Enqueues a message, waiting for room: the owner goes on until it has nothing to do. It stays `full`
only if the owner does not go on. -/
def send (handle : Handler σ) (r : Runner σ) (m : Message) : Offer × Runner σ :=
  match r.enqueue m with
  | (.full, r) => if r.canStep then (r.settle handle).offer m else (.full, r)
  | answered => answered

/-- Waits until everything enqueued before is applied: `accepted` if it is, `refused` if it never will be,
`full` if the owner does not go on. -/
def sync (handle : Handler σ) (r : Runner σ) : Offer × Runner σ :=
  let (ticket, r) := r.ticket
  match r.send handle (.sync ticket) with
  | (.accepted, r) =>
    let r := r.settle handle
    if r.acknowledged.contains ticket then (.accepted, r)
    else if r.owner = .ended then (.refused, r)
    else (.full, r)
  | answered => answered

/-- Closes the runner: nothing more is accepted. An owner that never began is dropped with its queue,
another one is told to end. -/
def beginClose (r : Runner σ) : Runner σ :=
  match r.owner with
  | .unstarted =>
    { r with isClosed := true, isShutdown := true, owner := .ended, isOpen := false, queue := [] }
  | _ => { r with isClosed := true, isShutdown := true }

/-- Closes the runner and waits for the owner to end. -/
def close (handle : Handler σ) (r : Runner σ) : Runner σ := settle handle r.beginClose

end Runner

end ChainIndex
