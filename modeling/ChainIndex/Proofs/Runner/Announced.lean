import ChainIndex.Fixture.Basic
import ChainIndex.Proofs.Indexer.Tracking
import ChainIndex.Proofs.Runner.Driven

/-!
# The announced chain behind a runner

A runner goes on after an error that is not fatal, and does not repeat the event. What that does to the
chain of an indexer behind it:

* `Implied`: a chain that events imply by their answers, when some of the answers let a header count.
* `not_implied_of_skipped`: a header whose announcement fails before the consumer is missing, so the
  chain is not the one that all events imply.
* `implied_of_driven`: it is the one that is implied by the events that took effect, whose headers are
  those that are accepted or that only the consumer failed on. Every other error has been reported.
-/

namespace ChainIndex

variable {κ : Type}

/-- A chain that events imply. A header is appended if its answer counts, and going back with success
cuts the chain after a block of the point. -/
inductive Implied (start : Point) (counts : Answer → Bool) :
    List (ChainEvent × Answer) → List BlockHeader → Prop
  | empty : Implied start counts [] []
  | forward {events : List (ChainEvent × Answer)} {chain : List BlockHeader}
      (h : Implied start counts events chain) (header : BlockHeader) (answer : Answer) :
      Implied start counts (events ++ [(.rollForward header, answer)])
        (if counts answer then chain ++ [header] else chain)
  | backward {events : List (ChainEvent × Answer)} {kept dropped : List BlockHeader}
      (h : Implied start counts events (kept ++ dropped)) (point : Point)
      (same : point.sameBlock (tip start kept) = true) :
      Implied start counts (events ++ [(.rollBackward point, .ok ())]) kept
  | refused {events : List (ChainEvent × Answer)} {chain : List BlockHeader}
      (h : Implied start counts events chain) (point : Point) (e : IndexerError) :
      Implied start counts (events ++ [(.rollBackward point, .error e)]) chain

namespace Implied

variable {start : Point} {counts counts' : Answer → Bool} {events : List (ChainEvent × Answer)}
  {chain : List BlockHeader}

theorem forward_of_true (h : Implied start counts events chain) (header : BlockHeader)
    {answer : Answer} (hc : counts answer = true) :
    Implied start counts (events ++ [(.rollForward header, answer)]) (chain ++ [header]) := by
  simpa [hc] using h.forward header answer

theorem forward_of_false (h : Implied start counts events chain) (header : BlockHeader)
    {answer : Answer} (hc : counts answer = false) :
    Implied start counts (events ++ [(.rollForward header, answer)]) chain := by
  simpa [hc] using h.forward header answer

/-- Which answers count matters only where a header was announced. -/
theorem congr (h : Implied start counts events chain)
    (agree : ∀ header answer, (.rollForward header, answer) ∈ events →
      counts answer = counts' answer) : Implied start counts' events chain := by
  induction h with
  | empty => exact .empty
  | forward _ header answer ih =>
    rw [agree header answer (by simp)]
    exact (ih fun g a hm => agree g a (by simp [hm])).forward header answer
  | backward _ point same ih =>
    exact (ih fun g a hm => agree g a (by simp [hm])).backward point same
  | refused _ point e ih =>
    exact (ih fun g a hm => agree g a (by simp [hm])).refused point e

/-- If every event announces a header and all of them count, the chain consists of them. -/
theorem eq_headers (h : Implied start counts events chain) (all : ∀ answer, counts answer = true)
    {headers : List BlockHeader} (forward : events.map (·.1) = headers.map .rollForward) :
    chain = headers := by
  induction h generalizing headers with
  | empty => exact (List.map_eq_nil_iff.1 forward.symm).symm
  | forward _ header answer ih =>
    rw [List.map_append] at forward
    obtain ⟨front, last, rfl, hfront, hlast⟩ := List.append_eq_map_iff.1 forward
    obtain ⟨_, rfl, hh⟩ := List.map_eq_singleton_iff.1 hlast
    cases hh
    rw [if_pos (all answer), ih hfront.symm]
  | backward _ point | refused _ point e =>
    have hmem : ChainEvent.rollBackward point ∈ headers.map .rollForward := by simp [← forward]
    simp at hmem

end Implied

namespace Session

/-- A session as the handler of a runner. -/
def handle (w : Surroundings κ) : Runner.Handler (Session κ) :=
  fun e t => ((t.call ⟨w, e⟩).1, t.step ⟨w, e⟩)

/-- What can become of a runner over a session, whatever the session meets on each event. -/
def Driven (t : Session κ) (queueSize : Nat) : List Message → Runner (Session κ) → Prop :=
  Runner.Driven (fun h => ∃ w, h = handle w) t queueSize

/-- What is confirmed and what waits is a chain that the events imply that took effect. -/
structure Follows (start : Point) (t : Session κ) : Prop where
  implied : Implied start Answer.isEffective t.answers (t.confirmed ++ t.pending)
  latest_eq : t.indexer.latestPoint = tip start t.confirmed

theorem Follows.step {start : Point} {t : Session κ} (h : t.Follows start) (c : Call κ) :
    (t.step c).Follows start := by
  have hm := moved_step t c
  have ha : (t.step c).answers = t.answers ++ [(c.event, (t.call c).1)] := rfl
  generalize c.event = event at hm ha
  generalize (t.call c).1 = answer at hm ha
  refine ⟨?_, latestPoint_step h.latest_eq c⟩
  rw [ha]
  cases hm with
  | waits header room confirmed pending latest =>
    rw [confirmed, pending, ← List.append_assoc]
    exact h.implied.forward_of_true header rfl
  | confirms header oldest rest _ effective full oldest_eq confirmed pending latest =>
    have := h.implied.forward_of_true header effective
    simpa [confirmed, pending, oldest_eq] using this
  | fails header e notConsumer full confirmed pending latest =>
    rw [confirmed, pending]
    exact h.implied.forward_of_false header (by simp [Answer.isEffective, notConsumer])
  | inside point kept dropped header pending_eq same before confirmed pending latest =>
    rw [confirmed, pending]
    have hi : Implied start Answer.isEffective t.answers
        ((t.confirmed ++ (kept ++ [header])) ++ dropped) := by
      simpa [pending_eq] using h.implied
    refine hi.backward point ?_
    rw [← List.append_assoc, tip_append_singleton, Point.sameBlock_comm]
    exact same
  | latest point absent same confirmed pending latest =>
    rw [confirmed, pending, List.append_nil]
    refine h.implied.backward point ?_
    rwa [← h.latest_eq]
  | fatal point absent other confirmed pending latest =>
    rw [confirmed, pending]
    exact h.implied.refused point _

theorem Driven.follows {s : Indexer} {start : Point} {k : κ} {queueSize : Nat}
    {accepted : List Message} {r : Runner (Session κ)}
    (h : Driven (since s k) queueSize accepted r) (latest : s.latestPoint = start)
    (pending : s.pending = []) : r.handler.Follows start := by
  refine Runner.Driven.keeps h ⟨?_, latest⟩ ?_
  · have hc : (since s k).confirmed ++ (since s k).pending = [] := pending
    rw [hc]
    exact .empty
  · rintro _ ⟨w, rfl⟩ e t ht
    exact ht.step ⟨w, e⟩

theorem Driven.inOrder {s : Indexer} {k : κ} {queueSize : Nat} {accepted : List Message}
    {r : Runner (Session κ)} (h : Driven (since s k) queueSize accepted r) :
    Runner.InOrder answers accepted r := by
  refine Runner.Driven.inOrder h rfl ?_
  rintro _ ⟨w, rfl⟩ e t
  rfl

end Session

/-- What is confirmed and what waits behind a runner is a chain that the applied events imply, when a
header counts if it was accepted or if only the consumer failed on it. If no announcement failed before
the consumer, every announced header counts. The errors are those of the applied events, in order; the
accepted events are applied in order; and nothing is applied after a fatal error. -/
theorem implied_of_driven {s₀ s : Indexer} {start : Point} (reset : s₀.reset = (.ok start, s))
    (k : κ) {queueSize : Nat} {accepted : List Message} {r : Runner (Session κ)}
    (driven : Session.Driven (Session.since s k) queueSize accepted r) :
    let t := r.handler
    Implied start Answer.isEffective t.answers (t.confirmed ++ t.pending) ∧
    ((∀ header e, (.rollForward header, .error e) ∈ t.answers → e.kind = .consumer) →
      Implied start (fun _ => true) t.answers (t.confirmed ++ t.pending)) ∧
    r.errors = (t.answers.filterMap fun a => a.2.error?) ∧
    (∃ dropped, accepted.filterMap Message.event? =
      t.answers.map (·.1) ++ r.queue.filterMap Message.event? ++ dropped ∧
        (dropped = [] ∨ r.owner = .ended)) ∧
    (∀ e ∈ r.errors.dropLast, e.isFatal = false) ∧
    ((∃ e ∈ r.errors, e.isFatal = true) → r.owner = .finishing ∨ r.owner = .ended) := by
  intro t
  obtain ⟨latest, pending⟩ := Indexer.reset_ok reset
  have follows : t.Follows start := driven.follows latest pending
  have order := driven.inOrder
  refine ⟨follows.implied, fun consumer => follows.implied.congr ?_, order.errors_eq,
    order.accepted_eq, order.last, order.alive⟩
  intro header answer hm
  cases answer with
  | ok => rfl
  | error e => simp [Answer.isEffective, consumer header e hm]

/-! ## A header that is skipped -/

/-- The runner after an event was accepted and applied. -/
def Session.pass (r : Runner (Session κ)) (e : ChainEvent) (w : Surroundings κ) :
    Runner (Session κ) := (r.offer (.event e)).2.ownerStep (handle w)

theorem Session.Driven.pass {t : Session κ} {queueSize : Nat} {accepted : List Message}
    {r : Runner (Session κ)} (h : Driven t queueSize accepted r) (e : ChainEvent)
    (w : Surroundings κ) (ok : (r.offer (.event e)).1 = .accepted) :
    Driven t queueSize (accepted ++ [.event e]) (Session.pass r e w) :=
  .owner (.offer h _ ok) _ ⟨w, rfl⟩

/-- An indexer over an empty store that lets one header wait. -/
def shallowIndexer : Indexer :=
  { config := { confirmationDepth := 1 }, database := .new .memory, window := .empty 1 }

theorem shallowIndexer_reachable : shallowIndexer.Reachable shallowIndexer.config :=
  .new (show Indexer.new _ (.new .memory) = .ok shallowIndexer from rfl)

/-- The second announcement finds the block of the first header offline, the third one does not. -/
def skippedRun : Runner (Session Unit) :=
  let works : Surroundings Unit := ⟨fun _ => .ok [], fun _ _ k db => (.ok (), k, db), id⟩
  let offline : Surroundings Unit := { works with source := fun _ => .error "offline" }
  let r := (Runner.new (Session.since shallowIndexer.reset.2 ()) 4).start
  let r := Session.pass r (.rollForward (Fixture.header 1)) works
  let r := Session.pass r (.rollForward (Fixture.header 2)) offline
  Session.pass r (.rollForward (Fixture.header 3)) works

theorem skippedRun_driven :
    Session.Driven (Session.since shallowIndexer.reset.2 ()) 4
      ([1, 2, 3].map fun slot => .event (.rollForward (Fixture.header slot))) skippedRun := by
  have h : Session.Driven (Session.since shallowIndexer.reset.2 ()) 4 [] _ := .start .new
  exact ((h.pass _ _ rfl).pass _ _ rfl).pass _ _ rfl

/-- In the run that skips a header the first block is confirmed and the third one waits, as the events
imply that took effect. -/
theorem implied_skippedRun :
    let t := skippedRun.handler
    Implied .origin Answer.isEffective t.answers (t.confirmed ++ t.pending) ∧
      t.confirmed = [Fixture.header 1] ∧ t.pending = [Fixture.header 3] :=
  ⟨(implied_of_driven (show shallowIndexer.reset = (.ok .origin, _) from rfl) ()
    skippedRun_driven).1, by decide +kernel, by decide +kernel⟩

/-- It is not so that what is confirmed and what waits is the chain that all applied events imply as long
as no error is fatal: a header is skipped when its announcement fails. -/
theorem not_implied_of_skipped :
    ¬ ∀ (config : IndexerConfig) (s₀ s : Indexer) (start : Point) (queueSize : Nat)
      (accepted : List Message) (r : Runner (Session Unit)),
      s₀.Reachable config → s₀.reset = (.ok start, s) →
      Session.Driven (Session.since s ()) queueSize accepted r →
      (∀ e ∈ r.errors, e.isFatal = false) →
      Implied start (fun _ => true) r.handler.answers (r.handler.confirmed ++ r.handler.pending) := by
  intro h
  have implied := h _ _ _ _ _ _ skippedRun shallowIndexer_reachable rfl skippedRun_driven
    (by decide +kernel)
  have all := implied.eq_headers (fun _ => rfl)
    (show _ = [Fixture.header 1, Fixture.header 2, Fixture.header 3].map ChainEvent.rollForward by
      decide +kernel)
  revert all
  decide +kernel

end ChainIndex
