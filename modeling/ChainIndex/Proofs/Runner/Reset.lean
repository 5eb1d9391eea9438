import ChainIndex.Proofs.Indexer.Course
import ChainIndex.Proofs.Runner.Announced

/-!
# Resetting an indexer behind a runner

A reset does not go through the queue. What waits there is applied afterwards.

* `Runner.reset`: a caller resets the indexer between two steps of the owner.
* `Session.Served`: what can become of a runner with the messages that it accepts, in the presence of resets.
* `Session.Owes`: the events that the indexer has met since a certain moment are the first ones of those that
  waited then and of those that were accepted later. Every step keeps it (`Session.Served.owes`).
* `pending_of_reset`: so the headers that wait after a reset were announced by events that waited at the reset
  or were accepted later.
* `not_accepted_of_pending`: some of them may have been accepted before the reset.
-/

namespace ChainIndex

variable {κ : Type}

/-- The event of a turn. -/
def Turn.event? : Turn κ → Option ChainEvent
  | event c => some c.event
  | reset _ | restart _ => none

/-- A turn on which the indexer stays the same one. -/
def Turn.Continues : Turn κ → Prop
  | event _ | reset _ => True
  | restart _ => False

/-- A caller resets the indexer behind a runner; others may have used its store. -/
def Runner.reset (store : Database → Database) (r : Runner (Session κ)) :
    Except IndexerError Point × Runner (Session κ) :=
  let (answer, s) := { r.handler.indexer with database := store r.handler.indexer.database }.reset
  (answer, { r with handler := { r.handler with indexer := s } })

theorem Runner.reset_snd (store : Database → Database) (r : Runner (Session κ)) :
    (r.reset store).2 = { r with handler := r.handler.turn (.reset store) } := rfl

namespace Session

/-! ## What waits -/

/-- An event lets no header wait but its own. -/
theorem pending_step (t : Session κ) (c : Call κ) :
    ((t.step c).pending.map ChainEvent.rollForward).Sublist
      (t.pending.map ChainEvent.rollForward ++ [c.event]) := by
  have hm := moved_step t c
  generalize c.event = event at hm ⊢
  generalize (t.call c).1 = answer at hm
  cases hm with
  | waits header room confirmed pending =>
    rw [pending, List.map_append]
    exact List.Sublist.refl _
  | confirms header oldest rest _ effective full oldest_eq confirmed pending =>
    rw [pending, oldest_eq, List.map_append, List.map_cons]
    exact ((List.Sublist.refl _).cons _).append_right _
  | inside point kept dropped header pending_eq same before confirmed pending =>
    have kept_first : (kept ++ [header]).Sublist (kept ++ header :: dropped) :=
      List.Sublist.append_left (List.singleton_sublist.2 List.mem_cons_self) kept
    rw [pending, pending_eq]
    exact (kept_first.map _).trans (List.sublist_append_left _ _)
  | latest point absent same confirmed pending =>
    rw [pending]
    exact List.nil_sublist _
  | fails _ _ _ _ _ pending | fatal _ _ _ _ pending =>
    rw [pending]
    exact List.sublist_append_left _ _

theorem pending_turn (t : Session κ) {turn : Turn κ} (continues : turn.Continues) :
    ((t.turn turn).pending.map ChainEvent.rollForward).Sublist
      (t.pending.map ChainEvent.rollForward ++ turn.event?.toList) := by
  cases turn with
  | event c => exact pending_step t c
  | reset store =>
    obtain ⟨e, -, hr⟩ | ⟨stored, point, -, -, hr⟩ :=
      Indexer.reset_cases { t.indexer with database := store t.indexer.database }
    · have same : (t.turn (.reset store)).pending = t.pending := by
        simp only [turn, pending, hr]
        rfl
      rw [same]
      exact List.sublist_append_left _ _
    · have none : (t.turn (.reset store)).pending = [] := by
        simp only [turn, pending, hr]
        rfl
      rw [none]
      exact List.nil_sublist _
  | restart store => exact continues.elim

/-- What waits was waiting before, or was announced by the events since. -/
theorem pending_turns (t : Session κ) {turns : List (Turn κ)}
    (continues : ∀ turn ∈ turns, turn.Continues) :
    ((t.turns turns).pending.map ChainEvent.rollForward).Sublist
      (t.pending.map ChainEvent.rollForward ++ turns.filterMap Turn.event?) := by
  induction turns generalizing t with
  | nil => exact List.sublist_append_left _ _
  | cons turn turns ih =>
    obtain ⟨first, others⟩ := List.forall_mem_cons.1 continues
    have rest := ih (t.turn turn) others
    have here := (t.pending_turn first).append_right (turns.filterMap Turn.event?)
    rw [List.append_assoc] at here
    have events : (turn :: turns).filterMap Turn.event? =
        turn.event?.toList ++ turns.filterMap Turn.event? := by
      cases h : turn.event? <;> simp [h]
    rw [events]
    exact rest.trans here

/-! ## Runs with resets -/

/-- What can become of a runner over an indexer, with the messages that it accepts from then on. The indexer
may be reset at any time, but not while an event is applied: both hold the same lock. An event that the owner
has taken out of the queue and not yet applied counts as waiting. -/
inductive Served (r₀ : Runner (Session κ)) : List Message → Runner (Session κ) → Prop
  | refl : Served r₀ [] r₀
  | start {accepted : List Message} {r : Runner (Session κ)} (h : Served r₀ accepted r) :
      Served r₀ accepted r.start
  | offer {accepted : List Message} {r : Runner (Session κ)} (h : Served r₀ accepted r) (m : Message)
      (ok : (r.offer m).1 = .accepted) : Served r₀ (accepted ++ [m]) (r.offer m).2
  | ticket {accepted : List Message} {r : Runner (Session κ)} (h : Served r₀ accepted r) :
      Served r₀ accepted r.ticket.2
  | owner {accepted : List Message} {r : Runner (Session κ)} (h : Served r₀ accepted r)
      (w : Surroundings κ) : Served r₀ accepted (r.ownerStep (handle w))
  | reset {accepted : List Message} {r : Runner (Session κ)} (h : Served r₀ accepted r)
      (store : Database → Database) : Served r₀ accepted (r.reset store).2
  | close {accepted : List Message} {r : Runner (Session κ)} (h : Served r₀ accepted r) :
      Served r₀ accepted r.beginClose

/-- Some turns have brought the handler from where it was to where it is. Their events are the first ones of
some messages, in their order, and the next ones are in the queue, unless the owner has ended. -/
structure Owes (t₀ : Session κ) (messages : List Message) (turns : List (Turn κ))
    (r : Runner (Session κ)) : Prop where
  handler : r.handler = t₀.turns turns
  continues : ∀ turn ∈ turns, turn.Continues
  met : turns.filterMap Turn.event? <+: messages.filterMap Message.event?
  owed : r.owner ≠ .ended →
    messages.filterMap Message.event? = turns.filterMap Turn.event? ++ r.queue.filterMap Message.event?
  shut : r.owner = .ended → r.isOpen = false

namespace Owes

variable {t₀ : Session κ} {messages : List Message} {turns : List (Turn κ)} {r : Runner (Session κ)}

/-- Nothing has happened yet, and what waits is owed. -/
theorem refl (shut : r.owner = .ended → r.isOpen = false) : Owes r.handler r.queue [] r where
  handler := rfl
  continues := nofun
  met := List.nil_prefix
  owed _ := rfl
  shut := shut

/-- The runner goes on without the handler and the queue. -/
theorem congr (h : Owes t₀ messages turns r) {r' : Runner (Session κ)} (handler : r'.handler = r.handler)
    (queue : r'.owner ≠ .ended → r.owner ≠ .ended ∧
      r'.queue.filterMap Message.event? = r.queue.filterMap Message.event?)
    (shut : r'.owner = .ended → r'.isOpen = false) : Owes t₀ messages turns r' where
  handler := handler.trans h.handler
  continues := h.continues
  met := h.met
  owed alive := by
    obtain ⟨before, same⟩ := queue alive
    rw [same]
    exact h.owed before
  shut := shut

theorem start (h : Owes t₀ messages turns r) : Owes t₀ messages turns r.start := by
  obtain hr | ⟨unstarted, hr | hr⟩ := r.start_cases
  · rwa [hr]
  · rw [hr]
    exact h.congr rfl (fun alive => absurd rfl alive) fun _ => rfl
  · rw [hr]
    exact h.congr rfl (fun _ => ⟨by rw [unstarted]; nofun, rfl⟩) nofun

theorem offer (h : Owes t₀ messages turns r) {m : Message} (ok : (r.offer m).1 = .accepted) :
    Owes t₀ (messages ++ [m]) turns (r.offer m).2 := by
  obtain ⟨isOpen, hr⟩ := Runner.offer_accepted ok
  rw [hr]
  have alive : r.owner ≠ .ended := fun ended => by simp [h.shut ended] at isOpen
  refine ⟨h.handler, h.continues, ?_, fun _ => ?_, h.shut⟩
  · rw [List.filterMap_append]
    exact h.met.trans (List.prefix_append _ _)
  · rw [List.filterMap_append, h.owed alive, List.filterMap_append, List.append_assoc]

theorem close (h : Owes t₀ messages turns r) : Owes t₀ messages turns r.beginClose := by
  obtain hr | ⟨-, hr⟩ := r.beginClose_cases
  · rw [hr]
    exact h.congr rfl (fun alive => ⟨alive, rfl⟩) h.shut
  · rw [hr]
    exact h.congr rfl (fun alive => absurd rfl alive) fun _ => rfl

theorem reset (h : Owes t₀ messages turns r) (store : Database → Database) :
    Owes t₀ messages (turns ++ [.reset store]) (r.reset store).2 := by
  have events : (turns ++ [Turn.reset store]).filterMap Turn.event? = turns.filterMap Turn.event? := by
    rw [List.filterMap_append]
    exact List.append_nil _
  rw [Runner.reset_snd]
  refine ⟨?_, ?_, ?_, ?_, h.shut⟩
  · rw [turns_append, ← h.handler]
    rfl
  · intro turn hm
    obtain hm | hm := List.mem_append.1 hm
    · exact h.continues turn hm
    · rw [List.mem_singleton.1 hm]
      trivial
  · rw [events]
    exact h.met
  · rw [events]
    exact h.owed

/-- The handler meets the event that the owner takes from the queue. -/
theorem apply (h : Owes t₀ messages turns r) {w : Surroundings κ} {e : ChainEvent}
    {rest : List Message} (queue : r.queue = .event e :: rest)
    (alive : r.owner = .running ∨ r.owner = .draining) {r' : Runner (Session κ)}
    (handler : r'.handler = (handle w e r.handler).2) (queue' : r'.queue = rest)
    (owner : r'.owner ≠ .ended) : Owes t₀ messages (turns ++ [.event ⟨w, e⟩]) r' := by
  have events : (turns ++ [Turn.event ⟨w, e⟩]).filterMap Turn.event? =
      turns.filterMap Turn.event? ++ [e] := by
    rw [List.filterMap_append]
    rfl
  have owed : messages.filterMap Message.event? =
      turns.filterMap Turn.event? ++ [e] ++ rest.filterMap Message.event? := by
    rw [h.owed (Runner.InOrder.alive_ne alive), queue, List.append_assoc]
    rfl
  refine ⟨?_, ?_, ?_, ?_, fun ended => absurd ended owner⟩
  · rw [handler, turns_append, ← h.handler]
    rfl
  · intro turn hm
    obtain hm | hm := List.mem_append.1 hm
    · exact h.continues turn hm
    · rw [List.mem_singleton.1 hm]
      trivial
  · rw [events, owed]
    exact List.prefix_append _ _
  · rw [events, queue']
    exact fun _ => owed

theorem owner (h : Owes t₀ messages turns r) (w : Surroundings κ) :
    ∃ turns', Owes t₀ messages turns' (r.ownerStep (handle w)) := by
  have hs := r.ownerStep_stepped (handle w)
  generalize r.ownerStep (handle w) = r' at hs ⊢
  cases hs with
  | rests => exact ⟨turns, h⟩
  | acknowledges ticket rest queue alive =>
    have ne := Runner.InOrder.alive_ne alive
    exact ⟨turns, h.congr rfl (fun _ => ⟨ne, by rw [queue]; rfl⟩) h.shut⟩
  | applies e rest queue alive answer =>
    exact ⟨_, h.apply queue alive rfl rfl (Runner.InOrder.alive_ne alive)⟩
  | fails e rest queue alive error answer =>
    refine ⟨_, h.apply queue alive rfl rfl ?_⟩
    change (if error.isFatal = true then Owner.finishing else r.owner) ≠ .ended
    split
    · nofun
    · exact Runner.InOrder.alive_ne alive
  | drains queue running =>
    exact ⟨turns, h.congr rfl (fun _ => ⟨by rw [running]; nofun, rfl⟩) nofun⟩
  | finishes queue draining =>
    exact ⟨turns, h.congr rfl (fun _ => ⟨by rw [draining]; nofun, rfl⟩) nofun⟩
  | ends finishing => exact ⟨turns, h.congr rfl (fun alive => absurd rfl alive) fun _ => rfl⟩

end Owes

/-- Whatever happens to a runner, its handler meets what waits, and then what is accepted. -/
theorem Served.owes {r₀ r : Runner (Session κ)} {accepted : List Message} (h : Served r₀ accepted r)
    (shut : r₀.owner = .ended → r₀.isOpen = false) :
    ∃ turns, Owes r₀.handler (r₀.queue ++ accepted) turns r := by
  induction h with
  | refl =>
    rw [List.append_nil]
    exact ⟨[], .refl shut⟩
  | start _ ih =>
    obtain ⟨turns, ih⟩ := ih
    exact ⟨turns, ih.start⟩
  | offer _ m ok ih =>
    obtain ⟨turns, ih⟩ := ih
    rw [← List.append_assoc]
    exact ⟨turns, ih.offer ok⟩
  | ticket _ ih =>
    obtain ⟨turns, ih⟩ := ih
    exact ⟨turns, ih.congr rfl (fun alive => ⟨alive, rfl⟩) ih.shut⟩
  | owner _ w ih =>
    obtain ⟨turns, ih⟩ := ih
    exact ih.owner w
  | reset _ store ih =>
    obtain ⟨turns, ih⟩ := ih
    exact ⟨_, ih.reset store⟩
  | close _ ih =>
    obtain ⟨turns, ih⟩ := ih
    exact ⟨turns, ih.close⟩

end Session

/-- Take a new runner over an indexer, and any order of starting, accepted messages, steps of the owner, resets
and closing, in any surroundings, up to a reset that returned `point`. No header waits then.

Whatever happens later, further resets included, the indexer comes from there by resets and by events that are
the first ones of those that waited in the queue at the reset, followed by those that were accepted later.
What was applied before has no effect any more: the headers that wait are headers that these events announce,
in their order. If no event waited in the queue at the reset, they were all accepted later. -/
theorem pending_of_reset {s : Indexer} {k : κ} {queueSize : Nat} {before after : List Message}
    {r r' : Runner (Session κ)} (served : Session.Served (.new (.since s k) queueSize) before r)
    {store : Database → Database} {point : Point} (reset : (r.reset store).1 = .ok point)
    (later : Session.Served (r.reset store).2 after r') :
    let t := (r.reset store).2.handler
    t.pending = [] ∧ t.indexer.latestPoint = point ∧
    ∃ turns : List (Turn κ), (∀ turn ∈ turns, turn.Continues) ∧ r'.handler = t.turns turns ∧
      turns.filterMap Turn.event? <+: (r.queue ++ after).filterMap Message.event? ∧
      (r'.handler.pending.map ChainEvent.rollForward).Sublist (turns.filterMap Turn.event?) ∧
      (r.queue.filterMap Message.event? = [] →
        ∀ header ∈ r'.handler.pending, .event (.rollForward header) ∈ after) := by
  intro t
  have picked : t.indexer.latestPoint = point ∧ t.pending = [] :=
    Indexer.reset_ok (Prod.ext reset rfl)
  have shut : (r.reset store).2.owner = .ended → (r.reset store).2.isOpen = false := by
    obtain ⟨_, owes⟩ := served.owes nofun
    exact owes.shut
  obtain ⟨turns, owes⟩ := later.owes shut
  have pending := t.pending_turns owes.continues
  rw [picked.2, ← owes.handler] at pending
  refine ⟨picked.2, picked.1, turns, owes.continues, owes.handler, owes.met, pending, ?_⟩
  intro idle header hm
  have announced := owes.met.subset (pending.subset (List.mem_map_of_mem hm))
  rw [List.filterMap_append, show (r.reset store).2.queue = r.queue from rfl, idle] at announced
  obtain ⟨m, hm, event⟩ := List.mem_filterMap.1 announced
  cases m with
  | event e =>
    cases event
    exact hm
  | sync ticket => cases event

/-! ## Headers that were enqueued before -/

/-- The source has no transactions, and nothing fails. -/
def idleSurroundings : Surroundings Unit := ⟨fun _ => .ok [], fun _ _ k db => (.ok (), k, db), id⟩

/-- Two headers are announced to an indexer that lets one wait. One event is applied, the other one is in the
queue. -/
def halfwayRunner : Runner (Session Unit) :=
  let r := (Runner.new (Session.since shallowIndexer ()) 4).start
  let r := Session.pass r (.rollForward (Fixture.header 1)) idleSurroundings
  (r.offer (.event (.rollForward (Fixture.header 2)))).2

/-- After a reset in between, only the second header waits. -/
theorem pending_halfwayRunner :
    let r := halfwayRunner
    let r' := (r.reset id).2.ownerStep (Session.handle idleSurroundings)
    r.handler.pending = [Fixture.header 1] ∧ (r.reset id).2.handler.pending = [] ∧
      r'.handler.pending = [Fixture.header 2] ∧
      ∃ turns : List (Turn Unit), r'.handler = (r.reset id).2.handler.turns turns ∧
        turns.filterMap Turn.event? <+: [.rollForward (Fixture.header 2)] := by
  intro r r'
  have served : Session.Served (.new (.since shallowIndexer ()) 4)
      ([1, 2].map fun slot => .event (.rollForward (Fixture.header slot))) r :=
    .offer (.owner (.offer (.start .refl) _ rfl) idleSurroundings) _ (by decide +kernel)
  have later : Session.Served (r.reset id).2 [] r' := .owner .refl idleSurroundings
  obtain ⟨none, -, turns, -, reached, met, -⟩ :=
    pending_of_reset served (show (r.reset id).1 = .ok .origin by decide +kernel) later
  have waiting : r.queue = [.event (.rollForward (Fixture.header 2))] := by decide +kernel
  rw [waiting] at met
  exact ⟨by decide +kernel, none, by decide +kernel, turns, reached, met⟩

/-- A header is announced to the same indexer before its runner is started. -/
def earlyRunner : Runner (Session Unit) :=
  ((Runner.new (Session.since shallowIndexer ()) 4).offer
    (.event (.rollForward (Fixture.header 1)))).2

/-- It is not so that the headers that wait after a reset were announced by events that were accepted after
it: one that was in the queue is applied when the runner is started. -/
theorem not_accepted_of_pending :
    ¬ ∀ (config : IndexerConfig) (db : Database) (s : Indexer) (queueSize : Nat)
      (before after : List Message) (r r' : Runner (Session Unit)) (store : Database → Database)
      (point : Point), Indexer.new config db = .ok s →
      Session.Served (.new (.since s ()) queueSize) before r → (r.reset store).1 = .ok point →
      Session.Served (r.reset store).2 after r' →
      ∀ header ∈ r'.handler.pending, .event (.rollForward header) ∈ after := by
  intro h
  have served : Session.Served (.new (.since shallowIndexer ()) 4) _ earlyRunner := .offer .refl _ rfl
  have later : Session.Served (earlyRunner.reset id).2 [] _ :=
    .owner (.start .refl) idleSurroundings
  have waits : Fixture.header 1 ∈
      ((earlyRunner.reset id).2.start.ownerStep (Session.handle idleSurroundings)).handler.pending := by
    decide +kernel
  have new : Indexer.new shallowIndexer.config (.new .memory) = .ok shallowIndexer := rfl
  have accepted := h _ _ _ 4 _ _ _ _ id .origin new served (by decide +kernel) later _ waits
  cases accepted

end ChainIndex
