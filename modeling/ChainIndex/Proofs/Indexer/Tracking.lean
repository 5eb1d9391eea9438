import ChainIndex.Fixture.Basic
import ChainIndex.Proofs.Indexer.Session

/-!
# The indexer tracks the announced chain

* `Session.Continues`: a chain that was announced behind settled blocks is what was confirmed since, in order,
  followed by what waits, and the latest point is that of the last confirmed block. An event keeps it
  (`Session.Continues.step`).
* `Session.Tracks`: the same of all that a session has announced. Every call keeps it (`Session.Tracks.step`).
* `announced_eq_confirmed_append_pending`: so it holds all through a session, whatever fails; the
  window stays within its depth, what is confirmed is never taken back, and a header is confirmed
  only by the announcement of its last successor that the depth asks for.

Rolling back is the part that needs the blocks on the chain to differ: the announced chain is cut at
the first block of the point, and the window at the first one that waits.
-/

namespace ChainIndex

variable {κ : Type}

/-! ## Blocks and cuts -/

theorem Point.sameBlock_iff {p q : Point} : p.sameBlock q = true ↔ p.slot = q.slot ∧ p.hash = q.hash := by
  simp [sameBlock]

theorem Point.sameBlock_trans {p q r : Point} (h₁ : p.sameBlock r = true) (h₂ : q.sameBlock r = true) :
    p.sameBlock q = true := by
  rw [sameBlock_iff] at h₁ h₂ ⊢
  exact ⟨h₁.1.trans h₂.1.symm, h₁.2.trans h₂.2.symm⟩

theorem Point.sameBlock_comm (p q : Point) : p.sameBlock q = q.sameBlock p := by
  rw [Bool.eq_iff_iff, sameBlock_iff, sameBlock_iff]
  exact ⟨fun h => ⟨h.1.symm, h.2.symm⟩, fun h => ⟨h.1.symm, h.2.symm⟩⟩

theorem cutAfter_append_cons {point : Point} {kept dropped : List BlockHeader} {header : BlockHeader}
    (before : ∀ h ∈ kept, h.point.sameBlock point = false)
    (same : header.point.sameBlock point = true) :
    cutAfter point (kept ++ header :: dropped) = kept ++ [header] := by
  have hfind : (kept ++ header :: dropped).findIdx? (fun h => h.point.sameBlock point) =
      some kept.length := by
    rw [List.findIdx?_append, List.findIdx?_eq_none_iff.2 before]
    simp [List.findIdx?_cons, same]
  simp [cutAfter, hfind, List.take_append, List.take_of_length_le]

theorem cutAfter_of_absent {point : Point} {chain : List BlockHeader}
    (absent : ∀ h ∈ chain, h.point.sameBlock point = false) : cutAfter point chain = [] := by
  simp [cutAfter, List.findIdx?_eq_none_iff.2 absent]

/-- The blocks of a chain differ from each other. -/
def Differ (chain : List BlockHeader) : Prop :=
  chain.Pairwise fun a b => a.point.sameBlock b.point = false

/-- On a chain of different blocks, nothing before a block of the point is of the point. -/
theorem Differ.before {point : Point} {front rest : List BlockHeader} {header : BlockHeader}
    (h : Differ (front ++ header :: rest)) (same : header.point.sameBlock point = true) :
    ∀ g ∈ front, g.point.sameBlock point = false := by
  intro g hg
  have hne := (List.pairwise_append.1 h).2.2 g hg header (by simp)
  cases hs : g.point.sameBlock point with
  | false => rfl
  | true =>
    rw [Point.sameBlock_trans hs same] at hne
    cases hne

theorem Apart.differ {start : Point} {chain : List BlockHeader} (h : Apart start chain) :
    Differ chain := h.1

theorem Apart.before {start point : Point} {front rest : List BlockHeader} {header : BlockHeader}
    (h : Apart start (front ++ header :: rest)) (same : header.point.sameBlock point = true) :
    ∀ g ∈ front, g.point.sameBlock point = false := h.differ.before same

/-- A chain is cut at a block in its later part. -/
theorem cutAfter_inside {point : Point} {front kept dropped : List BlockHeader}
    {header : BlockHeader} (differ : Differ (front ++ (kept ++ header :: dropped)))
    (same : header.point.sameBlock point = true) :
    cutAfter point (front ++ (kept ++ header :: dropped)) = front ++ (kept ++ [header]) := by
  rw [← List.append_assoc] at differ ⊢
  rw [cutAfter_append_cons (differ.before same) same, List.append_assoc]

/-- A chain is cut at the end of its earlier part. -/
theorem cutAfter_tip {start point : Point} {front rest : List BlockHeader}
    (differ : Differ (front ++ rest)) (absent : ∀ h ∈ rest, h.point.sameBlock point = false)
    (same : point.sameBlock (tip start front) = true) : cutAfter point (front ++ rest) = front := by
  rcases List.eq_nil_or_concat front with rfl | ⟨before, last, rfl⟩
  · exact cutAfter_of_absent absent
  · rw [List.concat_eq_append] at *
    rw [tip_append_singleton, Point.sameBlock_comm] at same
    rw [List.append_assoc, List.singleton_append] at *
    exact cutAfter_append_cons (differ.before same) same

/-! ## One call -/

namespace Session

/-- The announced chain is what was confirmed, followed by what waits. -/
structure Tracks (config : IndexerConfig) (start : Point) (t : Session κ) : Prop where
  ready : t.indexer.Ready config
  announced_eq : t.announced = t.confirmed ++ t.pending
  latest_eq : t.indexer.latestPoint = tip start t.confirmed

theorem announced_step (t : Session κ) (c : Call κ) :
    (t.step c).announced = announce t.announced (c.event, (t.call c).1) := by
  simp [announced, step]

theorem ready_step {config : IndexerConfig} {t : Session κ} (h : t.indexer.Ready config)
    (c : Call κ) : (t.step c).indexer.Ready config := by
  obtain ⟨⟨source, consumer, store⟩, event⟩ := c
  have hs := h.store (store t.indexer.database)
  cases event with
  | rollForward header =>
    exact hs.forwarded
      (Indexer.rollForward_forwarded _ source consumer.logged header (t.state, t.handed))
  | rollBackward point => exact hs.rolled (Indexer.rollBackward_rolled _ point)

theorem pending_length_le {config : IndexerConfig} {t : Session κ} (h : t.indexer.Ready config) :
    t.pending.length ≤ config.confirmationDepth.toNat := by
  rw [← h.capacity_eq]
  exact t.indexer.window.length_le

/-- The chain that was announced behind some settled blocks is what was confirmed since, followed by what
waits. -/
def Continues (settled announced : List BlockHeader) (start : Point) (t : Session κ) : Prop :=
  ∃ since, t.confirmed = settled ++ since ∧ announced = since ++ t.pending ∧
    t.indexer.latestPoint = tip start since

/-- An event that moves the headers announces them. -/
theorem Continues.step {settled announced : List BlockHeader} {start : Point} {t : Session κ}
    (h : t.Continues settled announced start) (differ : Differ announced) (c : Call κ) :
    (t.step c).Continues settled (announce announced (c.event, (t.call c).1)) start := by
  obtain ⟨since, confirmed_eq, rfl, latest_eq⟩ := h
  have hm := moved_step t c
  generalize c.event = event at hm ⊢
  generalize (t.call c).1 = answer at hm ⊢
  cases hm with
  | waits header room confirmed pending latest =>
    refine ⟨since, confirmed.trans confirmed_eq, ?_, latest.trans latest_eq⟩
    simp [announce, Answer.isEffective, pending]
  | confirms header oldest rest _ effective full oldest_eq confirmed pending latest =>
    refine ⟨since ++ [oldest], ?_, ?_, ?_⟩
    · rw [confirmed, confirmed_eq, List.append_assoc]
    · simp [announce, effective, pending, oldest_eq]
    · rw [latest, tip_append_singleton]
  | fails header e notConsumer full confirmed pending latest =>
    refine ⟨since, confirmed.trans confirmed_eq, ?_, latest.trans latest_eq⟩
    simp [announce, Answer.isEffective, notConsumer, pending]
  | inside point kept dropped header pending_eq same before confirmed pending latest =>
    refine ⟨since, confirmed.trans confirmed_eq, ?_, latest.trans latest_eq⟩
    rw [pending]
    rw [pending_eq] at differ ⊢
    exact cutAfter_inside differ same
  | latest point absent same confirmed pending latest =>
    refine ⟨since, confirmed.trans confirmed_eq, ?_, latest.trans latest_eq⟩
    rw [pending, List.append_nil]
    exact cutAfter_tip differ absent (latest_eq ▸ same)
  | fatal point absent other confirmed pending latest =>
    refine ⟨since, confirmed.trans confirmed_eq, ?_, latest.trans latest_eq⟩
    rw [pending]
    rfl

theorem Tracks.step {config : IndexerConfig} {start : Point} {t : Session κ}
    (h : t.Tracks config start) (differ : Differ t.announced) (c : Call κ) :
    (t.step c).Tracks config start := by
  have continues : t.Continues [] t.announced start := ⟨_, rfl, h.announced_eq, h.latest_eq⟩
  obtain ⟨since, rfl, announced, latest⟩ := continues.step differ c
  exact ⟨ready_step h.ready c, (announced_step t c).trans announced, latest⟩

/-- A confirmation needs the depth of successors, and the new header is the last of them. -/
theorem Tracks.of_confirmed_ne {config : IndexerConfig} {start : Point} {t : Session κ}
    (h : t.Tracks config start) {c : Call κ} (hne : (t.step c).confirmed ≠ t.confirmed) :
    ∃ header oldest between, c.event = .rollForward header ∧
      Answer.isEffective (t.call c).1 = true ∧
      (t.step c).confirmed = t.confirmed ++ [oldest] ∧
      (t.step c).announced = t.confirmed ++ oldest :: (between ++ [header]) ∧
      (between ++ [header]).length = config.confirmationDepth.toNat := by
  have hm := moved_step t c
  have ha := announced_step t c
  generalize c.event = event at hm ha
  generalize (t.call c).1 = answer at hm ha
  cases hm with
  | confirms header oldest rest _ effective full oldest_eq confirmed pending latest =>
    refine ⟨header, oldest, rest, rfl, effective, confirmed, ?_, ?_⟩
    · simp [ha, announce, effective, h.announced_eq, oldest_eq]
    · have hle := pending_length_le h.ready
      rw [h.ready.capacity_eq] at full
      rw [oldest_eq] at full hle
      exact Nat.le_antisymm (by simpa using hle) (by simpa using full)
  | waits _ _ confirmed | fails _ _ _ _ confirmed | inside _ _ _ _ _ _ _ confirmed
  | latest _ _ _ confirmed | fatal _ _ _ confirmed => exact absurd confirmed hne

/-- What waits differs from the latest point. -/
theorem Tracks.latest_absent {config : IndexerConfig} {start : Point} {t : Session κ}
    (h : t.Tracks config start) (apart : Apart start t.announced) :
    ∀ g ∈ t.pending, g.point.sameBlock t.indexer.latestPoint = false := by
  intro g hg
  rw [h.announced_eq] at apart
  rw [h.latest_eq]
  rcases List.eq_nil_or_concat t.confirmed with hc | ⟨front, last, hc⟩
  · rw [hc]
    exact apart.2 g (by simp [hg])
  · rw [List.concat_eq_append] at hc
    rw [hc] at apart ⊢
    rw [tip_append_singleton, Point.sameBlock_comm]
    exact (List.pairwise_append.1 apart.1).2.2 last (by simp) g hg

/-- Going back to the latest point or to the point of the reset leaves what is confirmed. -/
theorem Tracks.announced_of_rollBackward {config : IndexerConfig} {start point : Point}
    {t : Session κ} (h : t.Tracks config start) (apart : Apart start t.announced) {c : Call κ}
    (event : c.event = .rollBackward point) (ok : (t.call c).1 = .ok ())
    (same : point.sameBlock t.indexer.latestPoint = true ∨ point.sameBlock start = true) :
    (t.step c).announced = t.confirmed := by
  have hm := moved_step t c
  rw [announced_step]
  rw [event, ok] at hm ⊢
  cases hm with
  | inside _ kept dropped header pending_eq hs before confirmed pending latest =>
    have hmem : header ∈ t.pending := by simp [pending_eq]
    have hlatest := h.latest_absent apart header hmem
    have hstart := apart.2 header (by simp [h.announced_eq, hmem])
    rcases same with same | same
    · rw [Point.sameBlock_trans hs (by rwa [Point.sameBlock_comm])] at hlatest
      cases hlatest
    · rw [Point.sameBlock_trans hs (by rwa [Point.sameBlock_comm])] at hstart
      cases hstart
  | latest _ absent same =>
    rw [h.latest_eq] at same
    rw [h.announced_eq] at apart ⊢
    exact cutAfter_tip apart.differ absent same

/-- A step takes nothing back that is confirmed. -/
theorem confirmed_prefix_step (t : Session κ) (c : Call κ) :
    t.confirmed <+: (t.step c).confirmed := by
  have hm := moved_step t c
  generalize c.event = event at hm
  generalize (t.call c).1 = answer at hm
  cases hm with
  | confirms _ oldest _ _ _ _ _ confirmed => exact ⟨[oldest], confirmed.symm⟩
  | waits _ _ confirmed | fails _ _ _ _ confirmed | inside _ _ _ _ _ _ _ confirmed
  | latest _ _ _ confirmed | fatal _ _ _ confirmed =>
    exact ⟨[], by rw [confirmed, List.append_nil]⟩

theorem confirmed_prefix_after (t : Session κ) (calls : List (Call κ)) :
    t.confirmed <+: (t.after calls).confirmed := by
  induction calls generalizing t with
  | nil => exact List.prefix_rfl
  | cons c calls ih => exact (confirmed_prefix_step t c).trans (ih (t.step c))

theorem after_append (t : Session κ) (front rest : List (Call κ)) :
    t.after (front ++ rest) = (t.after front).after rest := List.foldl_append

/-- A session tracks the announced chain as long as the blocks on it differ. -/
theorem Tracks.after_of_differ {config : IndexerConfig} {start : Point} {t : Session κ}
    (h : t.Tracks config start) (calls : List (Call κ))
    (differ : ∀ front, front <+: calls → Differ (t.after front).announced) :
    (t.after calls).Tracks config start := by
  induction calls generalizing t with
  | nil => exact h
  | cons c calls ih =>
    refine ih (h.step (differ [] List.nil_prefix) c) fun front hf => ?_
    exact differ (c :: front) (List.cons_prefix_cons.2 ⟨rfl, hf⟩)

theorem Tracks.after {config : IndexerConfig} {start : Point} {t : Session κ}
    (h : t.Tracks config start) (calls : List (Call κ))
    (apart : ∀ front, front <+: calls → Apart start (t.after front).announced) :
    (t.after calls).Tracks config start :=
  h.after_of_differ calls fun front hf => (apart front hf).differ

/-- A session that begins with a reset. -/
def since (s : Indexer) (k : κ) : Session κ := { indexer := s, state := k }

theorem Tracks.since {config : IndexerConfig} {s₀ s : Indexer} {start : Point}
    (reachable : s₀.Reachable config) (reset : s₀.reset = (.ok start, s)) (k : κ) :
    (since s k).Tracks config start := by
  have ready := reachable.ready.reset
  rw [reset] at ready
  obtain ⟨latest, pending⟩ := Indexer.reset_ok reset
  exact ⟨ready, pending.symm, latest⟩

end Session

/-- After a reset that returned `start`, and in the course of any calls that meet any failures, the
announced chain is what was confirmed since, in order, followed by what waits, and no more than the
depth waits. What is confirmed is never taken back, and a header is confirmed only when the
announcement that was just accepted is its last successor that the depth asks for. Going back to the
latest point, or to `start`, leaves what is confirmed. -/
theorem announced_eq_confirmed_append_pending {config : IndexerConfig} {s₀ s : Indexer}
    {start : Point} (reachable : s₀.Reachable config) (reset : s₀.reset = (.ok start, s)) (k : κ)
    (calls : List (Call κ))
    (apart : ∀ front, front <+: calls → Apart start ((Session.since s k).after front).announced) :
    let t := (Session.since s k).after calls
    t.announced = t.confirmed ++ t.pending ∧
    t.pending.length ≤ config.confirmationDepth.toNat ∧
    t.indexer.latestPoint = tip start t.confirmed ∧
    (∀ front, front <+: calls → ((Session.since s k).after front).confirmed <+: t.confirmed) ∧
    ∀ c : Call κ,
      ((t.step c).confirmed ≠ t.confirmed → ∃ header oldest between, c.event = .rollForward header ∧
        Answer.isEffective (t.call c).1 = true ∧
        (t.step c).confirmed = t.confirmed ++ [oldest] ∧
        (t.step c).announced = t.confirmed ++ oldest :: (between ++ [header]) ∧
        (between ++ [header]).length = config.confirmationDepth.toNat) ∧
      ∀ point, c.event = .rollBackward point → (t.call c).1 = .ok () →
        (point.sameBlock t.indexer.latestPoint = true ∨ point.sameBlock start = true) →
        (t.step c).announced = t.confirmed := by
  intro t
  have h : t.Tracks config start := (Session.Tracks.since reachable reset k).after calls apart
  have hapart : Apart start t.announced := apart calls List.prefix_rfl
  refine ⟨h.announced_eq, Session.pending_length_le h.ready, h.latest_eq, ?_, fun c => ⟨?_, ?_⟩⟩
  · rintro front ⟨rest, rfl⟩
    simp only [t, Session.after_append]
    exact Session.confirmed_prefix_after _ rest
  · exact h.of_confirmed_ne
  · intro point event ok same
    exact h.announced_of_rollBackward hapart event ok same

/-- A fetch fails, then the consumer, and then a fork replaces what waits. -/
def forkedCalls : List (Call Unit) :=
  let works : Surroundings Unit := ⟨fun _ => .ok [], fun _ _ k db => (.ok (), k, db), id⟩
  let offline : Surroundings Unit := { works with source := fun _ => .error "offline" }
  let refused : Surroundings Unit :=
    { works with consumer := fun _ _ k db => (.error "refused", k, db) }
  let forward (slot : UInt64) : ChainEvent := .rollForward (Fixture.header slot)
  [⟨works, forward 1⟩, ⟨works, forward 2⟩, ⟨offline, forward 3⟩, ⟨refused, forward 3⟩,
    ⟨works, .rollBackward (Fixture.point 2)⟩, ⟨works, forward 4⟩]

/-- Through the failures and the fork, the first block is confirmed and two wait. -/
theorem announced_forkedCalls :
    let s : Indexer :=
      { config := { confirmationDepth := 2 }, database := .new .memory, window := .empty 2 }
    let t := (Session.since s.reset.2 ()).after forkedCalls
    t.announced = t.confirmed ++ t.pending ∧
      t.announced = [Fixture.header 1, Fixture.header 2, Fixture.header 4] ∧
      t.confirmed = [Fixture.header 1] := by
  intro s t
  have reachable : s.Reachable { confirmationDepth := 2 } :=
    .new (show Indexer.new _ (.new .memory) = .ok s from rfl)
  have chains : ∀ n ≤ forkedCalls.length,
      Apart .origin ((Session.since s.reset.2 ()).after (forkedCalls.take n)).announced := by
    decide +kernel
  have apart : ∀ front, front <+: forkedCalls →
      Apart .origin ((Session.since s.reset.2 ()).after front).announced := by
    intro front hf
    rw [List.prefix_iff_eq_take.1 hf]
    exact chains _ hf.length_le
  exact ⟨(announced_eq_confirmed_append_pending reachable rfl () forkedCalls apart).1,
    by decide +kernel, by decide +kernel⟩

end ChainIndex
