import ChainIndex.Proofs.Storage.WriteSet

/-!
# Commits on disk that fail

* `Engine.Accepts`: the store takes the batch of a write set.
* `Engine.commit_refused`: a write set that is not accepted leaves the engine; `Engine.commit_accepted`: one that is
  accepted is carried out as a whole, and its commit can fail only by not reaching the disk.
* `failed_commit_reads`: so what is read after a commit that failed is what was read before, or what is read after
  one that succeeded. With commits that do not wait for the disk it is always the former.
* `failed_commit_visible`: with those that wait it can be the latter.
-/

namespace ChainIndex

namespace Engine

/-- The store takes the batch of a write set: the buckets to be emptied can be listed, and the batch does not
fail. -/
def Accepts (s : Engine) (w : WriteSet) : Prop :=
  Durable.listing s.faults w = .ok () ∧ s.faults.commit w = none

/-- Every look-up and every scan is answered the same. -/
def ReadsAlike (s t : Engine) : Prop :=
  (∀ writing bucket key, t.get writing bucket key = s.get writing bucket key) ∧
    ∀ bucket range direction, t.scan bucket range direction = s.scan bucket range direction

theorem ReadsAlike.refl (s : Engine) : s.ReadsAlike s := ⟨fun _ _ _ => rfl, fun _ _ _ => rfl⟩

variable {s : Engine} {w : WriteSet} {syncWrites : Bool}

/-- A write set that is not accepted leaves the engine. -/
theorem commit_refused (durable : s.medium = .durable syncWrites) (refused : ¬s.Accepts w) :
    ∃ e, s.commit w = (.error e, s) := by
  obtain ⟨medium, contents, faults⟩ := s
  obtain rfl : medium = .durable syncWrites := durable
  simp only [commit, Durable.commit]
  cases listed : Durable.listing faults w with
  | error e => exact ⟨e, rfl⟩
  | ok u =>
    cases fault : faults.commit w with
    | some e => exact ⟨e, rfl⟩
    | none => exact absurd ⟨listed, fault⟩ refused

/-- One that is accepted is carried out as a whole, whatever the answer is. -/
theorem commit_accepted (durable : s.medium = .durable syncWrites) (accepted : s.Accepts w) :
    s.commit w = (if syncWrites then Faults.raise s.faults.sync else .ok (),
      { s with contents := w.applyTo s.contents }) := by
  obtain ⟨listed, fault⟩ := accepted
  unfold commit Durable.commit
  rw [durable]
  simp only [listed, fault, Durable.applyBatch_batch]
  cases syncWrites <;> rfl

end Engine

/-- A commit of a durable engine that fails. If the store did not take the batch, every look-up and every scan is
answered as before. If it did, the commits wait for the disk and just that failed; then everything is answered as
after the whole write set. -/
theorem failed_commit_reads {s t : Engine} {w : WriteSet} {syncWrites : Bool} {e : StoreError}
    (durable : s.medium = .durable syncWrites) (failed : s.commit w = (.error e, t)) :
    (¬s.Accepts w → s.ReadsAlike t) ∧
    (s.Accepts w → syncWrites = true ∧ s.faults.sync = some e ∧
      Engine.ReadsAlike { s with contents := w.applyTo s.contents } t) := by
  constructor
  · intro refused
    obtain ⟨e', left⟩ := Engine.commit_refused durable refused
    rw [left] at failed
    cases failed
    exact .refl s
  · intro accepted
    rw [Engine.commit_accepted durable accepted] at failed
    cases syncWrites with
    | false => cases failed
    | true =>
      cases fault : s.faults.sync with
      | none =>
        simp [fault, Faults.raise] at failed
      | some e' =>
        simp only [fault, Faults.raise, if_true] at failed
        cases failed
        exact ⟨rfl, rfl, .refl _⟩

/-- An output is put, and the disk is not reached: the commit fails, and the output is there. -/
theorem failed_commit_visible :
    let s : Engine := ⟨.durable true, .empty, { sync := some (.backend "sync failed") }⟩
    let w := WriteSet.empty.add (.put .utxos [1] [7])
    (s.commit w).1 = .error (.backend "sync failed") ∧ s.get false .utxos [1] = .ok none ∧
      (s.commit w).2.get false .utxos [1] = .ok (some [7]) := by
  exact ⟨rfl, rfl, rfl⟩

/-- What the commit that failed has left is read like all of the write set. -/
theorem failed_commit_reads_unsynced :
    let s : Engine := ⟨.durable true, .empty, { sync := some (.backend "sync failed") }⟩
    let w := WriteSet.empty.add (.put .utxos [1] [7])
    s.Accepts w ∧ Engine.ReadsAlike { s with contents := w.applyTo s.contents } (s.commit w).2 := by
  intro s w
  have accepted : s.Accepts w := ⟨rfl, rfl⟩
  have failed : s.commit w = (.error (.backend "sync failed"), (s.commit w).2) := rfl
  exact ⟨accepted, ((failed_commit_reads rfl failed).2 accepted).2.2⟩

end ChainIndex
