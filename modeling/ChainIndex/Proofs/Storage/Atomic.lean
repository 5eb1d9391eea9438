import ChainIndex.Storage.Batch

/-!
# Commits that fail as a whole

* `Engine.CommitsAtomically`: a commit that fails leaves the contents as they were. Engines in memory
  always do so; a durable one does unless it can fail to reach the disk (`Engine.ReachesDisk`).
* `Database.update_error`, `BatchWriter.execute_error`: over such an engine a scope and a batch that fail
  leave the whole database.
* `BatchWriter.execute_writer`: no change waits after an execution, whatever came of it.
-/

namespace ChainIndex

/-- A commit that fails leaves the contents as they were. -/
def Engine.CommitsAtomically (s : Engine) : Prop :=
  ∀ w e t, s.commit w = (.error e, t) → t.contents = s.contents

theorem Engine.commitsAtomically_memory (c : Contents) (faults : Faults) :
    Engine.CommitsAtomically ⟨.memory, c, faults⟩ := by
  intro w e t h
  simp only [Engine.commit] at h
  split at h
  · cases h; rfl
  · cases h

theorem Engine.commitsAtomically_durable {c : Contents} {faults : Faults} {syncWrites : Bool}
    (hsync : syncWrites = true → faults.sync = none) :
    Engine.CommitsAtomically ⟨.durable syncWrites, c, faults⟩ := by
  intro w e t h
  simp only [Engine.commit, Durable.commit] at h
  split at h
  · cases h; rfl
  · split at h
    · cases h; rfl
    · split at h
      · rename_i hs
        simp [hsync hs, Faults.raise] at h
      · cases h

/-- No commit of the engine waits for the disk in vain. -/
def Engine.ReachesDisk (s : Engine) : Prop := s.medium = .durable true → s.faults.sync = none

instance (s : Engine) : Decidable s.ReachesDisk := inferInstanceAs (Decidable (_ → _))

theorem Engine.ReachesDisk.commitsAtomically {s : Engine} (h : s.ReachesDisk) :
    s.CommitsAtomically := by
  obtain ⟨medium, contents, faults⟩ := s
  cases medium with
  | memory => exact commitsAtomically_memory contents faults
  | durable syncWrites =>
    refine commitsAtomically_durable fun hs => ?_
    subst hs
    exact h rfl

/-- Apart from the contents, a commit leaves the engine. -/
theorem Engine.commit_snd (s : Engine) (w : WriteSet) :
    (s.commit w).2 = { s with contents := (s.commit w).2.contents } := by
  unfold Engine.commit
  split
  · split <;> rfl
  · rfl

theorem Engine.CommitsAtomically.eq {s t : Engine} (ha : s.CommitsAtomically) {w : WriteSet}
    {e : StoreError} (h : s.commit w = (.error e, t)) : t = s := by
  have hc := ha w e t h
  have ht := s.commit_snd w
  rw [h] at ht
  simp only at ht
  rw [ht, hc]

namespace Database

variable {α : Type}

/-- The database with other contents. -/
def withContents (db : Database) (c : Contents) : Database :=
  { db with engine := { db.engine with contents := c } }

@[simp] theorem contents_withContents (db : Database) (c : Contents) :
    (db.withContents c).contents = c := rfl

/-- A writing scope that fails leaves the database, if commits are atomic. -/
theorem update_error {db db' : Database} {body : Update StoreError α} {e : StoreError}
    (ha : db.engine.CommitsAtomically) (h : db.update body = (.error e, db')) : db' = db := by
  unfold update at h
  split at h
  · cases h; rfl
  · rename_i hp
    simp only [Bool.not_eq_true] at hp
    split at h
    · cases h
      cases db
      simp_all [ScopeError.isPanic]
    · split at h
      · cases h
      · split at h
        · cases h
        · rename_i e' engine hc
          cases h
          rw [ha.eq hc]

end Database

/-- No change waits after an execution, whatever came of it. -/
theorem BatchWriter.execute_writer (w : BatchWriter) (db : Database) :
    (w.execute db).2.1 = .empty := by
  unfold execute
  split <;> rfl

/-- A batch that fails leaves the database, if commits are atomic. -/
theorem BatchWriter.execute_error {w w' : BatchWriter} {db db' : Database} {e : StoreError}
    (ha : db.engine.CommitsAtomically) (h : w.execute db = (.error e, w', db')) : db' = db := by
  unfold execute at h
  split at h
  · cases h
  · obtain ⟨hr, hw⟩ := Prod.mk.inj h
    exact Database.update_error ha (Prod.ext hr (Prod.mk.inj hw).2)

end ChainIndex
