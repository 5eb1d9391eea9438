import ChainIndex.Proofs.Storage.Media

/-!
# What a scope reads and leaves

* `Closure.transcript`: a scope as it runs over an engine: each look-up with the changes that were made
  before it and with its answer, all changes, and the end. It is the run of the body
  (`Closure.body_eq_transcript`).
* `WriteSet.applyTo_ofWrites`, `WriteSet.lookup_ofWrites`: pending changes amount to the changes made one
  after the other; a key is untouched exactly if none of them is about it.
* `update_eq_direct`: so every look-up is answered as if the changes before it had been made directly on the
  contents, a scope that is committed leaves what all of its changes leave, and one that fails leaves
  everything; `failed_update_visible`: except one whose commit only waited for the disk in vain.
-/

namespace ChainIndex

/-! ## Changes that wait -/

theorem KeyMap.isEmpty_insert {α : Type} (m : KeyMap α) (key : Bytes) (value : α) :
    (m.insert key value).isEmpty = false := by
  have found : (m.insert key value).get? key = some value := by rw [get?_insert, if_pos rfl]
  refine Bool.eq_false_iff.2 fun empty => ?_
  rw [isEmpty, List.isEmpty_iff] at empty
  rw [get?, empty] at found
  cases found

namespace WriteSet

theorem applyTo_foldl_add (w : WriteSet) (changes : List Write) (c : Contents) :
    (changes.foldl add w).applyTo c = (w.applyTo c).performAll changes := by
  induction changes generalizing w with
  | nil => rfl
  | cons x rest ih => rw [List.foldl_cons, ih, applyTo_add]; rfl

/-- Pending changes amount to the changes made one after the other. -/
theorem applyTo_ofWrites (changes : List Write) (c : Contents) :
    (ofWrites changes).applyTo c = c.performAll changes := by
  rw [ofWrites, applyTo_foldl_add, applyTo_empty]

theorem ofWrites_append_singleton (changes : List Write) (x : Write) :
    ofWrites (changes ++ [x]) = (ofWrites changes).add x := List.foldl_append

theorem lookup_foldl_add {w : WriteSet} {changes : List Write} {b : Bucket} {k : Bytes} :
    (changes.foldl add w).lookup b k = .untouched ↔
      w.lookup b k = .untouched ∧ ∀ x ∈ changes, x.value? b k = none := by
  induction changes generalizing w with
  | nil => simp
  | cons x rest ih =>
    rw [List.foldl_cons, ih, lookup_add, List.forall_mem_cons]
    rcases x.value? b k with _ | _ | value <;> simp

/-- A key is untouched exactly if no change is about it. -/
theorem lookup_ofWrites {changes : List Write} {b : Bucket} {k : Bytes} :
    (ofWrites changes).lookup b k = .untouched ↔ ∀ x ∈ changes, x.value? b k = none := by
  rw [ofWrites, lookup_foldl_add, lookup_empty]
  exact and_iff_right rfl

/-- A set with one more change is not empty, whatever the change. -/
theorem isEmpty_add (w : WriteSet) (x : Write) : (w.add x).isEmpty = false := by
  refine Bool.eq_false_iff.2 fun empty => ?_
  have nothing := List.all_eq_true.1 empty x.bucket x.bucket.mem_all
  cases x with
  | put bucket key value | delete bucket key =>
    simp [add, Write.bucket, Buckets.get_set, KeyMap.isEmpty_insert] at nothing
  | clear bucket => simp [add, Write.bucket, Buckets.get_set] at nothing

theorem isEmpty_ofWrites {changes : List Write} (ne : changes ≠ []) :
    (ofWrites changes).isEmpty = false := by
  obtain ⟨front, x, rfl⟩ : ∃ front x, changes = front ++ [x] :=
    ⟨_, _, (List.dropLast_append_getLast ne).symm⟩
  rw [ofWrites_append_singleton, isEmpty_add]

end WriteSet

/-! ## Look-ups -/

namespace Update

/-- A look-up finds what the pending changes leave. Only a key that none of them is about is read in the
engine, so only there the look-up can fail. -/
theorem get_cases (engine : Engine) (w : WriteSet) (bucket : Bucket) (key : Bytes) :
    get (ε := StoreError) bucket key engine w =
        .ok ((w.applyTo engine.contents).lookup bucket key, w) ∨
      ∃ e, get (ε := StoreError) bucket key engine w = .error e ∧
        engine.faults.get true bucket key = some e ∧ w.lookup bucket key = .untouched := by
  rw [WriteSet.lookup_applyTo, Update.get]
  cases hw : w.lookup bucket key with
  | deleted => exact .inl rfl
  | value bytes => exact .inl rfl
  | untouched =>
    rw [Engine.get]
    cases hf : engine.faults.get true bucket key with
    | none => exact .inl rfl
    | some e => exact .inr ⟨e, rfl, rfl, rfl⟩

variable {α : Type} {p : Update StoreError α} {engine : Engine} {w w' : WriteSet}

theorem observing_ok {a : α} (h : p engine w = .ok (a, w')) :
    observing p engine w = .ok (.ok a, w') := by
  unfold observing
  change ((p engine w).bind _).tryCatch _ = _
  rw [h]
  rfl

theorem observing_error {e : StoreError} (h : p engine w = .error e) :
    observing p engine w = .ok (.error e, w) := by
  unfold observing
  change ((p engine w).bind _).tryCatch _ = _
  rw [h]
  rfl

end Update

/-- What the closure of a writing scope does, call by call: changes, look-ups on whose answers the rest may
hang, and an end with a value or an error. A look-up that fails is an answer as well: a closure need not give
up then, as a `Scope` does. -/
inductive Closure (α : Type) where
  | done (value : α)
  | fail (e : StoreError)
  | write (change : Write) (next : Closure α)
  | get (bucket : Bucket) (key : Bytes) (next : Except StoreError (Option Bytes) → Closure α)

namespace Closure

/-- A look-up in a scope: the changes that were made before it, the key, and the answer. -/
structure Lookup where
  before : List Write
  bucket : Bucket
  key : Bytes
  answer : Except StoreError (Option Bytes)

/-- The key is answered as if the changes before the look-up had been made directly on the contents. Only if
none of them is about the key, the engine may fail to read it instead. -/
def Lookup.Faithful (engine : Engine) (l : Lookup) : Prop :=
  l.answer = .ok ((engine.contents.performAll l.before).lookup l.bucket l.key) ∨
    ∃ e, l.answer = .error e ∧ engine.faults.get true l.bucket l.key = some e ∧
      ∀ x ∈ l.before, x.value? l.bucket l.key = none

/-- What a scope did: its look-ups and its changes in order, and how it ended. -/
structure Transcript (α : Type) where
  lookups : List Lookup
  changes : List Write
  result : Except StoreError α

variable {α : Type}

/-- The program that runs in a database. -/
def body : Closure α → Update StoreError α
  | done value => pure value
  | fail e => throw e
  | write change next => do Update.write change; next.body
  | get bucket key next => do (next (← observing (Update.get bucket key))).body

/-- The transcript of a scope over an engine, after the changes made so far. -/
def transcript (engine : Engine) (before : List Write) : Closure α → Transcript α
  | done value => ⟨[], before, .ok value⟩
  | fail e => ⟨[], before, .error e⟩
  | write change next => next.transcript engine (before ++ [change])
  | get bucket key next =>
    let answer := (Update.get (ε := StoreError) bucket key engine (.ofWrites before)).map (·.1)
    let rest := (next answer).transcript engine before
    { rest with lookups := ⟨before, bucket, key, answer⟩ :: rest.lookups }

variable (s : Closure α) (engine : Engine) (before : List Write)

/-- The transcript is that of the body. -/
theorem body_eq_transcript : s.body engine (.ofWrites before) =
    (s.transcript engine before).result.map
      (·, .ofWrites (s.transcript engine before).changes) := by
  induction s generalizing before with
  | done value => rfl
  | fail e => rfl
  | write change next ih =>
    have rest := ih (before ++ [change])
    rw [WriteSet.ofWrites_append_singleton] at rest
    exact rest
  | get bucket key next ih =>
    have run : (get bucket key next).body engine (.ofWrites before) =
        (observing (Update.get bucket key) engine (.ofWrites before)).bind fun p =>
          (next p.1).body engine p.2 := rfl
    have answered : observing (Update.get (ε := StoreError) bucket key) engine (.ofWrites before) =
        .ok ((Update.get bucket key engine (.ofWrites before)).map (·.1), .ofWrites before) := by
      obtain found | ⟨e, failed, -⟩ := Update.get_cases engine (.ofWrites before) bucket key
      · exact (Update.observing_ok found).trans (by rw [found]; rfl)
      · exact (Update.observing_error failed).trans (by rw [failed]; rfl)
    rw [run, answered]
    exact ih _ before

theorem prefix_changes_transcript : before <+: (s.transcript engine before).changes := by
  induction s generalizing before with
  | done value => exact List.prefix_rfl
  | fail e => exact List.prefix_rfl
  | write change next ih => exact (List.prefix_append before [change]).trans (ih _)
  | get bucket key next ih => exact ih _ before

/-- Every look-up comes after the first ones of the changes, and is answered as if these had been made. -/
theorem faithful_of_mem_transcript : ∀ l ∈ (s.transcript engine before).lookups,
    l.before <+: (s.transcript engine before).changes ∧ l.Faithful engine := by
  induction s generalizing before with
  | done value => exact nofun
  | fail e => exact nofun
  | write change next ih => exact ih (before ++ [change])
  | get bucket key next ih =>
    refine List.forall_mem_cons.2 ⟨⟨prefix_changes_transcript _ engine before, ?_⟩, ih _ before⟩
    obtain found | ⟨e, failed, fault, untouched⟩ :=
      Update.get_cases engine (.ofWrites before) bucket key
    · refine .inl ?_
      rw [found, WriteSet.applyTo_ofWrites]
      rfl
    · refine .inr ⟨e, ?_, fault, WriteSet.lookup_ofWrites.1 untouched⟩
      rw [failed]
      rfl

end Closure

/-! ## Whole scopes -/

namespace Database

variable {α : Type} {db : Database} {body : Update StoreError α}

/-- A scope that ends with an answer is committed, unless it changes nothing. -/
theorem update_of_body_ok {changes : List Write} {value : α} (usable : db.isPoisoned = false)
    (run : body db.engine .empty = .ok (value, .ofWrites changes)) : db.update body =
      if changes = [] then (.ok value, db)
      else ((db.engine.commit (.ofWrites changes)).1.map fun _ => value,
        { db with engine := (db.engine.commit (.ofWrites changes)).2 }) := by
  unfold update
  rw [usable, run]
  by_cases none : changes = []
  · rw [if_pos none, none]
    rfl
  · simp only [Bool.false_eq_true, if_false, WriteSet.isEmpty_ofWrites none, none]
    rcases db.engine.commit (.ofWrites changes) with ⟨_ | _, engine⟩ <;> rfl

/-- One that fails leaves the database. -/
theorem update_of_body_error {e : StoreError} (usable : db.isPoisoned = false)
    (run : body db.engine .empty = .error e) : db.update body = (.error e, db) := by
  obtain ⟨engine, isPoisoned⟩ := db
  subst usable
  unfold update
  rw [run]
  rfl

end Database

/-- Take any database whose lock is not poisoned, and any scope; the transcript is that of its body. Every
look-up is answered as if the changes before it had been made one after the other directly on the contents;
only a key that none of them is about the engine may fail to read. If the scope ends with a value, and its
changes, if there are any, are committed, then it succeeds and leaves what its changes leave that are made
directly. If it ends with an error, the database is as it was. If the commit fails, the scope does, and the
database is as it was too, unless only the wait for the disk failed; then all the changes are there. -/
theorem update_eq_direct {α : Type} {db : Database} (usable : db.isPoisoned = false) (s : Closure α) :
    let t := s.transcript db.engine []
    let commit := db.engine.commit (.ofWrites t.changes)
    let direct := db.withContents (db.contents.performAll t.changes)
    s.body db.engine .empty = t.result.map (·, .ofWrites t.changes) ∧
    (∀ l ∈ t.lookups, l.before <+: t.changes ∧ l.Faithful db.engine) ∧
    (∀ value, t.result = .ok value → t.changes = [] ∨ commit.1 = .ok () →
      db.update s.body = (.ok value, direct)) ∧
    (∀ e, t.result = .error e → db.update s.body = (.error e, db)) ∧
    ∀ value e, t.result = .ok value → t.changes ≠ [] → commit.1 = .error e →
      db.update s.body = (.error e, db) ∨
        db.engine.vainWait? = some e ∧ db.update s.body = (.error e, direct) := by
  intro t commit direct
  have run : s.body db.engine .empty = t.result.map (·, .ofWrites t.changes) :=
    s.body_eq_transcript db.engine []
  refine ⟨run, s.faithful_of_mem_transcript db.engine [], fun value ended committed => ?_,
    fun e failed => ?_, fun value e ended changed failed => ?_⟩
  · rw [ended] at run
    rw [Database.update_of_body_ok usable run]
    split
    · rename_i none
      simp only [direct, none]
      rfl
    · rename_i changed
      have answer : commit.1 = .ok () := committed.resolve_left changed
      have left : commit.2 = { db.engine with contents := db.contents.performAll t.changes } := by
        rw [← WriteSet.applyTo_ofWrites]
        exact Engine.commit_ok (Prod.ext answer rfl)
      exact Prod.ext (congrArg (·.map fun _ => value) answer)
        (congrArg (fun engine => { db with engine }) left)
  · rw [failed] at run
    exact Database.update_of_body_error usable run
  · rw [ended] at run
    rw [Database.update_of_body_ok usable run, if_neg changed]
    have fails {engine : Engine} (left : commit.2 = engine) :
        ((commit.1.map fun _ => value), ({ db with engine := commit.2 } : Database)) =
          (.error e, { db with engine }) := by
      rw [left, failed]
      rfl
    obtain ⟨e', -, refused⟩ | ⟨-, written⟩ := db.engine.commit_synced (.ofWrites t.changes)
    · exact .inl (fails (congrArg Prod.snd refused))
    · rw [WriteSet.applyTo_ofWrites] at written
      refine .inr ⟨?_, fails (congrArg Prod.snd written)⟩
      have answer : Faults.raise db.engine.vainWait? = .error e :=
        (congrArg Prod.fst written).symm.trans failed
      cases waits : db.engine.vainWait? with
      | none => rw [waits] at answer; cases answer
      | some e' => rw [waits] at answer; cases answer; rfl

/-- Two keys are stored. A key is written, the bucket is emptied, and one of the stored keys is written again:
each look-up between these changes finds what they leave, but the first one meets a key that cannot be read,
and the scope goes on. Where the disk is full, all this fails and leaves the two keys. -/
theorem update_overwriting :
    let stored := Contents.empty.performAll [.put .utxos [1] [10], .put .utxos [2] [20]]
    let s : Closure Nat := .write (.put .utxos [3] [30]) <| .get .utxos [1] fun _ => .get .utxos [3] fun _ =>
      .write (.clear .utxos) <| .get .utxos [1] fun _ => .write (.put .utxos [1] [11]) <|
      .write (.delete .utxos [2]) <| .get .utxos [1] fun _ => .get .utxos [2] fun _ => .done 7
    let worn : Faults := { get := fun _ _ key => if key = [1] then some (.io "bad block") else none }
    let db : Database := { engine := ⟨.durable false, stored, worn⟩ }
    let full : Faults := { commit := fun _ => some (.io "disk full") }
    let fullDb : Database := { engine := ⟨.durable true, stored, full⟩ }
    (s.transcript db.engine []).lookups.map (·.answer) =
      [.error (.io "bad block"), .ok (some [30]), .ok none, .ok (some [11]), .ok none] ∧
    db.update s.body = (.ok 7, db.withContents (Contents.empty.perform (.put .utxos [1] [11]))) ∧
    fullDb.update s.body = (.error (.io "disk full"), fullDb) := by
  intro stored s worn db full fullDb
  have committed : (db.engine.commit (.ofWrites (s.transcript db.engine []).changes)).1 = .ok () := by rfl
  have refused : (fullDb.engine.commit (.ofWrites (s.transcript fullDb.engine []).changes)).1 =
      .error (.io "disk full") := by rfl
  obtain ⟨-, -, success, -, -⟩ := update_eq_direct (show db.isPoisoned = false from rfl) s
  obtain ⟨-, -, -, -, failure⟩ := update_eq_direct (show fullDb.isPoisoned = false from rfl) s
  have unchanged := (failure 7 _ rfl (List.cons_ne_nil _ _) refused).resolve_right fun h => nomatch h.1
  exact ⟨by rfl, (success 7 rfl (.inr committed)).trans (by rfl), unchanged⟩

/-- A key is written, and the wait for the disk is in vain: the scope fails, and the key is there. -/
theorem failed_update_visible :
    let s : Closure Unit := .write (.put .utxos [1] [7]) (.done ())
    let db : Database := { engine := ⟨.durable true, .empty, { sync := some (.backend "sync failed") }⟩ }
    (db.update s.body).1 = .error (.backend "sync failed") ∧ db.contents.lookup .utxos [1] = none ∧
      (db.update s.body).2.contents.lookup .utxos [1] = some [7] := by
  exact ⟨rfl, rfl, rfl⟩

end ChainIndex
