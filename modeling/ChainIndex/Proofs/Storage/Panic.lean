import ChainIndex.Proofs.Storage.Media

/-!
# Scopes that are left by a panic

* `Reading`, `Writing`: what the closure of a scope does, call by call. It can panic anywhere, also inside the
  visitor of a scan.
* `Database.callAll`: calls on a database one after the other. `Database.Panicked`: one of the updates among
  them was left by a panic.
* `Database.callAll_of_panic`: that update leaves nothing but a poisoned lock, and every call after it is refused.
  `Database.isPoisoned_callAll`: nothing else poisons the lock. `Database.callAll_view`: a view, however it ends,
  could as well be left out.
* `MemoryStore`: a store in memory with its two locks, one around scopes and one around the entries, and with the
  changes that wait while a scope runs. `MemoryStore.callAll_eq`: it does what the database does, and its
  inner lock is never poisoned.
-/

namespace ChainIndex

variable {α : Type}

/-! ## Closures -/

/-- What a visitor does at an entry. -/
inductive Visit where
  | more
  /-- It asks for no more, or fails. -/
  | stop (result : Except StoreError Unit)
  | panic

/-- What the closure of a reading scope does, call by call. A visitor goes by the entries that it has seen, the
latest first. A call that fails is an answer as well: a closure need not give up then. -/
inductive Reading (α : Type) where
  | done (value : α)
  | fail (e : StoreError)
  | panic
  | get (bucket : Bucket) (key : Bytes) (next : Except StoreError (Option Bytes) → Reading α)
  | scan (bucket : Bucket) (range : KeyRange) (direction : Direction) (visitor : List Entry → Visit)
      (next : Except StoreError Unit → List Entry → Reading α)

/-- What the closure of a writing scope does, call by call. -/
inductive Writing (α : Type) where
  | done (value : α)
  | fail (e : StoreError)
  | panic
  | write (change : Write) (next : Writing α)
  | get (bucket : Bucket) (key : Bytes) (next : Except StoreError (Option Bytes) → Writing α)

/-- A visitor as a scan calls it: its state is what it has seen, and how it stopped. -/
def Visit.step (visitor : List Entry → Visit) :
    List Entry × Except StoreError Unit → Entry →
      Except Interrupt ((List Entry × Except StoreError Unit) × Bool) :=
  fun (seen, _) e =>
    match visitor (e :: seen) with
    | more => .ok ((e :: seen, .ok ()), true)
    | stop result => .ok ((e :: seen, result), false)
    | panic => .error .panicked

/-- A failure as an answer. A panic is none. -/
def Interrupt.answer : Except Interrupt α → Except Interrupt (Except StoreError α)
  | .ok a => .ok (.ok a)
  | .error (.failed e) => .ok (.error e)
  | .error panicked => .error panicked

/-- The program that runs in a database. -/
def Reading.body : Reading α → View Interrupt α
  | done value => fun _ => .ok value
  | fail e => fun _ => .error (.failed e)
  | panic => fun _ => .error .panicked
  | get bucket key next => fun engine => do
    (next (← Interrupt.answer (View.get bucket key engine))).body engine
  | scan bucket range direction visitor next => fun engine => do
    match ← Interrupt.answer (View.scan bucket range direction ([], .ok ()) (Visit.step visitor) engine) with
    | .ok (seen, result) => (next result seen).body engine
    | .error e => (next (.error e) []).body engine

/-- The program that runs in a database. -/
def Writing.body : Writing α → Update Interrupt α
  | done value => fun _ writes => .ok (value, writes)
  | fail e => fun _ _ => .error (.failed e)
  | panic => fun _ _ => .error .panicked
  | write change next => fun engine writes => next.body engine (writes.add change)
  | get bucket key next => fun engine writes => do
    (next ((← Interrupt.answer (Update.get bucket key engine writes)).map (·.1))).body engine writes

/-- A call on a database. -/
inductive ScopeCall (α : Type) where
  | view (closure : Reading α)
  | update (closure : Writing α)
  | close

/-! ## Calls one after the other -/

namespace Database

/-- The error of every call once the lock is poisoned. -/
def refused : Interrupt := .failed poisonedError

/-- Makes a call: its answer, and the database after it. A close has no value. -/
def call (db : Database) : ScopeCall α → Except Interrupt (Option α) × Database
  | .view closure => ((db.view closure.body).map some, db)
  | .update closure =>
    let (answer, db) := db.update closure.body
    (answer.map some, db)
  | .close => ((liftStore db.close).map fun _ => none, db)

/-- Makes calls one after the other. -/
def callAll (db : Database) : List (ScopeCall α) → List (Except Interrupt (Option α)) × Database
  | [] => ([], db)
  | c :: rest =>
    let (answer, db) := db.call c
    let (answers, db) := db.callAll rest
    (answer :: answers, db)

/-- An update is left by a panic. -/
def LeftByPanic (db : Database) (closure : Writing α) : Prop :=
  (db.call (.update closure)).1 = .error .panicked

/-- One of the updates among calls made one after the other is left by a panic. -/
def Panicked (db : Database) (calls : List (ScopeCall α)) : Prop :=
  ∃ front closure back, calls = front ++ .update closure :: back ∧
    (db.callAll front).2.LeftByPanic closure

theorem callAll_cons (db : Database) (c : ScopeCall α) (rest : List (ScopeCall α)) :
    db.callAll (c :: rest) =
      ((db.call c).1 :: ((db.call c).2.callAll rest).1, ((db.call c).2.callAll rest).2) := rfl

theorem callAll_append (db : Database) (front back : List (ScopeCall α)) :
    db.callAll (front ++ back) =
      ((db.callAll front).1 ++ ((db.callAll front).2.callAll back).1,
        ((db.callAll front).2.callAll back).2) := by
  induction front generalizing db with
  | nil => rfl
  | cons c rest ih => simp only [List.cons_append, callAll_cons, ih]

theorem length_callAll (db : Database) (calls : List (ScopeCall α)) :
    (db.callAll calls).1.length = calls.length := by
  induction calls generalizing db with
  | nil => rfl
  | cons c rest ih => simp [callAll_cons, ih]

/-- A poisoned lock refuses every call. -/
theorem call_of_poisoned {db : Database} (poisoned : db.isPoisoned = true) (c : ScopeCall α) :
    db.call c = (.error refused, db) := by
  cases c <;> simp only [call, view, update, close, poisoned] <;> rfl

theorem callAll_of_poisoned {db : Database} (poisoned : db.isPoisoned = true)
    (calls : List (ScopeCall α)) :
    db.callAll calls = (calls.map fun _ => .error refused, db) := by
  induction calls with
  | nil => rfl
  | cons c rest ih => simp only [callAll_cons, call_of_poisoned poisoned, ih, List.map_cons]

/-- An update that is left by a panic leaves all but the lock, and nothing else that an update does poisons the
lock. -/
theorem update_cases (db : Database) (closure : Writing α) :
    (db.LeftByPanic closure ∧ db.isPoisoned = false ∧
      (db.call (.update closure)).2 = { db with isPoisoned := true }) ∨
    ¬db.LeftByPanic closure ∧ (db.call (.update closure)).2.isPoisoned = db.isPoisoned := by
  -- What an update answers that is not left by a panic.
  have others {answer : Except Interrupt (Option α)} (other : answer ≠ .error .panicked)
      (h : (db.call (.update closure)).1 = answer) : ¬db.LeftByPanic closure :=
    fun panicked => other (h.symm.trans panicked)
  cases usable : db.isPoisoned with
  | true =>
    have left := call_of_poisoned usable (.update closure)
    refine .inr ⟨others (by simp [refused]) (congrArg Prod.fst left), ?_⟩
    rw [left]
    exact usable
  | false =>
    cases run : closure.body db.engine .empty with
    | error e =>
      have left : db.call (.update closure) =
          (.error e, { db with isPoisoned := ScopeError.isPanic e }) := by
        simp only [call, update, usable, run]
        rfl
      cases e with
      | failed e =>
        refine .inr ⟨others (by simp) (congrArg Prod.fst left), ?_⟩
        rw [left]
        rfl
      | panicked => exact .inl ⟨congrArg Prod.fst left, rfl, congrArg Prod.snd left⟩
    | ok ended =>
      obtain ⟨a, writes⟩ := ended
      right
      cases idle : writes.isEmpty with
      | true =>
        have left : db.call (.update closure) = (.ok (some a), db) := by
          simp only [call, update, usable, run, idle]
          rfl
        refine ⟨others (by simp) (congrArg Prod.fst left), ?_⟩
        rw [left]
        exact usable
      | false =>
        rcases committed : db.engine.commit writes with ⟨e | ⟨⟩, engine⟩
        · have left : db.call (.update closure) = (.error (.failed e), { db with engine }) := by
            simp only [call, update, usable, run, idle, committed]
            rfl
          refine ⟨others (by simp) (congrArg Prod.fst left), ?_⟩
          rw [left]
          exact usable
        · have left : db.call (.update closure) = (.ok (some a), { db with engine }) := by
            simp only [call, update, usable, run, idle, committed]
            rfl
          refine ⟨others (by simp) (congrArg Prod.fst left), ?_⟩
          rw [left]
          exact usable

/-- The lock stays as it is as long as no update is left by a panic. -/
theorem isPoisoned_callAll {db : Database} {calls : List (ScopeCall α)} (calm : ¬db.Panicked calls) :
    (db.callAll calls).2.isPoisoned = db.isPoisoned := by
  induction calls generalizing db with
  | nil => rfl
  | cons c rest ih =>
    have later : ¬(db.call c).2.Panicked rest := by
      rintro ⟨front, closure, back, rfl, panic⟩
      exact calm ⟨c :: front, closure, back, rfl, panic⟩
    have first : (db.call c).2.isPoisoned = db.isPoisoned := by
      cases c with
      | view closure => rfl
      | close => rfl
      | update closure =>
        obtain ⟨panic, -, -⟩ | ⟨-, kept⟩ := db.update_cases closure
        · exact absurd ⟨[], closure, rest, rfl, panic⟩ calm
        · exact kept
    exact (ih later).trans first

/-- An update that is left by a panic leaves nothing but a poisoned lock, and every call after it is refused. -/
theorem callAll_of_panic {db : Database} {front back : List (ScopeCall α)} {closure : Writing α}
    (panic : (db.callAll front).2.LeftByPanic closure) :
    db.callAll (front ++ .update closure :: back) =
      ((db.callAll front).1 ++ .error .panicked :: back.map fun _ => .error refused,
        { (db.callAll front).2 with isPoisoned := true }) := by
  obtain ⟨-, -, left⟩ | ⟨none, -⟩ := (db.callAll front).2.update_cases closure
  · have poisoned : { (db.callAll front).2 with isPoisoned := true }.isPoisoned = true := rfl
    have rest := callAll_of_poisoned (α := α) poisoned back
    rw [callAll_append, callAll_cons, left, rest, panic]
  · exact absurd panic none

/-- A view could as well be left out: the other answers and the database are the same without it. -/
theorem callAll_view (db : Database) (front back : List (ScopeCall α)) (closure : Reading α) :
    db.callAll (front ++ back) =
      ((db.callAll (front ++ .view closure :: back)).1.eraseIdx front.length,
        (db.callAll (front ++ .view closure :: back)).2) := by
  have kept : ((db.callAll front).2.call (.view closure)).2 = (db.callAll front).2 := rfl
  rw [callAll_append, callAll_append, callAll_cons, kept, ← length_callAll db front,
    List.eraseIdx_append_of_length_le (Nat.le_refl _)]
  simp

end Database

/-! ## The two locks of a store in memory -/

/-- A lock that can be held by several for reading or by one for writing. -/
structure Lock where
  isPoisoned : Bool := false

/-- How a lock is held. -/
inductive Hold where
  | reading | writing

/-- The lock when its holder lets it go, with what became of the holder. A lock is let go also by a panic; that
poisons it if it was held for writing. -/
def Lock.release (lock : Lock) : Hold → Except Interrupt α → Lock
  | .writing, .error .panicked => ⟨true⟩
  | _, _ => lock

/-- A store in memory: its entries behind a lock of their own, and the lock around scopes. -/
structure MemoryStore where
  contents : Contents
  scopes : Lock := {}
  buckets : Lock := {}

namespace MemoryStore

/-- The error of calls for the entries once their lock is poisoned. -/
def poisonedError : StoreError := .poisoned "in-memory store"

/-- Runs a part of the store's own code that holds the lock of the entries for reading. -/
def reads (s : MemoryStore) (code : Contents → Except Interrupt α) : Except Interrupt α × MemoryStore :=
  if s.buckets.isPoisoned then (.error (.failed poisonedError), s)
  else
    let result := code s.contents
    (result, { s with buckets := s.buckets.release .reading result })

/-- The value under a key. -/
def get (s : MemoryStore) (bucket : Bucket) (key : Bytes) : Except Interrupt (Option Bytes) × MemoryStore :=
  s.reads fun c => .ok (c.lookup bucket key)

/-- Shows the entries of a range to a visitor. The lock is held while the visitor runs. -/
def scan (s : MemoryStore) (bucket : Bucket) (range : KeyRange) (direction : Direction)
    (visitor : List Entry → Visit) :
    Except Interrupt (List Entry × Except StoreError Unit) × MemoryStore :=
  s.reads fun c => View.visit (Visit.step visitor) ([], .ok ()) ((c.get bucket).entriesIn range direction)

/-- Carries out a write set. The lock is held for writing; nothing in this code can panic. -/
def commit (s : MemoryStore) (w : WriteSet) : Except Interrupt Unit × MemoryStore :=
  if s.buckets.isPoisoned then (.error (.failed poisonedError), s)
  else
    let result : Except Interrupt Unit := .ok ()
    (result, { s with contents := Memory.commit w s.contents, buckets := s.buckets.release .writing result })

/-- Runs a reading closure. -/
def runReading (s : MemoryStore) : Reading α → Except Interrupt α × MemoryStore
  | .done value => (.ok value, s)
  | .fail e => (.error (.failed e), s)
  | .panic => (.error .panicked, s)
  | .get bucket key next =>
    match s.get bucket key with
    | (.ok value?, s) => s.runReading (next (.ok value?))
    | (.error (.failed e), s) => s.runReading (next (.error e))
    | (.error .panicked, s) => (.error .panicked, s)
  | .scan bucket range direction visitor next =>
    match s.scan bucket range direction visitor with
    | (.ok (seen, result), s) => s.runReading (next result seen)
    | (.error (.failed e), s) => s.runReading (next (.error e) [])
    | (.error .panicked, s) => (.error .panicked, s)

/-- Runs a writing closure: how it ends, and the changes that wait then, also after a panic. -/
def runWriting (s : MemoryStore) (writes : WriteSet) :
    Writing α → (Except Interrupt α × WriteSet) × MemoryStore
  | .done value => ((.ok value, writes), s)
  | .fail e => ((.error (.failed e), writes), s)
  | .panic => ((.error .panicked, writes), s)
  | .write change next => s.runWriting (writes.add change) next
  | .get bucket key next =>
    match writes.lookup bucket key with
    | .value bytes => s.runWriting writes (next (.ok (some bytes)))
    | .deleted => s.runWriting writes (next (.ok none))
    | .untouched =>
      match s.get bucket key with
      | (.ok value?, s) => s.runWriting writes (next (.ok value?))
      | (.error (.failed e), s) => s.runWriting writes (next (.error e))
      | (.error .panicked, s) => ((.error .panicked, writes), s)

/-- Runs a reading scope. Its lock is let go however the closure ends. -/
def view (s : MemoryStore) (closure : Reading α) : Except Interrupt α × MemoryStore :=
  if s.scopes.isPoisoned then (.error Database.refused, s)
  else
    let (result, s) := s.runReading closure
    (result, { s with scopes := s.scopes.release .reading result })

/-- What a writing scope does with the changes that wait when its closure has ended. -/
def settle (s : MemoryStore) (writes : WriteSet) : Except Interrupt α → Except Interrupt α × MemoryStore
  | .error e => (.error e, s)
  | .ok value =>
    if writes.isEmpty then (.ok value, s)
    else
      let (result, s) := s.commit writes
      (result.map fun _ => value, s)

/-- Runs a writing scope. Its lock is let go however the closure ends. -/
def update (s : MemoryStore) (closure : Writing α) : Except Interrupt α × MemoryStore :=
  if s.scopes.isPoisoned then (.error Database.refused, s)
  else
    let ((result, writes), s) := s.runWriting .empty closure
    let (result, s) := s.settle writes result
    (result, { s with scopes := s.scopes.release .writing result })

/-- Closes the store. There is nothing to bring to a disk. -/
def close (s : MemoryStore) : Except Interrupt Unit × MemoryStore :=
  if s.scopes.isPoisoned then (.error Database.refused, s)
  else
    let result : Except Interrupt Unit := .ok ()
    (result, { s with scopes := s.scopes.release .writing result })

/-- Makes a call: its answer, and the store after it. -/
def call (s : MemoryStore) : ScopeCall α → Except Interrupt (Option α) × MemoryStore
  | .view closure =>
    let (answer, s) := s.view closure
    (answer.map some, s)
  | .update closure =>
    let (answer, s) := s.update closure
    (answer.map some, s)
  | .close =>
    let (answer, s) := s.close
    (answer.map fun _ => none, s)

/-- Makes calls one after the other. -/
def callAll (s : MemoryStore) : List (ScopeCall α) → List (Except Interrupt (Option α)) × MemoryStore
  | [] => ([], s)
  | c :: rest =>
    let (answer, s) := s.call c
    let (answers, s) := s.callAll rest
    (answer :: answers, s)

/-- The store as a database. -/
def toDatabase (s : MemoryStore) : Database := ⟨⟨.memory, s.contents, .never⟩, s.scopes.isPoisoned⟩

variable {s : MemoryStore}

theorem reads_eq (usable : s.buckets.isPoisoned = false) (code : Contents → Except Interrupt α) :
    s.reads code = (code s.contents, s) := by
  rw [reads, usable]
  rfl

theorem runReading_eq (usable : s.buckets.isPoisoned = false) (closure : Reading α) :
    s.runReading closure = (closure.body s.toDatabase.engine, s) := by
  induction closure with
  | done | fail | panic => rfl
  | get bucket key next ih =>
    rw [runReading, get, reads_eq usable]
    exact ih _
  | scan bucket range direction visitor next ih =>
    have scanned : View.scan bucket range direction ([], .ok ()) (Visit.step visitor) s.toDatabase.engine =
        View.visit (Visit.step visitor) ([], .ok ()) ((s.contents.get bucket).entriesIn range direction) :=
      rfl
    simp only [runReading, scan, reads_eq usable, Reading.body, scanned]
    cases View.visit (Visit.step visitor) ([], .ok ())
        ((s.contents.get bucket).entriesIn range direction) with
    | ok seen => exact ih _ _
    | error e =>
      cases e with
      | failed e => exact ih _ _
      | panicked => rfl

theorem runWriting_eq (usable : s.buckets.isPoisoned = false) (closure : Writing α) (writes : WriteSet) :
    ∃ result left, s.runWriting writes closure = ((result, left), s) ∧
      closure.body s.toDatabase.engine writes = result.map fun a => (a, left) := by
  induction closure generalizing writes with
  | done | fail | panic => exact ⟨_, _, rfl, rfl⟩
  | write change next ih => exact ih _
  | get bucket key next ih =>
    have body : (Writing.get bucket key next).body s.toDatabase.engine writes = (do
        (next ((← Interrupt.answer (Update.get bucket key s.toDatabase.engine writes)).map (·.1))).body
          s.toDatabase.engine writes) := rfl
    rw [runWriting, body, Update.get]
    cases writes.lookup bucket key with
    | value bytes => exact ih _ _
    | deleted => exact ih _ _
    | untouched =>
      rw [get, reads_eq usable]
      exact ih _ _

/-- The changes that wait are committed as the engine does it, and the lock of the entries stays as it is. -/
theorem settle_eq (usable : s.buckets.isPoisoned = false) (value : α) {writes : WriteSet}
    (some : writes.isEmpty = false) :
    s.settle writes (.ok value) = (.ok value, { s with contents := Memory.commit writes s.contents }) := by
  rw [settle, some, commit, usable]
  rfl

/-- A call does what it does on the database, and the lock of the entries is never poisoned by it. -/
theorem call_eq (usable : s.buckets.isPoisoned = false) (c : ScopeCall α) :
    (s.call c).1 = (s.toDatabase.call c).1 ∧ (s.call c).2.toDatabase = (s.toDatabase.call c).2 ∧
      (s.call c).2.buckets.isPoisoned = false := by
  obtain ⟨contents, ⟨poisoned⟩, buckets⟩ := s
  cases poisoned with
  | true =>
    rw [Database.call_of_poisoned rfl]
    cases c <;> exact ⟨rfl, rfl, usable⟩
  | false =>
    cases c with
    | close => exact ⟨rfl, rfl, usable⟩
    | view closure =>
      simp only [call, view, runReading_eq usable]
      exact ⟨rfl, rfl, usable⟩
    | update closure =>
      obtain ⟨result, writes, run, body⟩ := runWriting_eq usable closure .empty
      simp only [call, update, run, Database.call, Database.update, body]
      cases result with
      | error e => cases e <;> exact ⟨rfl, rfl, usable⟩
      | ok value =>
        cases none : writes.isEmpty with
        | true =>
          simp only [settle, none, Except.map]
          exact ⟨rfl, rfl, usable⟩
        | false =>
          simp only [settle_eq usable value none, none, Except.map]
          exact ⟨rfl, rfl, usable⟩

/-- The store does what the database does, and the lock of its entries is never poisoned. -/
theorem callAll_eq (usable : s.buckets.isPoisoned = false) (calls : List (ScopeCall α)) :
    (s.callAll calls).1 = (s.toDatabase.callAll calls).1 ∧
      (s.callAll calls).2.toDatabase = (s.toDatabase.callAll calls).2 ∧
      (s.callAll calls).2.buckets.isPoisoned = false := by
  induction calls generalizing s with
  | nil => exact ⟨rfl, rfl, usable⟩
  | cons c rest ih =>
    obtain ⟨answer, left, kept⟩ := call_eq usable c
    obtain ⟨answers, ended, unpoisoned⟩ := ih kept
    rw [left] at answers ended
    exact ⟨congrArg₂ List.cons answer answers, ended, unpoisoned⟩

end MemoryStore

end ChainIndex
