import Mathlib.Data.List.Nodup
import ChainIndex.Proofs.Storage.Sequential

/-!
# Every medium answers alike

* `Durable.nodup_batch`: the batch of a durable engine names each key of each bucket at most once, so it
  leaves the same in whatever order its changes are made (`Durable.applyBatch_perm`).
* `Scope`: the body of a writing scope as the calls that it makes; what it does next may hang on what
  it read. `Scope.agrees`: it does what the direct program does that makes the same calls.
* `Database.updateAll_eq`, `Database.sittings_eq`: so the answers to any scopes, and what they leave, are
  those of the direct programs (`Scope.performAll`), on every medium and however often a database on
  disk is opened again in between.
* `durable_eq_memory`: hence a store on disk and one in memory cannot be told apart.
-/

namespace ChainIndex

/-! ## Batches name each key once -/

theorem KeyMap.nodup_keys {α : Type} (m : KeyMap α) : (m.entries.map (·.1)).Nodup := by
  refine List.pairwise_map.2 (m.sorted.imp fun {a b} lt eq => ?_)
  rw [eq] at lt
  exact List.lt_irrefl _ lt

namespace Durable

theorem target_writing (w : WriteSet) (bucket : Bucket) :
    (writing w bucket).map KeyChange.target =
      ((w.entries.get bucket).entries.map (·.1)).map (bucket, ·) := by
  simp only [writing, List.map_map]
  refine List.map_congr_left fun e _ => ?_
  obtain ⟨key, value?⟩ := e
  cases value? <;> rfl

theorem target_clearing (w : WriteSet) (c : Contents) (bucket : Bucket) :
    ((clearing w c bucket).map KeyChange.target).Sublist
      (((c.get bucket).entries.map (·.1)).map (bucket, ·)) := by
  unfold clearing
  split
  · induction (c.get bucket).entries with
    | nil => exact .slnil
    | cons e rest ih =>
      simp only [List.filterMap_cons, List.map_cons]
      split
      · exact ih.cons _
      · rename_i change hchange
        split at hchange
        · cases hchange
        · cases hchange
          exact ih.cons_cons _
  · exact List.nil_sublist _

/-- Lists of changes, one for each bucket, that name only keys of their bucket and none twice. -/
theorem nodup_flatMap_target {f : Bucket → List KeyChange}
    (own : ∀ bucket, ∃ keys : List Bytes, keys.Nodup ∧
      ((f bucket).map KeyChange.target).Sublist (keys.map (bucket, ·))) :
    ((Bucket.all.flatMap f).map KeyChange.target).Nodup := by
  have bucket_eq : ∀ bucket t, t ∈ (f bucket).map KeyChange.target → t.1 = bucket := by
    intro bucket t mem
    obtain ⟨keys, -, sublist⟩ := own bucket
    obtain ⟨key, -, rfl⟩ := List.mem_map.1 (sublist.subset mem)
    rfl
  rw [List.map_flatMap, List.nodup_flatMap]
  constructor
  · intro bucket _
    obtain ⟨keys, nodup, sublist⟩ := own bucket
    exact (nodup.map fun _ _ h => (Prod.mk.inj h).2).sublist sublist
  · have distinct : Bucket.all.Nodup := by decide
    refine distinct.imp fun ne t mem mem' => ne ?_
    exact (bucket_eq _ t mem).symm.trans (bucket_eq _ t mem')

/-- The batch of a write set names each key of each bucket at most once. -/
theorem nodup_batch (w : WriteSet) (c : Contents) :
    ((batch w c).map KeyChange.target).Nodup := by
  rw [batch, List.map_append, List.nodup_append]
  refine ⟨nodup_flatMap_target fun bucket => ⟨_, (c.get bucket).nodup_keys, target_clearing w c bucket⟩,
    nodup_flatMap_target fun bucket => ⟨_, (w.entries.get bucket).nodup_keys, ?_⟩, ?_⟩
  · rw [target_writing]
  · -- A bucket is emptied only of keys that the write set does not write.
    rintro ⟨b, k⟩ cleared _ written rfl
    have unwritten := (exists_mem_clearing.1 (List.mem_map.1 cleared)).2.1
    exact exists_mem_writing.1 (List.mem_map.1 written) unwritten

/-- Changes of different keys leave the same in every order. -/
theorem applyBatch_perm {changes ordered : List KeyChange} (perm : changes.Perm ordered)
    (nodup : (ordered.map KeyChange.target).Nodup) (c : Contents) :
    applyBatch c changes = applyBatch c ordered := by
  refine Contents.ext_lookup fun b k => ?_
  -- At most one change is about the key, so it alone decides what is there.
  have agree : ∃ value?, ∀ x ∈ ordered, x.target = (b, k) → x.value? = value? := by
    by_cases named : ∃ x ∈ ordered, x.target = (b, k)
    · obtain ⟨x, hx, ht⟩ := named
      refine ⟨x.value?, fun y hy hy' => ?_⟩
      rw [List.inj_on_of_nodup_map nodup hy hx (hy'.trans ht.symm)]
    · exact ⟨none, fun x hx ht => absurd ⟨x, hx, ht⟩ named⟩
  obtain ⟨value?, agree⟩ := agree
  rw [lookup_applyBatch agree, lookup_applyBatch fun x hx => agree x (perm.mem_iff.1 hx)]
  simp only [perm.mem_iff]

end Durable

/-! ## Scopes as the calls that they make -/

/-- The body of a writing scope: changes, look-ups on whose answers the rest may hang, and an end with
an answer or an error. -/
inductive Scope where
  | done
  | fail (e : StoreError)
  | write (change : Write) (next : Scope)
  | get (bucket : Bucket) (key : Bytes) (next : Option Bytes → Scope)

namespace Scope

/-- The scope that makes some changes in order. -/
def ofWrites (changes : List Write) : Scope := changes.foldr write done

/-- The program that runs in a database. -/
def body : Scope → Update StoreError Unit
  | done => pure ()
  | fail e => throw e
  | write change next => do Update.write change; next.body
  | get bucket key next => do (next (← Update.get bucket key)).body

/-- The program that makes the same calls on contents directly. -/
def direct : Scope → Direct StoreError Unit
  | done => pure ()
  | fail e => throw e
  | write change next => do Direct.write change; next.direct
  | get bucket key next => do (next (← Direct.get bucket key)).direct

theorem agrees (s : Scope) : Update.Agrees s.body s.direct := by
  induction s with
  | done => exact .pure ()
  | fail e => exact fun _ _ _ => rfl
  | write change next ih => exact (Update.Agrees.write change).bind fun _ => ih
  | get bucket key next ih => exact (Update.Agrees.get bucket key).bind ih

/-- The answer to a scope over contents, and what it leaves: all its changes, or none if it fails. -/
def perform (s : Scope) (c : Contents) : Except StoreError Unit × Contents :=
  match s.direct c with
  | .ok ((), d) => (.ok (), d)
  | .error e => (.error e, c)

/-- The answers to scopes one after the other, and what they leave. -/
def performAll (c : Contents) : List Scope → List (Except StoreError Unit) × Contents
  | [] => ([], c)
  | s :: rest =>
    let (answer, d) := s.perform c
    let (answers, d) := performAll d rest
    (answer :: answers, d)

theorem performAll_append (c : Contents) (front back : List Scope) :
    performAll c (front ++ back) =
      ((performAll c front).1 ++ (performAll (performAll c front).2 back).1,
        (performAll (performAll c front).2 back).2) := by
  induction front generalizing c with
  | nil => rfl
  | cons s rest ih => simp only [List.cons_append, performAll, ih]

end Scope

/-! ## Runs of a database -/

namespace Database

/-- A database whose lock is not poisoned and whose calls do not fail. -/
structure Sound (db : Database) : Prop where
  usable : db.isPoisoned = false
  never : db.engine.faults = .never

theorem Sound.new (medium : Medium) : (new medium).Sound := ⟨rfl, rfl⟩

theorem Sound.withContents {db : Database} (sound : db.Sound) (c : Contents) :
    (db.withContents c).Sound := ⟨sound.usable, sound.never⟩

/-- A scope does to a sound database what it does to the contents. -/
theorem Sound.update_eq {db : Database} (sound : db.Sound) (s : Scope) :
    db.update s.body = ((s.perform db.contents).1, db.withContents (s.perform db.contents).2) := by
  unfold Scope.perform
  cases hd : s.direct db.contents with
  | ok r => exact update_of_direct_ok sound.usable sound.never s.agrees hd
  | error e =>
    have answer := update_of_direct_error sound.usable sound.never s.agrees hd
    have reachesDisk : db.engine.ReachesDisk := fun _ => by rw [sound.never]; rfl
    exact Prod.ext answer (update_error reachesDisk.commitsAtomically (Prod.ext answer rfl))

/-- The answers to scopes one after the other, and the database after them. -/
def updateAll (db : Database) : List Scope → List (Except StoreError Unit) × Database
  | [] => ([], db)
  | s :: rest =>
    let (answer, db) := db.update s.body
    let (answers, db) := updateAll db rest
    (answer :: answers, db)

theorem Sound.updateAll_eq {db : Database} (sound : db.Sound) (scopes : List Scope) :
    db.updateAll scopes =
      ((Scope.performAll db.contents scopes).1,
        db.withContents (Scope.performAll db.contents scopes).2) := by
  induction scopes generalizing db with
  | nil => rfl
  | cons s rest ih =>
    simp only [updateAll, sound.update_eq, Scope.performAll, ih (sound.withContents _)]
    rfl

/-- The answers to scopes in sittings, and the database after them. At the end of each sitting it is
opened again without being cleared. -/
def sittings (db : Database) : List (List Scope) → List (Except StoreError Unit) × Database
  | [] => ([], db)
  | scopes :: rest =>
    let (answers, db) := db.updateAll scopes
    let (more, db) := sittings (db.reopen false) rest
    (answers ++ more, db)

/-- A sound database on disk is what it was when it is opened again. -/
theorem Sound.reopen_eq {db : Database} (sound : db.Sound) {syncWrites : Bool}
    (medium : db.engine.medium = .durable syncWrites) : db.reopen false = db := by
  obtain ⟨⟨_, contents, faults⟩, isPoisoned⟩ := db
  cases sound.usable
  cases medium
  rfl

theorem Sound.sittings_eq {db : Database} (sound : db.Sound) {syncWrites : Bool}
    (medium : db.engine.medium = .durable syncWrites) (parts : List (List Scope)) :
    db.sittings parts =
      ((Scope.performAll db.contents parts.flatten).1,
        db.withContents (Scope.performAll db.contents parts.flatten).2) := by
  induction parts generalizing db with
  | nil => rfl
  | cons scopes rest ih =>
    have reopened := (sound.withContents (Scope.performAll db.contents scopes).2).reopen_eq medium
    have later := ih (sound.withContents (Scope.performAll db.contents scopes).2) medium
    simp only [sittings, sound.updateAll_eq, reopened, later, List.flatten_cons,
      Scope.performAll_append]
    rfl

/-! ## What can be read -/

theorem Sound.view_get {db : Database} (sound : db.Sound) (bucket : Bucket) (key : Bytes) :
    db.view (View.get bucket key : View StoreError _) = .ok (db.contents.lookup bucket key) := by
  rw [view, sound.usable, View.get, Engine.get, sound.never]
  rfl

theorem Sound.view_scan {db : Database} (sound : db.Sound) {σ : Type} (bucket : Bucket)
    (range : KeyRange) (direction : Direction) (init : σ)
    (visitor : σ → Entry → Except StoreError (σ × Bool)) :
    db.view (View.scan bucket range direction init visitor) =
      View.visit visitor init ((db.contents.get bucket).entriesIn range direction) := by
  rw [view, sound.usable, View.scan, Engine.scan, sound.never]
  rfl

end Database

/-- A store on disk and one in memory, both empty at first, give the same answers to any scopes, also
if the one on disk is opened again wherever one likes between them. Afterwards both have the same value
under every key of every bucket, and show the same entries to every visitor of every range in either
direction; opening the one on disk once more changes nothing of that. Moreover, whatever is stored and
whatever a write set holds, the batch of the durable engine names each key of each bucket at most once,
and its changes leave in every order what the write set leaves in memory. -/
theorem durable_eq_memory (syncWrites : Bool) (parts : List (List Scope)) :
    let disk := (Database.new (.durable syncWrites)).sittings parts
    let memory := (Database.new .memory).updateAll parts.flatten
    disk.1 = memory.1 ∧
    (∀ reopened ∈ [disk.2, disk.2.reopen false],
      (∀ bucket key, reopened.view (View.get bucket key : View StoreError _) =
        memory.2.view (View.get bucket key)) ∧
      ∀ (σ : Type) bucket range direction (init : σ) visitor,
        reopened.view (View.scan bucket range direction init visitor : View StoreError σ) =
          memory.2.view (View.scan bucket range direction init visitor)) ∧
    ∀ (w : WriteSet) (c : Contents),
      ((Durable.batch w c).map Durable.KeyChange.target).Nodup ∧
      ∀ changes, changes.Perm (Durable.batch w c) →
        Durable.applyBatch c changes = Memory.commit w c := by
  intro disk memory
  let run := Scope.performAll .empty parts.flatten
  have disk_eq : disk = (run.1, (Database.new (.durable syncWrites)).withContents run.2) :=
    (Database.Sound.new _).sittings_eq rfl parts
  have memory_eq : memory = (run.1, (Database.new .memory).withContents run.2) :=
    (Database.Sound.new _).updateAll_eq parts.flatten
  clear_value disk memory
  subst disk_eq memory_eq
  have diskSound := (Database.Sound.new (.durable syncWrites)).withContents run.2
  have memorySound := (Database.Sound.new .memory).withContents run.2
  refine ⟨rfl, fun reopened mem => ?_, fun w c => ⟨Durable.nodup_batch w c, fun changes perm => ?_⟩⟩
  · obtain rfl : reopened = (Database.new (.durable syncWrites)).withContents run.2 := by
      simpa [diskSound.reopen_eq rfl] using mem
    constructor
    · intro bucket key
      rw [diskSound.view_get, memorySound.view_get]
      rfl
    · intro σ bucket range direction init visitor
      rw [diskSound.view_scan, memorySound.view_scan]
      rfl
  · rw [Durable.applyBatch_perm perm (Durable.nodup_batch w c), Durable.applyBatch_batch]
    rfl

/-- A bucket is emptied of three stored keys, of which one is rewritten and one deleted as well. -/
example :
    let writes := Scope.ofWrites [.put .utxos [1] [10], .put .utxos [2] [20], .put .utxos [3] [30]]
    let rewrites := Scope.ofWrites [.clear .utxos, .put .utxos [2] [22], .delete .utxos [3]]
    let disk := ((Database.new (.durable true)).sittings [[writes], [rewrites]]).2
    (disk.contents.get .utxos).entries = [([2], [22])] := by
  decide +kernel

end ChainIndex
