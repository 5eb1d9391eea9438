import ChainIndex.Proofs.Storage.Queries

/-!
# Walking with a cursor

* `Cursor.Move`: the five calls on a cursor. `Cursor.moveAll` makes calls one after the other.
* `Move.refer`: what a call does to a reference cursor, which is an index in the sorted entries; a call that
  leads out of them is ignored. `Cursor.StandsAt`: a cursor remembers the key of the entry at an index. Every
  call keeps this, and finds what the reference finds (`StandsAt.move`), so any sequence of calls does
  (`StandsAt.moveAll`).
* `Cursor.next_prev`, `Cursor.prev_next`: a step that finds an entry is undone by the opposite step.
* `walks_exact`: the walks in both directions, the undoing of steps, and the reference, for every bucket.
-/

namespace ChainIndex

namespace Cursor

/-- A call on a cursor. -/
inductive Move where
  | first | last | next | prev
  | seek (key : Bytes)
deriving DecidableEq

/-- Makes a call. -/
def move (cursor : Cursor) : Move → View StoreError (Option Entry × Cursor)
  | .first => cursor.first
  | .last => cursor.last
  | .next => cursor.next
  | .prev => cursor.prev
  | .seek key => cursor.seek key

/-- Makes calls one after the other: what each of them finds, and the cursor after them. -/
def moveAll (cursor : Cursor) : List Move → View StoreError (List (Option Entry) × Cursor)
  | [] => return ([], cursor)
  | m :: rest => do
    let (found, cursor) ← cursor.move m
    let (answers, cursor) ← cursor.moveAll rest
    return (found :: answers, cursor)

/-! ## The reference cursor -/

namespace Move

/-- The index at which a call looks, given that of the current entry. -/
def goal (entries : List Entry) : (current : Option Nat) → Move → Option Nat
  | _, first | none, next => some 0
  | _, last | none, prev => some (entries.length - 1)
  | some i, next => some (i + 1)
  | some 0, prev => none
  | some (i + 1), prev => some i
  | _, seek key => some (entries.findIdx fun e => ¬e.1 < key)

/-- The entry that a call finds, and the index of the current entry after it. A call that finds none is
ignored. -/
def refer (entries : List Entry) (current : Option Nat) (m : Move) : Option Entry × Option Nat :=
  match (m.goal entries current).bind (entries[·]?) with
  | some e => (some e, m.goal entries current)
  | none => (none, current)

theorem refer_of_none {entries : List Entry} {current : Option Nat} {m : Move}
    (nothing : (m.refer entries current).1 = none) : m.refer entries current = (none, current) := by
  unfold refer at nothing ⊢
  split at nothing
  · cases nothing
  · rfl

/-- What calls one after the other find, and the index of the current entry after them. -/
def referAll (entries : List Entry) : (current : Option Nat) → List Move →
    List (Option Entry) × Option Nat
  | current, [] => ([], current)
  | current, m :: rest =>
    let (found, current) := m.refer entries current
    let (answers, current) := referAll entries current rest
    (found :: answers, current)

/-- The calls among those made one after the other that find an entry. -/
def finding (entries : List Entry) : (current : Option Nat) → List Move → List Move
  | _, [] => []
  | current, m :: rest =>
    let (found, current) := m.refer entries current
    if found.isSome then m :: finding entries current rest else finding entries current rest

end Move

/-! ## Where a range begins -/

theorem head?_entriesIn_all (m : KeyMap Bytes) : (m.entriesIn .all .ascending).head? = m.entries[0]? := by
  rw [KeyMap.entriesIn_all, List.head?_eq_getElem?]

theorem head?_entriesIn_all_descending (m : KeyMap Bytes) :
    (m.entriesIn .all .descending).head? = m.entries[m.entries.length - 1]? := by
  rw [KeyMap.entriesIn_all_descending, List.head?_reverse, List.getLast?_eq_getElem?]

theorem head?_entriesIn_atLeast (m : KeyMap Bytes) (key : Bytes) :
    (m.entriesIn (.atLeast key) .ascending).head? =
      m.entries[m.entries.findIdx fun e => ¬e.1 < key]? := by
  rw [KeyMap.entriesIn_atLeast, List.head?_filter, List.find?_eq_getElem?_findIdx]

/-- A list around one of its elements. -/
theorem split_of_getElem? {α : Type} {l : List α} {i : Nat} {a : α} (h : l[i]? = some a) :
    l = l.take i ++ a :: l.drop (i + 1) := by
  obtain ⟨lt, rfl⟩ := List.getElem?_eq_some_iff.1 h
  rw [← List.drop_eq_getElem_cons lt, List.take_append_drop]

theorem head?_entriesIn_above {m : KeyMap Bytes} {i : Nat} {e : Entry} (h : m.entries[i]? = some e) :
    (m.entriesIn (.above e.1) .ascending).head? = m.entries[i + 1]? := by
  rw [KeyMap.entriesIn_above (split_of_getElem? h), List.head?_drop]

theorem head?_entriesIn_below {m : KeyMap Bytes} {i : Nat} {e : Entry} (h : m.entries[i]? = some e) :
    (m.entriesIn (.below e.1) .descending).head? = if i = 0 then none else m.entries[i - 1]? := by
  have lt : i < m.entries.length := (List.getElem?_eq_some_iff.1 h).1
  rw [KeyMap.entriesIn_below (split_of_getElem? h), List.head?_reverse, List.getLast?_take]
  split
  · rfl
  · rw [List.getElem?_eq_getElem (by omega), Option.some_or]

/-! ## Cursors at an index -/

/-- A cursor of a bucket remembers the key of the entry at an index, or nothing. -/
inductive StandsAt (bucket : Bucket) (entries : List Entry) : Option Nat → Cursor → Prop
  | nowhere : StandsAt bucket entries none ⟨bucket, none⟩
  | entry {i : Nat} {e : Entry} (current : entries[i]? = some e) :
      StandsAt bucket entries (some i) ⟨bucket, some e.1⟩

namespace StandsAt

variable {bucket : Bucket} {entries : List Entry} {current : Option Nat} {cursor cursor' : Cursor}

theorem bucket_eq (stands : StandsAt bucket entries current cursor) : cursor.bucket = bucket := by
  cases stands <;> rfl

theorem unique (stands : StandsAt bucket entries current cursor)
    (stands' : StandsAt bucket entries current cursor') : cursor' = cursor := by
  cases stands with
  | nowhere => cases stands'; rfl
  | entry current =>
    cases stands' with
    | entry current' => rw [Option.some.inj (current.symm.trans current')]

/-- A cursor that goes to the entry that the reference goes to. -/
theorem found (stands : StandsAt bucket entries current cursor) {m : Move} {list : List Entry}
    (head : list.head? = (m.goal entries current).bind (entries[·]?)) :
    (cursor.found list).1 = (m.refer entries current).1 ∧
      StandsAt bucket entries (m.refer entries current).2 (cursor.found list).2 := by
  unfold Move.refer
  rw [← head]
  cases list with
  | nil => exact ⟨rfl, stands⟩
  | cons e rest =>
    obtain ⟨i, goal, there⟩ := Option.bind_eq_some_iff.1 head.symm
    refine ⟨rfl, ?_⟩
    simp only [List.head?_cons, goal, Cursor.found, stands.bucket_eq]
    exact .entry there

/-- A cursor that has a position stands on an entry. -/
theorem exists_entry (stands : StandsAt bucket entries current cursor) {key : Bytes}
    (position : cursor.position = some key) : ∃ e ∈ entries, e.1 = key ∧ cursor = ⟨bucket, some e.1⟩ := by
  cases stands with
  | nowhere => cases position
  | @entry i e there => exact ⟨e, List.mem_of_getElem? there, Option.some.inj position, rfl⟩

variable {s : Engine}

/-- A call finds what the reference finds, and the cursor goes where the reference goes. -/
theorem move (never : s.faults = .never)
    (stands : StandsAt bucket (s.contents.get bucket).entries current cursor) (m : Move) :
    ∃ cursor', cursor.move m s = .ok ((m.refer (s.contents.get bucket).entries current).1, cursor') ∧
      StandsAt bucket (s.contents.get bucket).entries
        (m.refer (s.contents.get bucket).entries current).2 cursor' := by
  -- Every call is a step to the first entry of a range.
  obtain ⟨range, direction, step, head⟩ : ∃ range direction, cursor.move m = cursor.step range direction ∧
      ((s.contents.get bucket).entriesIn range direction).head? =
        (m.goal (s.contents.get bucket).entries current).bind ((s.contents.get bucket).entries[·]?) := by
    cases m with
    | first => exact ⟨_, _, rfl, by cases stands <;> exact head?_entriesIn_all _⟩
    | last => exact ⟨_, _, rfl, by cases stands <;> exact head?_entriesIn_all_descending _⟩
    | seek key => exact ⟨_, _, rfl, by cases stands <;> exact head?_entriesIn_atLeast _ key⟩
    | next =>
      cases stands with
      | nowhere => exact ⟨_, _, rfl, head?_entriesIn_all _⟩
      | entry there => exact ⟨_, _, rfl, head?_entriesIn_above there⟩
    | prev =>
      cases stands with
      | nowhere => exact ⟨_, _, rfl, head?_entriesIn_all_descending _⟩
      | @entry i e there =>
        refine ⟨_, _, rfl, (head?_entriesIn_below there).trans ?_⟩
        cases i <;> rfl
  obtain ⟨answer, after⟩ := stands.found head
  refine ⟨_, ?_, after⟩
  rw [step, step_eq never, stands.bucket_eq, ← answer]

/-- So do calls one after the other. -/
theorem moveAll (never : s.faults = .never)
    (stands : StandsAt bucket (s.contents.get bucket).entries current cursor) (moves : List Move) :
    ∃ cursor', cursor.moveAll moves s =
        .ok ((Move.referAll (s.contents.get bucket).entries current moves).1, cursor') ∧
      StandsAt bucket (s.contents.get bucket).entries
        (Move.referAll (s.contents.get bucket).entries current moves).2 cursor' := by
  induction moves generalizing current cursor with
  | nil => exact ⟨cursor, rfl, stands⟩
  | cons m rest ih =>
    obtain ⟨cursor₁, moved, between⟩ := stands.move never m
    obtain ⟨cursor₂, later, after⟩ := ih between
    exact ⟨cursor₂, View.bind_eq_ok.2 ⟨_, moved, View.bind_eq_ok.2 ⟨_, later, rfl⟩⟩, after⟩

end StandsAt

/-- The reference is where it was when the calls that find nothing are left out, and finds the same. -/
theorem Move.referAll_finding (entries : List Entry) (current : Option Nat) (moves : List Move) :
    referAll entries current (finding entries current moves) =
      ((referAll entries current moves).1.filter (·.isSome), (referAll entries current moves).2) := by
  induction moves generalizing current with
  | nil => rfl
  | cons m rest ih =>
    rw [finding, referAll]
    cases answer : (m.refer entries current).1 with
    | none => simpa [refer_of_none answer] using ih current
    | some e => simp [answer, referAll, ih]

/-! ## Steps that are undone -/

section

variable {s : Engine} {bucket : Bucket} {e e' : Entry} {cursor' : Cursor}

/-- A step forwards is undone by one backwards. -/
theorem next_prev (never : s.faults = .never) (mem : e ∈ (s.contents.get bucket).entries)
    (moved : (next ⟨bucket, some e.1⟩ : View StoreError _) s = .ok (some e', cursor')) :
    (cursor'.prev : View StoreError _) s = .ok (some e, ⟨bucket, some e.1⟩) := by
  obtain ⟨front, rest, split⟩ := List.append_of_mem mem
  have forwards := step_eq never ⟨bucket, some e.1⟩ (.above e.1) .ascending
  rw [KeyMap.entriesIn_above split] at forwards
  cases rest with
  | nil => cases moved.symm.trans forwards
  | cons _ rest =>
    cases moved.symm.trans forwards
    have split' : (s.contents.get bucket).entries = (front ++ [e]) ++ e' :: rest := by simp [split]
    refine (step_eq never _ (.below e'.1) .descending).trans ?_
    rw [KeyMap.entriesIn_below split', List.reverse_append]
    rfl

/-- A step backwards is undone by one forwards. -/
theorem prev_next (never : s.faults = .never) (mem : e ∈ (s.contents.get bucket).entries)
    (moved : (prev ⟨bucket, some e.1⟩ : View StoreError _) s = .ok (some e', cursor')) :
    (cursor'.next : View StoreError _) s = .ok (some e, ⟨bucket, some e.1⟩) := by
  obtain ⟨front, rest, split⟩ := List.append_of_mem mem
  have backwards := step_eq never ⟨bucket, some e.1⟩ (.below e.1) .descending
  rw [KeyMap.entriesIn_below split] at backwards
  obtain rfl | ⟨front, b, rfl⟩ := List.eq_nil_or_concat' front
  · cases moved.symm.trans backwards
  · rw [List.reverse_append] at backwards
    cases moved.symm.trans backwards
    have split' : (s.contents.get bucket).entries = front ++ e' :: e :: rest := by simp [split]
    refine (step_eq never _ (.above e'.1) .ascending).trans ?_
    rw [KeyMap.entriesIn_above split']
    rfl

end

/-- From the first entry forwards there is every entry. -/
theorem walk_first {s : Engine} (never : s.faults = .never) (cursor : Cursor) :
    ∃ entry cursor', (cursor.first : View StoreError _) s = .ok (entry, cursor') ∧
      Walk next s entry cursor' (s.contents.get cursor.bucket).entries := by
  refine ⟨_, _, step_eq never cursor .all .ascending, ?_⟩
  rw [KeyMap.entriesIn_all]
  exact walk_next never cursor (List.nil_append _).symm

/-- Take any bucket of a database whose lock is not poisoned and whose calls do not fail. Its entries are what
is stored, in strictly ascending order of the keys. Any calls on a cursor, made one after the other in one
view, find what a reference cursor finds that ignores those which lead out of the entries; without these the
others find the same, and the cursor ends at the same place. From wherever it ends:

* `first` and then `next`, until nothing is found, is a walk through all entries; `last` and then `prev` is one
  through the same entries backwards; `seek` and then `next` is one through those whose keys are not smaller.
* A call that finds nothing leaves the cursor.
* A cursor that has a position stands on an entry. A step that finds another one, in either direction, is
  undone by the opposite step: it finds the entry on which the cursor stood, and leaves the cursor as it was. -/
theorem walks_exact {db : Database} (sound : db.Sound) (bucket : Bucket) (moves : List Move) :
    let s := db.engine
    let entries := (db.contents.get bucket).entries
    let run := Move.referAll entries none moves
    entries.Pairwise (fun a b => a.1 < b.1) ∧
    (∀ key value, (key, value) ∈ entries ↔ db.contents.lookup bucket key = some value) ∧
    ∃ cursor : Cursor,
      db.view (moveAll ⟨bucket, none⟩ moves) = .ok (run.1, cursor) ∧
      db.view (moveAll ⟨bucket, none⟩ (Move.finding entries none moves)) =
        .ok (run.1.filter (·.isSome), cursor) ∧
      (∃ entry cursor', cursor.move .first s = .ok (entry, cursor') ∧ Walk next s entry cursor' entries) ∧
      (∃ entry cursor', cursor.move .last s = .ok (entry, cursor') ∧
        Walk prev s entry cursor' entries.reverse) ∧
      (∀ key, ∃ entry cursor', cursor.move (.seek key) s = .ok (entry, cursor') ∧
        Walk next s entry cursor' (entries.filter fun e => ¬e.1 < key)) ∧
      (∀ m cursor', cursor.move m s = .ok (none, cursor') → cursor' = cursor) ∧
      ∀ key, cursor.position = some key → ∃ e ∈ entries, e.1 = key ∧
        (∀ e' cursor', cursor.move .next s = .ok (some e', cursor') →
          cursor'.move .prev s = .ok (some e, cursor)) ∧
        ∀ e' cursor', cursor.move .prev s = .ok (some e', cursor') →
          cursor'.move .next s = .ok (some e, cursor) := by
  intro s entries run
  have never : s.faults = .never := sound.never
  have start : StandsAt bucket (s.contents.get bucket).entries none ⟨bucket, none⟩ := .nowhere
  obtain ⟨cursor, moved, stands⟩ := start.moveAll never moves
  obtain ⟨cursor', moved', stands'⟩ :=
    start.moveAll never (Move.finding (s.contents.get bucket).entries none moves)
  rw [Move.referAll_finding] at moved' stands'
  obtain rfl := stands.unique stands'
  have same : (s.contents.get cursor'.bucket).entries = entries := by rw [stands.bucket_eq]; rfl
  refine ⟨(db.contents.get bucket).sorted, fun key value => KeyMap.get?_eq_some_iff.symm, cursor',
    (sound.view_eq _).trans moved, (sound.view_eq _).trans moved', same ▸ walk_first never cursor',
    same ▸ walk_last never cursor', fun key => same ▸ walk_seek never cursor' key, fun m cursor₁ none => ?_,
    fun key position => ?_⟩
  · obtain ⟨cursor₂, moved, after⟩ := stands.move never m
    obtain ⟨nothing, rfl⟩ := Prod.mk.inj (Except.ok.inj (none.symm.trans moved))
    rw [Move.refer_of_none nothing.symm] at after
    exact stands.unique after
  · obtain ⟨e, mem, rfl, rfl⟩ := stands.exists_entry position
    exact ⟨e, mem, rfl, fun _ _ => next_prev never mem, fun _ _ => prev_next never mem⟩

/-- Over three entries: a walk past the end and one step back, a key behind all others, a step before the first
entry, and a key between two others. -/
theorem walks_exact_threeEntries :
    let stored := Contents.empty.performAll
      [.put .confirmedBlocks [30] [31], .put .confirmedBlocks [10] [11], .put .confirmedBlocks [20] [21]]
    let db : Database := { engine := ⟨.memory, stored, .never⟩ }
    let moves := [.next, .next, .next, .next, .prev, .last, .seek [31], .prev, .first, .prev, .seek [15]]
    db.Sound ∧ ∃ cursor : Cursor, db.view (moveAll ⟨.confirmedBlocks, none⟩ moves) =
        .ok ([some ([10], [11]), some ([20], [21]), some ([30], [31]), none, some ([20], [21]),
          some ([30], [31]), none, some ([20], [21]), some ([10], [11]), none, some ([20], [21])], cursor) ∧
      ∃ entry cursor', cursor.move (.seek [15]) db.engine = .ok (entry, cursor') ∧
        Walk next db.engine entry cursor' [([20], [21]), ([30], [31])] := by
  intro stored db moves
  have sound : db.Sound := ⟨rfl, rfl⟩
  obtain ⟨-, -, cursor, run, -, -, -, seek, -, -⟩ := walks_exact sound .confirmedBlocks moves
  exact ⟨sound, cursor, run.trans (by rfl), seek [15]⟩

end Cursor

end ChainIndex
