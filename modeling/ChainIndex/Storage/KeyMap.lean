import ChainIndex.Bytes.Basic

/-!
# Ordered byte maps

* `KeyMap α`: a finite map from byte strings, kept as its entries in strictly ascending key order; so
  two maps with the same entries are equal (`KeyMap.ext_get?`).
* `get?`, `insert`, `erase`: look-up, replacement and removal (`get?_insert`, `get?_erase`).
* `KeyRange` and `entriesIn`: the entries between two bounds, in either direction.
-/

namespace ChainIndex

/-- A finite map from byte strings, as its entries in key order. -/
structure KeyMap (α : Type) where
  entries : List (Bytes × α)
  sorted : entries.Pairwise fun a b => a.1 < b.1
deriving DecidableEq

namespace KeyMap

variable {α : Type}

/-- The map without entries. -/
def empty : KeyMap α := ⟨[], .nil⟩

instance : EmptyCollection (KeyMap α) := ⟨empty⟩

instance : Inhabited (KeyMap α) := ⟨empty⟩

/-- Whether there is no entry. -/
def isEmpty (m : KeyMap α) : Bool := m.entries.isEmpty

/-- The value under a key. -/
def get? (m : KeyMap α) (key : Bytes) : Option α := m.entries.lookup key

/-! ## Changing one entry -/

/-- Entries in key order with the value of one key set. -/
def insertEntry (key : Bytes) (value : α) : List (Bytes × α) → List (Bytes × α)
  | [] => [(key, value)]
  | (k, v) :: rest =>
    if key < k then (key, value) :: (k, v) :: rest
    else if key = k then (key, value) :: rest
    else (k, v) :: insertEntry key value rest

theorem mem_insertEntry {key : Bytes} {value : α} {entries : List (Bytes × α)} {e : Bytes × α}
    (h : e ∈ insertEntry key value entries) : e = (key, value) ∨ e ∈ entries := by
  induction entries with
  | nil => simpa [insertEntry] using h
  | cons head rest ih =>
    obtain ⟨k, v⟩ := head
    simp only [insertEntry] at h
    split at h
    · simpa using h
    · split at h <;> simp at h ⊢ <;> grind

theorem pairwise_insertEntry (key : Bytes) (value : α) {entries : List (Bytes × α)}
    (sorted : entries.Pairwise fun a b => a.1 < b.1) :
    (insertEntry key value entries).Pairwise fun a b => a.1 < b.1 := by
  induction entries with
  | nil => simp [insertEntry]
  | cons head rest ih =>
    obtain ⟨k, v⟩ := head
    rw [List.pairwise_cons] at sorted
    simp only [insertEntry]
    split
    · rename_i lt
      refine List.pairwise_cons.2 ⟨fun e he => ?_, List.pairwise_cons.2 sorted⟩
      rcases List.mem_cons.1 he with rfl | he
      · exact lt
      · exact List.lt_trans lt (sorted.1 e he)
    · split
      · rename_i eq
        exact List.pairwise_cons.2 ⟨fun e he => eq ▸ sorted.1 e he, sorted.2⟩
      · refine List.pairwise_cons.2 ⟨fun e he => ?_, ih sorted.2⟩
        rcases mem_insertEntry he with rfl | he
        · show k < key
          grind
        · exact sorted.1 e he

/-- The map with the value of one key set. -/
def insert (m : KeyMap α) (key : Bytes) (value : α) : KeyMap α :=
  ⟨insertEntry key value m.entries, pairwise_insertEntry key value m.sorted⟩

/-- The map without one key. -/
def erase (m : KeyMap α) (key : Bytes) : KeyMap α :=
  ⟨m.entries.filter fun e => e.1 != key, m.sorted.filter _⟩

/-- The map with each of some entries set, in order. -/
def insertAll (m : KeyMap α) (entries : List (Bytes × α)) : KeyMap α :=
  entries.foldl (fun m e => m.insert e.1 e.2) m

/-! ## Look-up after a change -/

theorem lookup_cons_eq (e : Bytes × α) (rest : List (Bytes × α)) (key : Bytes) :
    (e :: rest).lookup key = if key = e.1 then some e.2 else rest.lookup key := by
  rw [List.lookup_cons]
  by_cases h : key = e.1
  · simp [h]
  · simp [h, beq_false_of_ne h]

theorem lookup_insertEntry (key k : Bytes) (value : α) (entries : List (Bytes × α)) :
    (insertEntry key value entries).lookup k =
      if k = key then some value else entries.lookup k := by
  induction entries with
  | nil => simp [insertEntry, lookup_cons_eq]
  | cons head rest ih =>
    simp only [insertEntry]
    split
    · simp [lookup_cons_eq]
    · split <;> simp only [lookup_cons_eq, ih] <;> grind

@[simp] theorem get?_empty (key : Bytes) : (empty : KeyMap α).get? key = none := rfl

theorem get?_insert (m : KeyMap α) (key k : Bytes) (value : α) :
    (m.insert key value).get? k = if k = key then some value else m.get? k :=
  lookup_insertEntry key k value m.entries

theorem get?_erase (m : KeyMap α) (key k : Bytes) :
    (m.erase key).get? k = if k = key then none else m.get? k := by
  simp only [get?, erase]
  induction m.entries with
  | nil => simp
  | cons head rest ih =>
    rw [List.filter_cons]
    split <;> simp only [lookup_cons_eq, ih] <;> grind

/-- A value is found under a key exactly when the entry is there. -/
theorem get?_eq_some_iff {m : KeyMap α} {key : Bytes} {value : α} :
    m.get? key = some value ↔ (key, value) ∈ m.entries := by
  obtain ⟨entries, sorted⟩ := m
  simp only [get?]
  induction entries with
  | nil => simp
  | cons head rest ih =>
    obtain ⟨k, v⟩ := head
    rw [List.pairwise_cons] at sorted
    rw [lookup_cons_eq]
    by_cases h : key = k
    · subst h
      have : (key, value) ∉ rest := fun mem => List.lt_irrefl key (sorted.1 (key, value) mem)
      simp [this, eq_comm]
    · simp [h, ih sorted.2]

/-- Maps that answer every look-up alike are equal. -/
theorem ext_get? {m n : KeyMap α} (h : ∀ key, m.get? key = n.get? key) : m = n := by
  have mem : ∀ e, e ∈ m.entries ↔ e ∈ n.entries := fun e => by
    rw [← @get?_eq_some_iff _ m e.1 e.2, ← @get?_eq_some_iff _ n e.1 e.2, h]
  obtain ⟨xs, hx⟩ := m
  obtain ⟨ys, hy⟩ := n
  simp only [mk.injEq]
  simp only at mem
  clear h
  induction xs generalizing ys with
  | nil => cases ys with
    | nil => rfl
    | cons y ys => exact absurd ((mem y).2 (by simp)) (by simp)
  | cons x xs ih => cases ys with
    | nil => exact absurd ((mem x).1 (by simp)) (by simp)
    | cons y ys =>
      rw [List.pairwise_cons] at hx hy
      have xy : x = y := by
        rcases List.mem_cons.1 ((mem x).1 (by simp)) with h | h
        · exact h
        · rcases List.mem_cons.1 ((mem y).2 (by simp)) with h' | h'
          · exact h'.symm
          · exact absurd (List.lt_trans (hx.1 y h') (hy.1 x h)) (List.lt_irrefl _)
      subst xy
      have rest : ∀ e, e ∈ xs ↔ e ∈ ys := fun e => by
        have := mem e
        simp only [List.mem_cons] at this
        constructor
        · intro he
          rcases this.1 (.inr he) with rfl | h
          · exact absurd (hx.1 e he) (List.lt_irrefl _)
          · exact h
        · intro he
          rcases this.2 (.inr he) with rfl | h
          · exact absurd (hy.1 e he) (List.lt_irrefl _)
          · exact h
      rw [ih hx.2 ys hy.2 rest]

end KeyMap

/-! ## Ranges -/

/-- One end of a range of keys. -/
inductive KeyBound where
  | unbounded
  | included (key : Bytes)
  | excluded (key : Bytes)
deriving DecidableEq

/-- The keys between two ends. -/
structure KeyRange where
  lower : KeyBound
  upper : KeyBound
deriving DecidableEq

namespace KeyRange

/-- Every key. -/
def all : KeyRange := ⟨.unbounded, .unbounded⟩

/-- The keys from one on. -/
def atLeast (key : Bytes) : KeyRange := ⟨.included key, .unbounded⟩

/-- The keys behind one. -/
def above (key : Bytes) : KeyRange := ⟨.excluded key, .unbounded⟩

/-- The keys before one. -/
def below (key : Bytes) : KeyRange := ⟨.unbounded, .excluded key⟩

/-- Whether a key lies between the ends. -/
def contains (range : KeyRange) (key : Bytes) : Bool :=
  (match range.lower with
    | .unbounded => true
    | .included k => !decide (key < k)
    | .excluded k => decide (k < key)) &&
  (match range.upper with
    | .unbounded => true
    | .included k => !decide (k < key)
    | .excluded k => decide (key < k))

end KeyRange

/-- The order in which entries are visited. -/
inductive Direction where
  | ascending | descending
deriving DecidableEq

/-- The entries of a range in the order in which they are visited. -/
def KeyMap.entriesIn {α : Type} (m : KeyMap α) (range : KeyRange) :
    Direction → List (Bytes × α)
  | .ascending => m.entries.filter fun e => range.contains e.1
  | .descending => (m.entries.filter fun e => range.contains e.1).reverse

end ChainIndex
