/-!
# Rollback windows

* `Window α`: up to `capacity` entries in order of arrival, oldest first.
* `push?` appends unless the window is full; `peek?` and `pop` look at and drop the oldest; `truncate`
  keeps the first entries.
-/

namespace ChainIndex

/-- Entries that wait, oldest first, never more than the capacity. -/
structure Window (α : Type) where
  entries : List α
  capacity : Nat
  length_le : entries.length ≤ capacity

namespace Window

variable {α : Type}

/-- A window without entries. -/
def empty (capacity : Nat) : Window α := ⟨[], capacity, Nat.zero_le _⟩

/-- The number of entries. -/
def size (w : Window α) : Nat := w.entries.length

/-- Whether no entry is pending. -/
def isEmpty (w : Window α) : Bool := w.entries.isEmpty

/-- Whether no further entry fits. -/
def isFull (w : Window α) : Bool := decide (w.capacity ≤ w.size)

/-- The window with an entry appended, unless it is full. -/
def push? (w : Window α) (a : α) : Option (Window α) :=
  if h : w.size < w.capacity then
    some ⟨w.entries ++ [a], w.capacity, by simp [size] at h ⊢; omega⟩
  else none

/-- The oldest entry. -/
def peek? (w : Window α) : Option α := w.entries.head?

/-- The window without its oldest entry. -/
def pop (w : Window α) : Window α :=
  ⟨w.entries.tail, w.capacity, Nat.le_trans (by simp) w.length_le⟩

/-- The position of the first entry of which `p` holds. -/
def find? (w : Window α) (p : α → Bool) : Option Nat := w.entries.findIdx? p

/-- The first `count` entries. -/
def truncate (w : Window α) (count : Nat) : Window α :=
  ⟨w.entries.take count, w.capacity, Nat.le_trans (List.take_sublist count w.entries).length_le w.length_le⟩

/-- The window without entries, of the same capacity. -/
def clear (w : Window α) : Window α := empty w.capacity

@[simp] theorem entries_empty (capacity : Nat) : (empty capacity : Window α).entries = [] := rfl

@[simp] theorem entries_pop (w : Window α) : w.pop.entries = w.entries.tail := rfl

@[simp] theorem entries_truncate (w : Window α) (count : Nat) :
    (w.truncate count).entries = w.entries.take count := rfl

@[simp] theorem entries_clear (w : Window α) : w.clear.entries = [] := rfl

theorem entries_of_push? {w w' : Window α} {a : α} (h : w.push? a = some w') :
    w'.entries = w.entries ++ [a] := by
  unfold push? at h
  split at h
  · cases h; rfl
  · cases h

/-- A push is refused exactly by a full window. -/
theorem push?_eq_none_iff {w : Window α} {a : α} : w.push? a = none ↔ w.isFull = true := by
  simp [push?, isFull]

end Window

/-- The text shown when a window of a capacity refuses an entry. -/
def windowFullMessage (capacity : Nat) : String :=
  "rollback window is full (capacity " ++ toString capacity ++ ")"

end ChainIndex
