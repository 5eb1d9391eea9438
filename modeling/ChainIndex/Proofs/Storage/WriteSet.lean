import ChainIndex.Storage.Engine

/-!
# Write sets carried out

* `WriteSet.lookup_applyTo`: what a write set leaves under a key is what is pending for it, over what was
  there.
* `WriteSet.applyTo_add`: so one more change is one more change of the contents.
* `Durable.applyBatch_batch`: the batch of a durable engine does what the write set does.
* `Engine.commit_ok`: on every medium a commit that succeeds leaves the contents of `WriteSet.applyTo`.
-/

namespace ChainIndex

/-! ## Contents -/

/-- Contents that answer every look-up alike are equal. -/
theorem Contents.ext_lookup {c d : Contents} (h : ∀ b k, c.lookup b k = d.lookup b k) : c = d :=
  Buckets.ext_get fun b => KeyMap.ext_get? (h b)

theorem Contents.lookup_set (c : Contents) (bucket b : Bucket) (m : KeyMap Bytes) (k : Bytes) :
    Contents.lookup (c.set bucket m) b k = if b = bucket then m.get? k else c.lookup b k := by
  rw [lookup, Buckets.get_set]
  split <;> rfl

/-- What a change sets a key to, if it is about that key. -/
def Write.value? (b : Bucket) (k : Bytes) : Write → Option (Option Bytes)
  | .put bucket key value => if b = bucket ∧ k = key then some (some value) else none
  | .delete bucket key => if b = bucket ∧ k = key then some none else none
  | .clear bucket => if b = bucket then some none else none

theorem Contents.lookup_perform (c : Contents) (x : Write) (b : Bucket) (k : Bytes) :
    (c.perform x).lookup b k = (x.value? b k).getD (c.lookup b k) := by
  cases x with
  | put bucket key value =>
    simp only [perform, lookup_set, KeyMap.get?_insert, Write.value?]
    by_cases hb : b = bucket
    · subst hb
      by_cases hk : k = key <;> simp [hk, lookup]
    · simp [hb]
  | delete bucket key =>
    simp only [perform, lookup_set, KeyMap.get?_erase, Write.value?]
    by_cases hb : b = bucket
    · subst hb
      by_cases hk : k = key <;> simp [hk, lookup]
    · simp [hb]
  | clear bucket =>
    simp only [perform, lookup_set, Write.value?]
    by_cases hb : b = bucket
    · simp [hb]; rfl
    · simp [hb]

/-! ## Look-ups through a write set -/

/-- What is pending for a key, over what is there. -/
def PendingValue.over (stored : Option Bytes) : PendingValue → Option Bytes
  | .untouched => stored
  | .deleted => none
  | .value bytes => some bytes

namespace WriteSet

theorem get?_applyEntries (m : KeyMap Bytes) {entries : List (Bytes × Option Bytes)}
    (sorted : entries.Pairwise fun a b => a.1 < b.1) (k : Bytes) :
    (applyEntries m entries).get? k = (entries.lookup k).getD (m.get? k) := by
  induction entries generalizing m with
  | nil => rfl
  | cons head rest ih =>
    obtain ⟨key, value?⟩ := head
    rw [List.pairwise_cons] at sorted
    rw [applyEntries, List.foldl_cons, ← applyEntries, ih _ sorted.2, KeyMap.lookup_cons_eq]
    by_cases hk : k = key
    · -- The key is not written again behind its entry.
      subst hk
      have habsent : rest.lookup k = none := by
        rw [List.lookup_eq_none_iff]
        intro e he
        have := sorted.1 e he
        simp only [bne_iff_ne]
        rintro rfl
        exact List.lt_irrefl _ this
      rw [habsent]
      cases value? <;> simp [KeyMap.get?_insert, KeyMap.get?_erase]
    · cases value? <;> simp [hk, KeyMap.get?_insert, KeyMap.get?_erase]

theorem lookup_applyTo (w : WriteSet) (c : Contents) (b : Bucket) (k : Bytes) :
    (w.applyTo c).lookup b k = (w.lookup b k).over (c.lookup b k) := by
  rw [Contents.lookup, applyTo, Buckets.get_mapWith,
    get?_applyEntries _ (w.entries.get b).sorted, lookup]
  have hget : (w.entries.get b).entries.lookup k = (w.entries.get b).get? k := rfl
  rw [hget]
  cases (w.entries.get b).get? k with
  | some value? => cases value? <;> rfl
  | none =>
    cases w.cleared.get b <;> rfl

theorem lookup_empty (b : Bucket) (k : Bytes) : empty.lookup b k = .untouched := by
  cases b <;> rfl

theorem applyTo_empty (c : Contents) : empty.applyTo c = c :=
  Contents.ext_lookup fun b k => by rw [lookup_applyTo, lookup_empty]; rfl

/-- One more pending change decides what is pending for the keys that it is about. -/
theorem lookup_add (w : WriteSet) (x : Write) (b : Bucket) (k : Bytes) :
    (w.add x).lookup b k =
      match x.value? b k with
      | some (some value) => .value value
      | some none => .deleted
      | none => w.lookup b k := by
  cases x with
  | put bucket key value | delete bucket key =>
    simp only [add, lookup, Buckets.get_set, Write.value?]
    by_cases hb : b = bucket
    · subst hb
      by_cases hk : k = key
      · simp [hk, KeyMap.get?_insert]
      · simp [hk, KeyMap.get?_insert]
        rfl
    · simp [hb]
      rfl
  | clear bucket =>
    simp only [add, lookup, Buckets.get_set, Write.value?]
    by_cases hb : b = bucket
    · subst hb
      have hempty : (∅ : KeyMap (Option Bytes)).get? k = none := rfl
      simp [hempty]
    · simp [hb]

/-- One more pending change is one more change of the contents. -/
theorem applyTo_add (w : WriteSet) (x : Write) (c : Contents) :
    (w.add x).applyTo c = (w.applyTo c).perform x := by
  refine Contents.ext_lookup fun b k => ?_
  rw [Contents.lookup_perform, lookup_applyTo, lookup_applyTo, lookup_add]
  rcases x.value? b k with _ | _ | value <;> rfl

theorem applyTo_of_isEmpty {w : WriteSet} (h : w.isEmpty = true) (c : Contents) :
    w.applyTo c = c := by
  refine Contents.ext_lookup fun b k => ?_
  have hb := List.all_eq_true.1 h b b.mem_all
  simp only [Bool.and_eq_true, Bool.not_eq_true', KeyMap.isEmpty, List.isEmpty_iff] at hb
  have hnone : (w.entries.get b).get? k = none := by rw [KeyMap.get?, hb.2]; rfl
  rw [lookup_applyTo, lookup, hnone, hb.1]
  rfl

end WriteSet

/-! ## Batches of a durable engine -/

namespace Durable

/-- What a change sets its key to. -/
def KeyChange.value? : KeyChange → Option Bytes
  | insert _ _ value => some value
  | remove _ _ => none

theorem lookup_applyChange (c : Contents) (x : KeyChange) (b : Bucket) (k : Bytes) :
    (applyChange c x).lookup b k = if x.target = (b, k) then x.value? else c.lookup b k := by
  cases x with
  | insert bucket key value | remove bucket key =>
    simp only [applyChange, Contents.lookup_perform, Write.value?, KeyChange.target, Prod.mk.injEq]
    by_cases h : b = bucket ∧ k = key
    · rw [if_pos h, if_pos ⟨h.1.symm, h.2.symm⟩]; rfl
    · rw [if_neg h, if_neg fun h' => h ⟨h'.1.symm, h'.2.symm⟩]; rfl

/-- Changes that agree on a key set it; without one it stays. -/
theorem lookup_applyBatch {b : Bucket} {k : Bytes} {value? : Option Bytes}
    {changes : List KeyChange} (agree : ∀ x ∈ changes, x.target = (b, k) → x.value? = value?)
    (c : Contents) : (applyBatch c changes).lookup b k =
      if ∃ x ∈ changes, x.target = (b, k) then value? else c.lookup b k := by
  induction changes generalizing c with
  | nil => simp [applyBatch]
  | cons x rest ih =>
    have hstep : applyBatch c (x :: rest) = applyBatch (applyChange c x) rest := rfl
    rw [hstep, ih fun y hy => agree y (List.mem_cons_of_mem _ hy), lookup_applyChange]
    by_cases hx : x.target = (b, k)
    · simp [hx, agree x List.mem_cons_self hx]
    · simp [hx]

theorem applyBatch_append (c : Contents) (front back : List KeyChange) :
    applyBatch c (front ++ back) = applyBatch (applyBatch c front) back := List.foldl_append

/-- The changes of written keys are the entries of the write set. -/
theorem mem_writing {w : WriteSet} {x : KeyChange} {b : Bucket} {k : Bytes}
    (hx : x.target = (b, k)) :
    x ∈ Bucket.all.flatMap (writing w) ↔ (w.entries.get b).get? k = some x.value? := by
  rw [KeyMap.get?_eq_some_iff]
  constructor
  · intro h
    obtain ⟨bucket, -, h⟩ := List.mem_flatMap.1 h
    obtain ⟨⟨key, value?⟩, he, rfl⟩ := List.mem_map.1 h
    cases value? <;> cases hx <;> exact he
  · intro h
    refine List.mem_flatMap.2 ⟨b, b.mem_all, List.mem_map.2 ⟨_, h, ?_⟩⟩
    cases x <;> cases hx <;> rfl

/-- The removals that empty buckets are of stored keys that are not written. -/
theorem mem_clearing {w : WriteSet} {c : Contents} {x : KeyChange} {b : Bucket} {k : Bytes}
    (hx : x.target = (b, k)) :
    x ∈ Bucket.all.flatMap (clearing w c) ↔ x.value? = none ∧ w.cleared.get b = true ∧
      (w.entries.get b).get? k = none ∧ c.lookup b k ≠ none := by
  constructor
  · intro h
    obtain ⟨bucket, -, h⟩ := List.mem_flatMap.1 h
    unfold clearing at h
    split at h
    · rename_i cleared
      obtain ⟨⟨key, value⟩, he, h⟩ := List.mem_filterMap.1 h
      simp only at h
      split at h
      · cases h
      · rename_i unwritten
        cases h
        cases hx
        have hl : c.lookup b k = some value := KeyMap.get?_eq_some_iff.2 he
        exact ⟨rfl, cleared, by simpa using unwritten, by simp [hl]⟩
    · cases h
  · rintro ⟨removal, cleared, unwritten, stored⟩
    cases x with
    | insert => cases removal
    | remove bucket key =>
      cases hx
      obtain ⟨value, hl⟩ := Option.ne_none_iff_exists'.1 stored
      refine List.mem_flatMap.2 ⟨b, b.mem_all, ?_⟩
      rw [clearing, if_pos cleared]
      exact List.mem_filterMap.2 ⟨(k, value), KeyMap.get?_eq_some_iff.1 hl, by simp [unwritten]⟩

theorem exists_mem_writing {w : WriteSet} {b : Bucket} {k : Bytes} :
    (∃ x ∈ Bucket.all.flatMap (writing w), x.target = (b, k)) ↔
      (w.entries.get b).get? k ≠ none := by
  constructor
  · rintro ⟨x, hx, ht⟩
    simp [(mem_writing ht).1 hx]
  · intro h
    obtain ⟨value?, hv⟩ := Option.ne_none_iff_exists'.1 h
    cases value? with
    | none => exact ⟨.remove b k, (mem_writing rfl).2 hv, rfl⟩
    | some value => exact ⟨.insert b k value, (mem_writing rfl).2 hv, rfl⟩

theorem exists_mem_clearing {w : WriteSet} {c : Contents} {b : Bucket} {k : Bytes} :
    (∃ x ∈ Bucket.all.flatMap (clearing w c), x.target = (b, k)) ↔
      w.cleared.get b = true ∧ (w.entries.get b).get? k = none ∧ c.lookup b k ≠ none := by
  constructor
  · rintro ⟨x, hx, ht⟩
    exact ((mem_clearing ht).1 hx).2
  · exact fun h => ⟨.remove b k, (mem_clearing rfl).2 ⟨rfl, h⟩, rfl⟩

/-- The batch of a write set does what the write set does. -/
theorem applyBatch_batch (w : WriteSet) (c : Contents) :
    applyBatch c (batch w c) = w.applyTo c := by
  refine Contents.ext_lookup fun b k => ?_
  have agreeWriting : ∀ x ∈ Bucket.all.flatMap (writing w), x.target = (b, k) →
      x.value? = ((w.entries.get b).get? k).getD none := by
    intro x hx ht
    rw [(mem_writing ht).1 hx]
    rfl
  have agreeClearing : ∀ x ∈ Bucket.all.flatMap (clearing w c), x.target = (b, k) →
      x.value? = none := fun x hx ht => ((mem_clearing ht).1 hx).1
  rw [batch, applyBatch_append, lookup_applyBatch agreeWriting, lookup_applyBatch agreeClearing,
    WriteSet.lookup_applyTo, WriteSet.lookup]
  simp only [exists_mem_writing, exists_mem_clearing]
  cases (w.entries.get b).get? k with
  | some value? => cases value? <;> rfl
  | none =>
    cases w.cleared.get b with
    | false => simp [PendingValue.over]
    | true => cases c.lookup b k <;> simp [PendingValue.over]

theorem commit_ok {faults : Faults} {syncWrites : Bool} {w : WriteSet} {c d : Contents}
    (h : commit faults syncWrites w c = (.ok (), d)) : d = w.applyTo c := by
  unfold commit at h
  split at h
  · cases h
  · split at h
    · cases h
    · simp only [applyBatch_batch] at h
      split at h
      · exact (Prod.mk.inj h).2.symm
      · exact (Prod.mk.inj h).2.symm

end Durable

/-- On every medium a commit that succeeds carries the write set out. -/
theorem Engine.commit_ok {s t : Engine} {w : WriteSet} (h : s.commit w = (.ok (), t)) :
    t = { s with contents := w.applyTo s.contents } := by
  unfold commit at h
  split at h
  · split at h
    · cases h
    · cases h; rfl
  · rename_i syncWrites _
    simp only at h
    generalize hd : Durable.commit s.faults syncWrites w s.contents = r at h
    obtain ⟨result, contents⟩ := r
    cases h
    rw [Durable.commit_ok hd]

end ChainIndex
