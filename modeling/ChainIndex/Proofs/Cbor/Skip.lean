import ChainIndex.Proofs.Cbor.Reads

/-!
# Items of any kind are passed over

What remains to be passed is a number of items inside each open indefinite container. `Pending.levels`
reads these numbers off the two counts or off the stack of frames, whichever is in charge.

The two counts forget how many items remain around the innermost indefinite container. That is no error:
up to its break an indefinite container may hold any number of items, so only what remains outside of
all of them has to be exact. `AtMost` says how a count may differ from the true numbers, and `Counts`
that what is pending differs from them at most so.

* `Counts.count`, `Counts.openDefinite`, `Counts.openIndefinite`, `Counts.close`: the steps keep it.
* `WellFormed.passes`: so an item counts as one, however it is nested, by induction on the item.
* `WellFormed.reads_skip`: an item is passed over as a whole, and nothing behind it.
-/

namespace ChainIndex.Cbor

open Reader

/-! ## What remains to be passed -/

/-- The numbers of items in a stack of frames, of which the top one was counted: those inside the innermost
indefinite container, and those inside each one around it. -/
def frameLevels : List (Option Nat) → Nat × List Nat
  | [] => (0, [])
  | some n :: frames => ((frameLevels frames).1 + n, (frameLevels frames).2)
  | none :: frames => (0, (frameLevels frames).1 :: (frameLevels frames).2)

theorem frameLevels_replicate (n : Nat) :
    frameLevels (List.replicate n none) = (0, List.replicate n 0) := by
  induction n with
  | zero => rfl
  | succ n ih => simp [List.replicate_succ, frameLevels, ih]

namespace Pending

/-- The numbers of items that remain, inside the innermost indefinite container and around it. -/
def levels (p : Pending) : Nat × List Nat :=
  if p.usesFrames then
    match p.frames with
    | some n :: frames => frameLevels (some (n + 1) :: frames)
    | frames => frameLevels frames
  else (p.items, List.replicate p.breaks 0)

/-- Either the two counts are in charge and there are no frames, or the frames are. -/
inductive Tidy : Pending → Prop
  | counting {items breaks : Nat} (h : items ≠ 0 ∨ breaks ≠ 0) : Tidy ⟨items, breaks, []⟩
  | stacked (frames : List (Option Nat)) : Tidy ⟨0, 0, frames⟩

variable {items breaks : Nat}

theorem tidy_counts (items breaks : Nat) : Tidy ⟨items, breaks, []⟩ := by
  by_cases h : items ≠ 0 ∨ breaks ≠ 0
  · exact .counting h
  · obtain ⟨rfl, rfl⟩ : items = 0 ∧ breaks = 0 := by omega
    exact .stacked []

theorem usesFrames_counts (frames : List (Option Nat)) (h : items ≠ 0 ∨ breaks ≠ 0) :
    usesFrames ⟨items, breaks, frames⟩ = false := by
  simp only [usesFrames, Bool.and_eq_false_iff, beq_eq_false_iff_ne]
  exact h

@[simp] theorem levels_counts (items breaks : Nat) :
    levels ⟨items, breaks, []⟩ = (items, List.replicate breaks 0) := by
  by_cases h : items ≠ 0 ∨ breaks ≠ 0
  · rw [levels, usesFrames_counts [] h]
    rfl
  · obtain ⟨rfl, rfl⟩ : items = 0 ∧ breaks = 0 := by omega
    rfl

@[simp] theorem count_counts (items breaks : Nat) :
    count ⟨items, breaks, []⟩ = ⟨items - 1, breaks, []⟩ := by
  by_cases h : items ≠ 0 ∨ breaks ≠ 0
  · rw [count, usesFrames_counts [] h]
    rfl
  · obtain ⟨rfl, rfl⟩ : items = 0 ∧ breaks = 0 := by omega
    rfl

/-- What counting leaves of a stack is what there is in the stack once its top frame was counted. -/
@[simp] theorem levels_count_stacked (frames : List (Option Nat)) :
    (count ⟨0, 0, frames⟩).levels = frameLevels frames := by
  have hcount : ∀ frames, count ⟨0, 0, frames⟩ = ⟨0, 0, countFrame frames⟩ := fun _ => rfl
  rw [hcount]
  induction frames with
  | nil => rfl
  | cons frame frames ih =>
    match frame with
    | none => rfl
    | some 0 => exact ih
    | some (n + 1) => rfl

theorem frameLevels_eq (frames : List (Option Nat)) :
    frameLevels frames =
      ((levels ⟨0, 0, frames⟩).1 - 1, (levels ⟨0, 0, frames⟩).2) := by
  match frames with
  | [] => rfl
  | none :: frames => rfl
  | some n :: frames => rfl

theorem tidy_count {p : Pending} (h : p.Tidy) : p.count.Tidy := by
  cases h with
  | counting =>
    rw [count_counts]
    exact tidy_counts _ _
  | stacked frames => exact .stacked _

end Pending

/-- Inside of indefinite containers a count may fall behind the true number of items; outside of all it is
exact. -/
inductive AtMost : Nat × List Nat → Nat × List Nat → Prop
  | outermost (n : Nat) : AtMost (n, []) (n, [])
  | inside {m n i k : Nat} {is ks : List Nat} (le : m ≤ n) (outer : AtMost (i, is) (k, ks)) :
      AtMost (m, i :: is) (n, k :: ks)

namespace AtMost

variable {x y : Nat × List Nat} {m n : Nat}

theorem le (h : AtMost x y) : x.1 ≤ y.1 := by
  cases h with
  | outermost => exact Nat.le_refl _
  | inside le => exact le

/-- The innermost numbers can change as long as the count does not get ahead. -/
theorem replace (h : AtMost x y) (le : m ≤ n) (exact_of : x.1 = y.1 → x.2 = [] → m = n) :
    AtMost (m, x.2) (n, y.2) := by
  cases h with
  | outermost =>
    rw [exact_of rfl rfl]
    exact .outermost n
  | inside _ outer => exact .inside le outer

end AtMost

/-! ## The steps -/

/-- What is pending is a number of items inside the innermost indefinite container and further ones around
it, as far as they have to be exact. -/
structure Counts (p : Pending) (items : Nat) (outer : List Nat) : Prop where
  levels : AtMost p.levels (items, outer)
  tidy : p.Tidy

namespace Counts

open Pending

variable {p : Pending} {items : Nat} {outer : List Nat}

theorem one : Counts .one 1 [] := ⟨.outermost 1, .counting (.inl (by decide))⟩

/-- Nothing is left. -/
theorem isDone (h : Counts p 0 []) : p.isDone = true := by
  obtain ⟨levels, tidy⟩ := h
  cases tidy with
  | @counting i b hp =>
    rw [levels_counts] at levels
    cases b with
    | zero =>
      cases levels
      rfl
    | succ b => cases levels
  | stacked frames =>
    match frames with
    | [] => rfl
    | none :: frames => cases levels
    | some n :: frames => exact absurd levels.le (Nat.not_succ_le_zero _)

/-- As long as an item or a break is to come, something is pending. -/
theorem not_isDone (h : Counts p items outer) (live : 0 < items ∨ outer ≠ []) :
    p.isDone = false := by
  cases done : p.isDone with
  | false => rfl
  | true =>
    obtain ⟨levels, -⟩ := h
    simp only [Pending.isDone, Bool.and_eq_true, beq_iff_eq, List.isEmpty_iff] at done
    obtain ⟨i, b, frames⟩ := p
    obtain ⟨⟨rfl, rfl⟩, rfl⟩ := done
    cases levels
    simp at live

theorem count (h : Counts p items outer) : Counts p.count (items - 1) outer := by
  obtain ⟨levels, tidy⟩ := h
  refine ⟨?_, tidy_count tidy⟩
  have le := levels.le
  have hcount : p.count.levels = (p.levels.1 - 1, p.levels.2) := by
    cases tidy with
    | counting => simp
    | stacked frames => rw [levels_count_stacked, frameLevels_eq]
  rw [hcount]
  exact levels.replace (by omega) (by omega)

/-- A definite container counts as what it holds. -/
theorem openDefinite (h : Counts p items outer) (n : Nat) :
    Counts (p.openDefinite n).count (items - 1 + n) outer := by
  obtain ⟨levels, tidy⟩ := h
  have le := levels.le
  cases tidy with
  | @counting i b hp =>
    have hopen : Pending.openDefinite n ⟨i, b, []⟩ = ⟨i + n, b, []⟩ := by
      rw [Pending.openDefinite, usesFrames_counts [] hp]
      rfl
    rw [hopen, count_counts]
    refine ⟨?_, tidy_counts _ _⟩
    rw [levels_counts] at levels le ⊢
    refine levels.replace (by omega) fun eq none_open => ?_
    have : b = 0 := by simpa using none_open
    omega
  | stacked frames =>
    have hopen : Pending.openDefinite n ⟨0, 0, frames⟩ = ⟨0, 0, some n :: frames⟩ := rfl
    rw [hopen]
    refine ⟨?_, tidy_count (.stacked _)⟩
    rw [levels_count_stacked, frameLevels, frameLevels_eq]
    exact levels.replace (by omega) (by omega)

/-- An indefinite container opens a level of its own. -/
theorem openIndefinite (h : Counts p items outer) :
    Counts p.openIndefinite.count 0 ((items - 1) :: outer) := by
  obtain ⟨levels, tidy⟩ := h
  have le := levels.le
  cases tidy with
  | @counting i b hp =>
    rw [levels_counts] at levels le
    -- As long as nothing else waits around the container, one more break is enough to count.
    by_cases few : i < 2
    · have hopen : Pending.openIndefinite ⟨i, b, []⟩ = ⟨i, b + 1, []⟩ := by
        rw [Pending.openIndefinite, usesFrames_counts [] hp]
        simp [few]
      rw [hopen, count_counts]
      refine ⟨?_, tidy_counts _ _⟩
      rw [levels_counts, List.replicate_succ]
      refine .inside (by omega) (levels.replace (by omega) fun eq none_open => ?_)
      have : b = 0 := by simpa using none_open
      omega
    · have hopen : Pending.openIndefinite ⟨i, b, []⟩ =
          ⟨0, 0, none :: some (i - 1) :: List.replicate b none⟩ := by
        rw [Pending.openIndefinite, usesFrames_counts [] hp]
        simp [few]
      rw [hopen]
      refine ⟨?_, tidy_count (.stacked _)⟩
      rw [levels_count_stacked]
      simp only [frameLevels, frameLevels_replicate, Nat.zero_add]
      exact .inside (Nat.le_refl 0) (levels.replace (by omega) (by omega))
  | stacked frames =>
    have hopen : Pending.openIndefinite ⟨0, 0, frames⟩ = ⟨0, 0, none :: frames⟩ := rfl
    rw [hopen]
    refine ⟨?_, tidy_count (.stacked _)⟩
    rw [levels_count_stacked, frameLevels, frameLevels_eq]
    exact .inside (Nat.le_refl 0) (levels.replace (by omega) (by omega))

/-- A break closes the innermost level, of which nothing is left. -/
theorem close (h : Counts p 0 (items :: outer)) : Counts p.close.count items outer := by
  obtain ⟨levels, tidy⟩ := h
  cases tidy with
  | @counting i b hp =>
    have hclose : Pending.close ⟨i, b, []⟩ = ⟨i, b - 1, []⟩ := by
      rw [Pending.close, usesFrames_counts [] hp]
      rfl
    rw [hclose, count_counts]
    refine ⟨?_, tidy_counts _ _⟩
    rw [levels_counts] at levels ⊢
    have le : i ≤ 0 := levels.le
    cases b with
    | zero => cases levels
    | succ b =>
      cases levels with
      | inside _ inner =>
        rw [Nat.le_zero.1 le]
        exact inner
  | stacked frames =>
    match frames with
    | [] => cases levels
    | some n :: frames => exact absurd levels.le (Nat.not_succ_le_zero _)
    | none :: frames =>
      have hclose : Pending.close ⟨0, 0, none :: frames⟩ = ⟨0, 0, frames⟩ := rfl
      rw [hclose]
      refine ⟨?_, tidy_count (.stacked _)⟩
      rw [levels_count_stacked]
      cases levels with
      | inside _ inner => exact inner

end Counts

/-! ## One head -/

namespace Reads

variable {p : Pending} {n : Nat} {bytes : Bytes}

theorem skipStep_number {kind : Major} (hkind : kind = .unsigned ∨ kind = .negative)
    (h : Head kind n bytes) : Reads (skipStep p) bytes p.count := by
  obtain ⟨first, tail, rfl, rfl, hinfo, harg⟩ := h.split
  refine .byte_bind ?_
  rcases hkind with hkind | hkind <;>
    (simp only [hkind, if_pos hinfo]; exact harg.bind_ok fun _ => rfl)

theorem skipStep_tag (h : Head .tag n bytes) : Reads (skipStep p) bytes p := by
  obtain ⟨first, tail, rfl, hkind, hinfo, harg⟩ := h.split
  refine .byte_bind ?_
  simp only [hkind]
  exact harg.bind_ok fun _ => rfl

theorem skipStep_array (h : Head .array n bytes) :
    Reads (skipStep p) bytes (p.openDefinite n).count := by
  obtain ⟨first, tail, rfl, hkind, hinfo, harg⟩ := h.split
  refine .byte_bind ?_
  simp only [hkind]
  rw [if_neg (by omega)]
  exact harg.bind_ok fun _ => rfl

theorem skipStep_map (h : Head .map n bytes) :
    Reads (skipStep p) bytes (p.openDefinite (2 * n)).count := by
  obtain ⟨first, tail, rfl, hkind, hinfo, harg⟩ := h.split
  refine .byte_bind ?_
  simp only [hkind]
  rw [if_neg (by omega)]
  exact harg.bind_ok fun _ => rfl

theorem skipStep_indefinite {kind : Major} (h : kind = .array ∨ kind = .map) :
    Reads (skipStep p) [firstOctet kind 31] p.openIndefinite.count := by
  refine .byte_bind ?_
  rcases h with rfl | rfl <;>
    exact .pure _

theorem skipStep_break : Reads (skipStep p) [breakHead] p.close.count := fun _ => rfl

theorem skipStep_simple {octets : Bytes} (hn : n < 28)
    (h : ∃ a, Reads (Reader.argument n) octets a) :
    Reads (skipStep p) (firstOctet .simple n :: octets) p.count := by
  have hinfo := info_firstOctet .simple (show n < 32 by omega)
  obtain ⟨a, h⟩ := h
  refine .byte_bind ?_
  simp only [ofHead_firstOctet .simple (show n < 32 by omega)]
  rw [if_neg, hinfo]
  · exact h.bind_ok fun _ => rfl
  · intro eq
    rw [eq] at hinfo
    have : info breakHead = 31 := rfl
    omega

/-! ### Strings -/

/-- A definite string of which the content passes the check. -/
def PassesCheck (kind : Major) (check : Bytes → Reader Unit) (bytes : Bytes) : Prop :=
  ∃ content, DefiniteString kind content bytes ∧ Reads (check content) [] ()

theorem skipString_definite {kind : Major} {check : Bytes → Reader Unit}
    (h : PassesCheck kind check bytes) :
    ∃ first tail, bytes = first :: tail ∧ Major.ofHead first = kind ∧
      Reads (skipString kind check first) tail () := by
  obtain ⟨content, ⟨h⟩, ok⟩ := h
  obtain ⟨first, tail, rfl, hkind, hinfo, harg⟩ := h.split
  refine ⟨first, tail ++ content, rfl, hkind, ?_⟩
  rw [skipString, if_neg (by omega)]
  exact harg.bind ((take content).bind_ok ok)

theorem skipString_indefinite {kind : Major} {check : Bytes → Reader Unit} {chunks : List Bytes}
    (h : ∀ chunk ∈ chunks, PassesCheck kind check chunk) :
    Reads (skipString kind check (firstOctet kind 31)) (chunks.flatten ++ [breakHead]) () := by
  have starts : ∀ chunk ∈ chunks, Starts chunk := by
    intro chunk mem
    obtain ⟨content, hchunk, -⟩ := h chunk mem
    exact hchunk.starts
  have steps : Steps (fun _ => do check (← Reader.definiteString kind)) () chunks () := by
    clear starts
    induction chunks with
    | nil => exact .nil ()
    | cons chunk chunks ih =>
      obtain ⟨content, hchunk, ok⟩ := h chunk List.mem_cons_self
      exact .cons ((definiteString hchunk).bind_ok ok) (ih fun c mem => h c (List.mem_cons_of_mem _ mem))
  rw [skipString, if_pos (info_firstOctet kind (by decide))]
  exact steps.reads_untilBreak .pure starts

theorem passesCheck_byteString (h : IsByteString bytes) :
    PassesCheck .bytes (fun _ => return ()) bytes := by
  obtain ⟨content, h⟩ := h
  exact ⟨content, h, .pure ()⟩

theorem passesCheck_text (h : IsText bytes) :
    PassesCheck .text (fun bytes => do let _ ← Reader.utf8 bytes) bytes := by
  obtain ⟨s, h⟩ := h
  exact ⟨_, h, (utf8 s).bind_ok fun _ => rfl⟩

theorem skipStep_byteString {first : UInt8} {tail : Bytes} (hkind : Major.ofHead first = .bytes)
    (h : Reads (skipString .bytes (fun _ => return ()) first) tail ()) :
    Reads (skipStep p) (first :: tail) p.count := by
  refine .byte_bind ?_
  simp only [hkind]
  exact h.bind_ok fun _ => rfl

theorem skipStep_text {first : UInt8} {tail : Bytes} (hkind : Major.ofHead first = .text)
    (h : Reads (skipString .text (fun bytes => do let _ ← Reader.utf8 bytes) first) tail ()) :
    Reads (skipStep p) (first :: tail) p.count := by
  refine .byte_bind ?_
  simp only [hkind]
  exact h.bind_ok fun _ => rfl

end Reads

/-! ## Whole items -/

/-- From `p` on, the octets are taken off the front of any others, and `q` remains to be passed. Fuel for
what follows is left. -/
def Passes (p : Pending) (bytes : Bytes) (q : Pending) : Prop :=
  ∀ rest fuel, (bytes ++ rest).length < fuel → ∃ left, rest.length < left ∧
    skipPending fuel p (bytes ++ rest) = skipPending left q rest

namespace Passes

variable {p q r : Pending} {front back bytes : Bytes}

theorem refl (p : Pending) : Passes p [] p := fun _ fuel enough => ⟨fuel, enough, rfl⟩

theorem trans (h : Passes p front q) (h' : Passes q back r) : Passes p (front ++ back) r := by
  intro rest fuel enough
  rw [List.append_assoc] at enough ⊢
  obtain ⟨left, henough, hfront⟩ := h (back ++ rest) fuel enough
  obtain ⟨left', henough', hback⟩ := h' rest left henough
  exact ⟨left', henough', hfront.trans hback⟩

/-- One head takes one unit of fuel, and one octet at least. -/
theorem step (live : p.isDone = false) (h : Reads (skipStep p) bytes q) (nonempty : bytes ≠ []) :
    Passes p bytes q := by
  intro rest fuel enough
  have positive := List.length_pos_iff.2 nonempty
  rw [List.length_append] at enough
  cases fuel with
  | zero => omega
  | succ fuel =>
    refine ⟨fuel, by omega, ?_⟩
    have hrun : skipPending (fuel + 1) p (bytes ++ rest) =
        (if p.isDone then (.ok ((), bytes ++ rest))
        else (skipStep p (bytes ++ rest)).bind fun s => skipPending fuel s.1 s.2) := by
      rw [skipPending]
      split <;> rfl
    rw [hrun, live, h]
    rfl

end Passes

/-- Wherever something is pending, the octets are passed as one item. -/
def PassesAsItem (bytes : Bytes) : Prop :=
  ∀ p items outer, Counts p items outer → 0 < items ∨ outer ≠ [] →
    ∃ q, Counts q (items - 1) outer ∧ Passes p bytes q

/-- A head that stands for an item of its own. -/
theorem PassesAsItem.of_step {bytes : Bytes} (h : ∀ p, Reads (skipStep p) bytes p.count)
    (nonempty : bytes ≠ []) : PassesAsItem bytes := fun p _ _ counts live =>
  ⟨p.count, counts.count, .step (counts.not_isDone live) (h p) nonempty⟩

section

variable {parts : List Bytes} {p : Pending} {n : Nat} {outer : List Nat}

/-- The items of a definite container are passed, and what was pending behind them is left. -/
theorem Counts.pass_definite (counts : Counts p (n + parts.length) outer)
    (h : ∀ part ∈ parts, PassesAsItem part) :
    ∃ q, Counts q n outer ∧ Passes p parts.flatten q := by
  induction parts generalizing p with
  | nil => exact ⟨p, counts, .refl p⟩
  | cons part parts ih =>
    have some_left : 0 < n + (part :: parts).length := by
      rw [List.length_cons]
      omega
    obtain ⟨q, hq, hpart⟩ := h part List.mem_cons_self p _ outer counts (.inl some_left)
    obtain ⟨r, hr, hparts⟩ := ih hq fun e mem => h e (List.mem_cons_of_mem _ mem)
    exact ⟨r, hr, hpart.trans hparts⟩

/-- The items of an indefinite container are passed, however many, and its break is left. -/
theorem Counts.pass_indefinite (counts : Counts p 0 (n :: outer))
    (h : ∀ part ∈ parts, PassesAsItem part) :
    ∃ q, Counts q 0 (n :: outer) ∧ Passes p parts.flatten q := by
  induction parts generalizing p with
  | nil => exact ⟨p, counts, .refl p⟩
  | cons part parts ih =>
    obtain ⟨q, hq, hpart⟩ := h part List.mem_cons_self p 0 (n :: outer) counts (.inr (by simp))
    obtain ⟨r, hr, hparts⟩ := ih hq fun e mem => h e (List.mem_cons_of_mem _ mem)
    exact ⟨r, hr, hpart.trans hparts⟩

/-- A container is passed as one item if its items are. For each entry that its head announces there are
`count` of them. -/
theorem Container.passesAsItem {kind : Major} {entries : List Bytes} {bytes : Bytes}
    (container : Container kind entries bytes) (hkind : kind = .array ∨ kind = .map) (count : Nat)
    (opens : ∀ head m p, Head kind m head → Reads (skipStep p) head (p.openDefinite (count * m)).count)
    (flat : parts.flatten = entries.flatten) (length : parts.length = count * entries.length)
    (h : ∀ part ∈ parts, PassesAsItem part) : PassesAsItem bytes := by
  intro p items outer counts live
  cases container with
  | @definite head hhead =>
    have hopen := opens head _ p hhead
    rw [← length] at hopen
    obtain ⟨q, hq, hparts⟩ := (counts.openDefinite parts.length).pass_definite h
    obtain ⟨first, tail, rfl, -⟩ := hhead.split
    rw [← flat]
    exact ⟨q, hq, (Passes.step (counts.not_isDone live) hopen (by simp)).trans hparts⟩
  | indefinite =>
    obtain ⟨q, hq, hparts⟩ := counts.openIndefinite.pass_indefinite h
    have hopen : Passes p [firstOctet kind 31] p.openIndefinite.count :=
      .step (counts.not_isDone live) (.skipStep_indefinite hkind) (by simp)
    -- Its items leave the level empty, so the break closes it and counts the container.
    have hclose : Passes q [breakHead] q.close.count :=
      .step (hq.not_isDone (.inr (by simp))) .skipStep_break (by simp)
    refine ⟨q.close.count, hq.close, ?_⟩
    rw [Cbor.indefinite, ← flat]
    exact hopen.trans (hparts.trans hclose)

end

/-! A map passes for an array of its keys and values. -/

theorem flatten_entries (entries : List (Bytes × Bytes)) :
    (entries.flatMap fun e => [e.1, e.2]).flatten = (entries.map fun e => e.1 ++ e.2).flatten := by
  induction entries with
  | nil => rfl
  | cons e entries ih => simp [ih]

theorem length_entries (entries : List (Bytes × Bytes)) :
    (entries.flatMap fun e => [e.1, e.2]).length =
      2 * (entries.map fun e => e.1 ++ e.2).length := by
  induction entries with
  | nil => rfl
  | cons e entries ih =>
    simp only [List.flatMap_cons, List.length_append, ih, List.map_cons, List.length_cons,
      List.length_nil]
    omega

theorem WellFormed.passes {bytes : Bytes} (h : WellFormed bytes) : PassesAsItem bytes := by
  induction h with
  | unsigned h =>
    obtain ⟨first, tail, rfl, -⟩ := h.split
    exact .of_step (fun p => .skipStep_number (.inl rfl) h) (by simp)
  | negative h =>
    obtain ⟨first, tail, rfl, -⟩ := h.split
    exact .of_step (fun p => .skipStep_number (.inr rfl) h) (by simp)
  | byteString h =>
    obtain ⟨first, tail, rfl, hkind, hstring⟩ :=
      Reads.skipString_definite (Reads.passesCheck_byteString h)
    exact .of_step (fun p => .skipStep_byteString hkind hstring) (by simp)
  | byteChunks h =>
    have hstring := Reads.skipString_indefinite fun c mem => Reads.passesCheck_byteString (h c mem)
    exact .of_step (fun p => .skipStep_byteString (ofHead_firstOctet .bytes (by decide)) hstring)
      (by simp [indefinite])
  | text h =>
    obtain ⟨first, tail, rfl, hkind, hstring⟩ :=
      Reads.skipString_definite (Reads.passesCheck_text h)
    exact .of_step (fun p => .skipStep_text hkind hstring) (by simp)
  | textChunks h =>
    have hstring := Reads.skipString_indefinite fun c mem => Reads.passesCheck_text (h c mem)
    exact .of_step (fun p => .skipStep_text (ofHead_firstOctet .text (by decide)) hstring)
      (by simp [indefinite])
  | array _ container ih =>
    refine container.passesAsItem (.inl rfl) 1 (fun head m p hhead => ?_) rfl (Nat.one_mul _).symm ih
    rw [Nat.one_mul]
    exact .skipStep_array hhead
  | @map entries bytes _ _ container hkeys hvalues =>
    refine container.passesAsItem (.inr rfl) 2 (fun head m p hhead => .skipStep_map hhead)
      (flatten_entries entries) (length_entries entries) fun part mem => ?_
    obtain ⟨e, he, hpart⟩ := List.mem_flatMap.1 mem
    rcases List.mem_pair.1 hpart with rfl | rfl
    · exact hkeys e he
    · exact hvalues e he
  | tag hhead _ ih =>
    intro p items outer counts live
    obtain ⟨q, hq, hitem⟩ := ih p items outer counts live
    obtain ⟨first, tail, rfl, -⟩ := hhead.split
    exact ⟨q, hq, (Passes.step (counts.not_isDone live) (.skipStep_tag hhead) (by simp)).trans hitem⟩
  | @simple n h =>
    refine .of_step (fun p => .skipStep_simple (by omega) ⟨n, fun rest => ?_⟩) (by simp)
    simp [argument, h]
  | simpleOctet =>
    have width : (24, 1) ∈ widths := by simp [widths]
    exact .of_step (fun p => .skipStep_simple (by decide) ⟨_, .argument width rfl⟩) (by simp)
  | float width length =>
    have hwidth := List.mem_cons_of_mem (24, 1) width
    exact .of_step (fun p => .skipStep_simple (lt_of_mem_widths hwidth) ⟨_, .argument hwidth length⟩)
      (by simp)

/-- An item of any kind is passed over as a whole, and nothing behind it. -/
theorem WellFormed.reads_skip {bytes : Bytes} (h : WellFormed bytes) : Reads skip bytes () := by
  intro rest
  obtain ⟨q, hq, hpasses⟩ := h.passes .one 1 [] .one (.inl (by decide))
  obtain ⟨left, -, hrun⟩ := hpasses rest _ (Nat.lt_succ_self _)
  have hskip : skip (bytes ++ rest) =
      skipPending ((bytes ++ rest).length + 1) .one (bytes ++ rest) := rfl
  rw [hskip, hrun]
  cases left <;> rw [skipPending, hq.isDone] <;> rfl

/-- Inside an indefinite array a definite one holds an indefinite one between other items. -/
example : skip [0x9f, 0x83, 0x01, 0x9f, 0xff, 0x02, 0xff, 0x05] = .ok ((), [0x05]) := by rfl

end ChainIndex.Cbor
