import ChainIndex.Proofs.Cbor.Tx

/-!
# Sizes of what is read

* `Cbor.Yields`: off fewer than 2^64 octets a reader takes at least some of them, and what it reads has a
  property. The laws of `Yields` follow the readers.
* `Yields.foldArray`, `Yields.foldMap`: a container takes an octet for each item of which a step takes one, so
  a list has no more items than there are octets (`Yields.list`).
* `Tx.storable_of_decode`: so a transaction that is read off fewer than 2^64 octets can be stored.
-/

namespace ChainIndex

/-- Octets are those of the text that they spell. -/
theorem Utf8.encode_of_decode? {bytes : Bytes} {text : String} (h : decode? bytes = some text) :
    encode text = bytes := by
  unfold decode? String.fromUTF8? at h
  split at h <;> cases h
  rfl

/-- Octets that are taken are no more than there were. -/
theorem Bytes.length_takeExact? {count : Nat} {bytes front rest : Bytes}
    (h : bytes.takeExact? count = some (front, rest)) :
    front.length ≤ bytes.length ∧ rest.length ≤ bytes.length := by
  simp only [takeExact?] at h
  split at h <;> cases h
  exact ⟨List.length_take_le' _ _, by simp⟩

namespace Cbor

open Reader

variable {α β σ : Type}

theorem Reader.bind_eq_ok {r : Reader α} {f : α → Reader β} {input rest : Bytes} {b : β} :
    (r >>= f) input = .ok (b, rest) ↔
      ∃ a middle, r input = .ok (a, middle) ∧ f a middle = .ok (b, rest) := by
  have split : (r >>= f) input = (r input).bind fun p => f p.1 p.2 := rfl
  rw [split]
  cases r input with
  | error e => simp [Except.bind]
  | ok p =>
    obtain ⟨a, middle⟩ := p
    constructor
    · exact fun h => ⟨a, middle, rfl, h⟩
    · rintro ⟨_, _, h, h'⟩
      cases h
      exact h'

/-- Off fewer than 2^64 octets the reader takes at least `least`, and what it reads has the property. -/
def Yields (r : Reader α) (least : Nat) (P : α → Prop) : Prop :=
  ∀ input a rest, input.length < UInt64.size → r input = .ok (a, rest) →
    rest.length + least ≤ input.length ∧ P a

namespace Yields

variable {r : Reader α} {m n : Nat} {P : α → Prop} {Q : β → Prop}

theorem imp (h : Yields r n P) (fewer : m ≤ n) {P' : α → Prop} (weaker : ∀ a, P a → P' a) :
    Yields r m P' := by
  intro input a rest short run
  obtain ⟨taken, ha⟩ := h input a rest short run
  exact ⟨by omega, weaker a ha⟩

/-- How much it takes, and what it reads, does not matter. -/
theorem any (h : Yields r n P) : Yields r 0 fun _ => True := h.imp (Nat.zero_le n) fun _ _ => trivial

theorem pure {a : α} (ha : P a) : Yields (pure a) 0 P := by
  rintro input _ _ - ⟨⟩
  exact ⟨Nat.le_refl _, ha⟩

theorem fail (f : Bytes → Fault) : Yields (fun input => .error (f input)) n P := nofun

theorem throw (f : Fault) : Yields (throw f) n P := nofun

theorem bind {f : α → Reader β} (h : Yields r m P) (h' : ∀ a, P a → Yields (f a) n Q) :
    Yields (r >>= f) (m + n) Q := by
  intro input b rest short run
  obtain ⟨a, middle, first, second⟩ := bind_eq_ok.1 run
  obtain ⟨taken, ha⟩ := h input a middle short first
  obtain ⟨taken', hb⟩ := h' a ha middle b rest (by omega) second
  exact ⟨by omega, hb⟩

/-- A continuation of which it does not matter how much it takes. -/
theorem bind_any {f : α → Reader β} (h : Yields r m P) (h' : ∀ a, P a → Yields (f a) 0 Q) :
    Yields (r >>= f) m Q := h.bind h'

theorem get_bind {f : Bytes → Reader β} (h : ∀ input, Yields (f input) n Q) : Yields (get >>= f) n Q :=
  fun input => h input input

theorem map (h : Yields r n P) {f : α → β} (h' : ∀ a, P a → Q (f a)) : Yields (do return f (← r)) n Q :=
  h.bind_any fun a ha => .pure (h' a ha)

/-- What a field adds to a draft. -/
theorem met (h : Yields r n P) {f : α → β} (h' : ∀ a, P a → Q (f a)) : Yields (do return f (← r)) 0 Q :=
  (h.map h').imp (Nat.zero_le n) fun _ => id

/-! ## Single items -/

theorem byte : Yields byte 1 fun _ => True := by
  rintro (_ | ⟨b, input⟩) a rest - run <;> cases run
  exact ⟨Nat.le_refl _, trivial⟩

theorem peek : Yields peek 0 fun _ => True := by
  rintro (_ | ⟨b, input⟩) a rest - run <;> cases run
  exact ⟨Nat.le_refl _, trivial⟩

theorem checkNamed : Yields checkNamed 0 fun _ => True := by
  rintro (_ | ⟨head, _ | ⟨next, input⟩⟩) a rest - run
  · cases run
  · simp only [Reader.checkNamed] at run
    split at run <;> cases run
    exact ⟨Nat.le_refl _, trivial⟩
  · cases run
    exact ⟨Nat.le_refl _, trivial⟩

theorem take (count : Nat) : Yields (take count) 0 fun bytes => bytes.length < UInt64.size := by
  intro input a rest short run
  unfold Reader.take at run
  split at run <;> cases run
  rename_i taken
  obtain ⟨front, rest⟩ := Bytes.length_takeExact? taken
  exact ⟨rest, Nat.lt_of_le_of_lt front short⟩

theorem argument (bits : Nat) : Yields (argument bits) 0 fun _ => True := by
  intro input a rest _ run
  simp only [Reader.argument] at run
  -- in the low bits, or in 1, 2, 4 or 8 octets; or it is refused
  split at run
  · cases run
    exact ⟨Nat.le_refl _, trivial⟩
  · repeat' split at run
    all_goals cases run
    all_goals exact ⟨(Bytes.length_takeExact? ‹_›).2, trivial⟩

theorem mismatch (head : UInt8) (wanted : String) : Yields (mismatch head wanted) n P := by
  intro input a rest _ run
  unfold Reader.mismatch at run
  split at run <;> cases run

theorem unsignedOf (width : Nat) : Yields (unsignedOf width) 1 fun _ => True := by
  refine byte.bind_any fun head _ => ?_
  split
  · refine (argument _).bind_any fun k _ => ?_
    split
    · exact .pure trivial
    · exact .fail _
  · exact mismatch _ _

theorem uint8 : Yields uint8 1 fun _ => True := (unsignedOf 8).map fun _ _ => trivial

theorem uint32 : Yields uint32 1 fun _ => True := (unsignedOf 32).map fun _ _ => trivial

theorem uint64 : Yields uint64 1 fun _ => True := (unsignedOf 64).map fun _ _ => trivial

theorem bool : Yields bool 1 fun _ => True := by
  refine byte.bind_any fun head _ => ?_
  split
  · exact .pure trivial
  · split
    · exact .pure trivial
    · exact mismatch _ _

theorem definiteString (kind : Major) :
    Yields (definiteString kind) 1 fun bytes => bytes.length < UInt64.size := by
  refine byte.bind_any fun head _ => ?_
  split
  · exact (argument _).bind_any fun count _ => take count
  · exact mismatch _ _

theorem byteString : Yields byteString 1 fun bytes => bytes.length < UInt64.size := definiteString .bytes

theorem utf8 {bytes : Bytes} (short : bytes.length < UInt64.size) :
    Yields (utf8 bytes) 0 fun text => (Utf8.encode text).length < UInt64.size := by
  unfold Reader.utf8
  split
  · rename_i text decodes
    refine .pure ?_
    rwa [Utf8.encode_of_decode? decodes]
  · exact .throw _

theorem text : Yields text 1 fun text => (Utf8.encode text).length < UInt64.size :=
  (definiteString .text).bind_any fun _ short => utf8 short

theorem hash {size : Nat} : Yields (Hash.read : Reader (Hash size)) 1 fun _ => True := by
  refine byteString.bind_any fun bytes _ => ?_
  split
  · exact .pure trivial
  · exact .throw _

theorem containerHead (kind : Major) : Yields (containerHead kind) 1 fun _ => True := by
  refine byte.bind_any fun head _ => ?_
  split
  · split
    · exact .pure trivial
    · exact (argument _).map fun _ _ => trivial
  · exact mismatch _ _

theorem null : Yields null 0 fun _ => True := by
  refine checkNamed.bind_any fun _ _ => peek.bind_any fun head _ => ?_
  split
  · exact byte.any.bind_any fun _ _ => .pure trivial
  · exact .pure trivial

theorem optional (h : Yields r n P) : Yields (optional r) 0 fun a? => ∀ a, a? = some a → P a := by
  refine null.bind_any fun isNull _ => ?_
  split
  · exact .pure nofun
  · refine (h.imp (Nat.zero_le n) fun _ => id).map fun a ha => ?_
    rintro _ ⟨⟩
    exact ha

/-! ## Containers -/

section

variable {step : σ → Reader σ} {least : Nat} {size : σ → Nat} {Good : σ → Prop}

/-- A step makes the state larger by no more than the octets that it takes, and keeps it good. -/
def Grows (step : σ → Reader σ) (least : Nat) (size : σ → Nat) (Good : σ → Prop) : Prop :=
  ∀ s, Good s → Yields (step s) least fun s' => size s' ≤ size s + least ∧ Good s'

theorem foldCount (h : Grows step least size Good) (count : Nat) {s s' : σ} {input rest : Bytes}
    (short : input.length < UInt64.size) (good : Good s)
    (run : foldCount step count s input = .ok (s', rest)) :
    rest.length + size s' ≤ input.length + size s ∧ Good s' := by
  induction count generalizing s input with
  | zero => cases run; exact ⟨Nat.le_refl _, good⟩
  | succ count ih =>
    obtain ⟨s₁, middle, first, run⟩ := bind_eq_ok.1 run
    obtain ⟨taken, larger, good₁⟩ := h s good input s₁ middle short first
    obtain ⟨taken', good'⟩ := ih (by omega) good₁ run
    exact ⟨by omega, good'⟩

theorem foldUntilBreak (h : Grows step least size Good) {before : Reader Unit}
    (looks : Yields before 0 fun _ => True) (fuel : Nat) {s s' : σ} {input rest : Bytes}
    (short : input.length < UInt64.size) (good : Good s)
    (run : foldUntilBreak before step fuel s input = .ok (s', rest)) :
    rest.length + size s' ≤ input.length + size s ∧ Good s' := by
  induction fuel generalizing s input with
  | zero => cases run
  | succ fuel ih =>
    obtain ⟨⟨⟩, here, looked, run⟩ := bind_eq_ok.1 run
    obtain ⟨kept, -⟩ := looks input () here short looked
    obtain ⟨head, seen, peeked, run⟩ := bind_eq_ok.1 run
    obtain ⟨kept', -⟩ := peek here head seen (by omega) peeked
    split at run
    · have ended : Yields (do let _ ← Reader.byte; return s) 0 (· = s) :=
        byte.any.bind_any fun _ _ => .pure rfl
      obtain ⟨taken, rfl⟩ := ended seen s' rest (by omega) run
      exact ⟨by omega, good⟩
    · obtain ⟨s₁, middle, first, run⟩ := bind_eq_ok.1 run
      obtain ⟨taken, larger, good₁⟩ := h s good seen s₁ middle (by omega) first
      obtain ⟨taken', good'⟩ := ih (by omega) good₁ run
      exact ⟨by omega, good'⟩

/-- A fold over what a head announces, or else up to the break. -/
theorem fold (h : Grows step least size Good) {head : Reader (Option Nat)}
    (announces : Yields head 1 fun _ => True) {before : Reader Unit}
    (looks : Yields before 0 fun _ => True) {s : σ} (empty : size s = 0) (good : Good s) :
    Yields (do
      match ← head with
      | some n => Reader.foldCount step n s
      | none => Reader.foldUntilBreak before step ((← get).length + 1) s)
      1 fun s' => size s' < UInt64.size ∧ Good s' := by
  intro input s' rest short run
  obtain ⟨count?, middle, announced, run⟩ := bind_eq_ok.1 run
  obtain ⟨taken, -⟩ := announces input count? middle short announced
  obtain ⟨taken', good'⟩ : rest.length + size s' ≤ middle.length + size s ∧ Good s' := by
    cases count? with
    | some n => exact foldCount h n (by omega) good run
    | none => exact foldUntilBreak h looks (middle.length + 1) (by omega) good run
  exact ⟨by omega, by omega, good'⟩

theorem foldArray (h : Grows step least size Good) {s : σ} (empty : size s = 0) (good : Good s) :
    Yields (foldArray step s) 1 fun s' => size s' < UInt64.size ∧ Good s' :=
  fold h (containerHead .array) (.pure trivial) empty good

theorem foldMap (h : Grows step least size Good) {s : σ} (empty : size s = 0) (good : Good s) :
    Yields (foldMap step s) 1 fun s' => size s' < UInt64.size ∧ Good s' :=
  fold h (containerHead .map) checkNamed empty good

end

/-- Each item takes an octet, so there are no more of them than octets. -/
theorem list (h : Yields r 1 P) :
    Yields (list r) 1 fun items => items.length < UInt64.size ∧ ∀ a ∈ items, P a := by
  have grows : Grows (fun items : List α => return (← r) :: items) 1 List.length
      fun items => ∀ a ∈ items, P a := fun items good =>
    h.map fun a ha => ⟨Nat.le_refl _, List.forall_mem_cons.2 ⟨ha, good⟩⟩
  refine (foldArray grows rfl (List.forall_mem_nil P)).map fun items ⟨fewer, good⟩ => ?_
  exact ⟨by rwa [List.length_reverse], fun a ha => good a (List.mem_reverse.1 ha)⟩

/-! ## Skipped items -/

theorem chunks {kind : Major} {check : Bytes → Reader Unit}
    (checks : ∀ bytes, bytes.length < UInt64.size → Yields (check bytes) 0 fun _ => True) :
    Yields (chunks kind check) 0 fun _ => True := by
  intro input _ rest short run
  have grows : Grows (fun _ => do check (← Reader.definiteString kind)) 1 (fun _ : Unit => 0)
      fun _ => True := fun _ _ =>
    ((definiteString kind).bind_any checks).imp (Nat.le_refl _) fun _ _ => ⟨Nat.zero_le _, trivial⟩
  obtain ⟨taken, -⟩ := foldUntilBreak grows (.pure trivial) (input.length + 1) short trivial run
  exact ⟨taken, trivial⟩

theorem skipString {kind : Major} {check : Bytes → Reader Unit} {head : UInt8}
    (checks : ∀ bytes, bytes.length < UInt64.size → Yields (check bytes) 0 fun _ => True) :
    Yields (skipString kind check head) 0 fun _ => True := by
  unfold Reader.skipString
  split
  · exact chunks checks
  · exact (argument _).bind_any fun count _ => (take count).bind_any checks

theorem skipStep (p : Pending) : Yields (skipStep p) 1 fun _ => True := by
  have passed (bits : Nat) {q : Nat → Pending} :
      Yields (do return q (← Reader.argument bits)) 0 fun _ => True :=
    (argument bits).map fun _ _ => trivial
  refine byte.bind_any fun head _ => ?_
  generalize Major.ofHead head = kind
  cases kind with
  | unsigned | negative =>
    dsimp only
    split
    · exact passed _
    · exact (mismatch (P := fun _ => True) _ _).bind_any fun _ _ => .pure trivial
  | bytes => exact (skipString fun _ _ => .pure trivial).bind_any fun _ _ => .pure trivial
  | text =>
    refine (skipString fun _ short => ?_).bind_any fun _ _ => .pure trivial
    exact (utf8 short).map fun _ _ => trivial
  | array | map | simple =>
    dsimp only
    split
    · exact .pure trivial
    · exact passed _
  | tag => exact passed _

theorem skipPending (fuel : Nat) (p : Pending) : Yields (skipPending fuel p) 0 fun _ => True := by
  induction fuel generalizing p with
  | zero =>
    unfold Reader.skipPending
    split
    · exact .pure trivial
    · exact .throw _
  | succ fuel ih =>
    unfold Reader.skipPending
    split
    · exact .pure trivial
    · exact (skipStep p).any.bind_any fun q _ => ih q

theorem skip : Yields skip 0 fun _ => True := .get_bind fun _ => skipPending _ _

/-! ## Records -/

theorem ignore {draft : σ} {Good : σ → Prop} (good : Good draft) : Yields (ignore draft) 0 Good :=
  skip.bind_any fun _ _ => .pure good

/-- A record whose draft every field keeps good. -/
theorem record {field : σ → UInt32 → Reader σ} {empty : σ} {Good : σ → Prop} (good : Good empty)
    (h : ∀ d key, Good d → Yields (field d key) 0 Good) : Yields (record field empty) 1 Good := by
  have grows : Grows (fun d => do field d (← Reader.uint32)) 0 (fun _ => 0) Good := fun d good =>
    uint32.any.bind_any fun key _ => (h d key good).imp (Nat.le_refl _) fun _ good => ⟨Nat.le_refl _, good⟩
  exact (foldMap grows rfl good).imp (Nat.le_refl _) fun _ h => h.2

theorem require {start : Bytes} {index : Nat} {name : String} {a? : Option α}
    (h : ∀ a, a? = some a → P a) : Yields (require start index name a?) 0 P := by
  cases a? with
  | none => exact .throw _
  | some a => exact .pure (h a rfl)

theorem require_any {start : Bytes} {index : Nat} {name : String} {a? : Option α} :
    Yields (Reader.require start index name a?) 0 fun _ => True := .require fun _ _ => trivial

end Yields

end Cbor

open Cbor Cbor.Reader

/-! ## What can be stored

A draft can be stored when the fields that it has met can. -/

namespace TokenAmount

/-- The names met so far have lengths below 2^64. -/
structure Draft.Storable (d : Draft) : Prop where
  policyId : ∀ octets, d.policyId = some octets → octets.length < UInt64.size
  assetName : ∀ octets, d.assetName = some octets → octets.length < UInt64.size

theorem Draft.Storable.readField {d : Draft} (h : d.Storable) (key : UInt32) :
    Yields (d.readField key) 0 Storable := by
  unfold Draft.readField
  split
  · exact Yields.byteString.met fun _ short => { h with policyId := by rintro _ ⟨⟩; exact short }
  · exact Yields.byteString.met fun _ short => { h with assetName := by rintro _ ⟨⟩; exact short }
  · exact Yields.uint64.met fun _ _ => { h with }
  · exact .ignore h

theorem storable_read : Yields TokenAmount.read 1 Storable := by
  have drafted : Yields (record Draft.readField {}) 1 Draft.Storable :=
    .record ⟨nofun, nofun⟩ fun _ key h => h.readField key
  refine .get_bind fun start => drafted.bind_any fun d h => ?_
  refine (Yields.require h.policyId).bind_any fun policyId shortPolicyId => ?_
  refine (Yields.require h.assetName).bind_any fun assetName shortAssetName => ?_
  refine Yields.require_any.bind_any fun amount _ => ?_
  exact .pure ⟨shortPolicyId, shortAssetName⟩

end TokenAmount

theorem OutputRef.yields_read : Yields OutputRef.read 1 fun _ => True := by
  have drafted : Yields (record Draft.readField {}) 1 fun _ => True := by
    refine .record trivial fun d key _ => ?_
    unfold Draft.readField
    split
    · exact Yields.hash.met fun _ _ => trivial
    · exact Yields.uint32.met fun _ _ => trivial
    · exact .ignore trivial
  refine .get_bind fun start => drafted.bind_any fun d _ => ?_
  refine Yields.require_any.bind_any fun hash _ => ?_
  refine Yields.require_any.bind_any fun index _ => ?_
  exact .pure trivial

namespace TxOutput

/-- The strings and lists met so far have lengths below 2^64. -/
structure Draft.Storable (d : Draft) : Prop where
  address : ∀ address, d.address = some address → (Utf8.encode address).length < UInt64.size
  tokens : ∀ tokens, d.tokens = some tokens →
    tokens.length < UInt64.size ∧ ∀ t ∈ tokens, t.Storable
  datum : ∀ datum, d.datum = some datum → datum.length < UInt64.size

theorem Draft.Storable.readField {d : Draft} (h : d.Storable) (key : UInt32) :
    Yields (d.readField key) 0 Storable := by
  unfold Draft.readField
  split
  · exact Yields.uint64.met fun _ _ => { h with }
  · exact Yields.text.met fun _ short => { h with address := by rintro _ ⟨⟩; exact short }
  · exact Yields.uint64.met fun _ _ => { h with }
  · exact (Yields.list TokenAmount.storable_read).met fun _ storable =>
      { h with tokens := by rintro _ ⟨⟩; exact storable }
  · exact Yields.byteString.optional.met fun _ short => { h with datum := short }
  · exact Yields.hash.optional.met fun _ _ => { h with }
  · exact Yields.bool.met fun _ _ => { h with }
  · exact .ignore h

theorem storable_read : Yields TxOutput.read 1 Storable := by
  have drafted : Yields (record Draft.readField {}) 1 Draft.Storable :=
    .record ⟨nofun, nofun, nofun⟩ fun _ key h => h.readField key
  refine .get_bind fun start => drafted.bind_any fun d h => ?_
  refine Yields.require_any.bind_any fun slot _ => ?_
  refine (Yields.require h.address).bind_any fun address shortAddress => ?_
  refine Yields.require_any.bind_any fun amount _ => ?_
  refine (Yields.require h.tokens).bind_any fun tokens ⟨fewTokens, storableTokens⟩ => ?_
  refine Yields.require_any.bind_any fun isUsed _ => ?_
  exact .pure ⟨shortAddress, fewTokens, storableTokens, h.datum⟩

end TxOutput

namespace ReferencedOutput

theorem Draft.Storable.readField {d : Draft}
    (h : ∀ output, d.output = some output → output.Storable) (key : UInt32) :
    Yields (d.readField key) 0 fun d' => ∀ output, d'.output = some output → output.Storable := by
  unfold Draft.readField
  split
  · exact OutputRef.yields_read.met fun _ _ => h
  · exact TxOutput.storable_read.met fun _ storable => by rintro _ ⟨⟩; exact storable
  · exact .ignore h

theorem storable_read : Yields ReferencedOutput.read 1 fun o => o.output.Storable := by
  have drafted : Yields (record Draft.readField {}) 1
      fun d => ∀ output, d.output = some output → output.Storable :=
    .record nofun fun _ key h => Draft.Storable.readField h key
  refine .get_bind fun start => drafted.bind_any fun d h => ?_
  refine Yields.require_any.bind_any fun ref _ => ?_
  refine (Yields.require h).bind_any fun output storable => ?_
  exact .pure storable

end ReferencedOutput

namespace Tx

/-- The strings and lists met so far, and those of the outputs, have lengths below 2^64. -/
structure Draft.Storable (d : Draft) : Prop where
  metadata : ∀ metadata, d.metadata = some metadata → metadata.length < UInt64.size
  inputs : ∀ inputs, d.inputs = some inputs →
    inputs.length < UInt64.size ∧ ∀ o ∈ inputs, o.output.Storable
  outputs : ∀ outputs, d.outputs = some outputs →
    outputs.length < UInt64.size ∧ ∀ o ∈ outputs, o.Storable

theorem Draft.Storable.readField {d : Draft} (h : d.Storable) (key : UInt32) :
    Yields (d.readField key) 0 Storable := by
  unfold Draft.readField
  split
  · exact Yields.uint64.met fun _ _ => { h with }
  · exact Yields.hash.met fun _ _ => { h with }
  · exact Yields.uint32.met fun _ _ => { h with }
  · exact Yields.hash.met fun _ _ => { h with }
  · exact Yields.uint8.met fun _ _ => { h with }
  · exact Yields.byteString.optional.met fun _ short => { h with metadata := short }
  · exact Yields.uint64.met fun _ _ => { h with }
  · exact Yields.bool.met fun _ _ => { h with }
  · exact (Yields.list ReferencedOutput.storable_read).met fun _ storable =>
      { h with inputs := by rintro _ ⟨⟩; exact storable }
  · exact (Yields.list TxOutput.storable_read).met fun _ storable =>
      { h with outputs := by rintro _ ⟨⟩; exact storable }
  · exact Yields.uint32.met fun _ _ => { h with }
  · exact .ignore h

theorem storable_read : Yields Tx.read 1 Storable := by
  have drafted : Yields (record Draft.readField {}) 1 Draft.Storable :=
    .record ⟨nofun, nofun, nofun⟩ fun _ key h => h.readField key
  refine .get_bind fun start => drafted.bind_any fun d h => ?_
  refine Yields.require_any.bind_any fun blockSlot _ => ?_
  refine Yields.require_any.bind_any fun blockHash _ => ?_
  refine Yields.require_any.bind_any fun indexInBlock _ => ?_
  refine Yields.require_any.bind_any fun hash _ => ?_
  refine Yields.require_any.bind_any fun eraId _ => ?_
  refine Yields.require_any.bind_any fun fee _ => ?_
  refine Yields.require_any.bind_any fun isValid _ => ?_
  refine (Yields.require h.inputs).bind_any fun inputs ⟨fewInputs, storableInputs⟩ => ?_
  refine (Yields.require h.outputs).bind_any fun outputs ⟨fewOutputs, storableOutputs⟩ => ?_
  refine Yields.require_any.bind_any fun firstOutputIndex _ => ?_
  exact .pure ⟨h.metadata, fewInputs, storableInputs, fewOutputs, storableOutputs⟩

/-- What is decoded from fewer than 2^64 octets can be encoded again. -/
theorem storable_of_decode {bytes : Bytes} (short : bytes.length < UInt64.size) {tx : Tx}
    (decoded : Record.decode bytes = .ok tx) : tx.Storable := by
  simp only [Record.decode, runFront] at decoded
  split at decoded
  · cases decoded
    rename_i run
    exact (storable_read bytes tx _ short run).2
  · cases decoded

end Tx

end ChainIndex
