import ChainIndex.Cbor.Record
import ChainIndex.Proofs.Cbor.Form

/-!
# Reading the forms of an item

* `Cbor.Reads`: a reader takes certain octets off the front of any octets, as a certain value. The laws of
  `Reads` follow the readers: one for each kind of item, in each of its forms, and for lists.
* `Steps`: the repeated step of a container takes one entry after the other. A container of them is read
  alike whether it announces their number (`Steps.foldCount`) or ends with a break
  (`Steps.foldUntilBreak`).
* `Cbor.Record.decode_of_reads`: so a record is read off the front of octets, whatever follows.
-/

namespace ChainIndex.Cbor

open Reader

variable {α β σ : Type}

/-- The reader takes `bytes` off the front of any octets, as `a`. -/
def Reads (r : Reader α) (bytes : Bytes) (a : α) : Prop :=
  ∀ rest, r (bytes ++ rest) = .ok (a, rest)

namespace Reads

theorem pure (a : α) : Reads (pure a) [] a := fun _ => rfl

theorem bind {r : Reader α} {f : α → Reader β} {front back : Bytes} {a : α} {b : β}
    (h : Reads r front a) (h' : Reads (f a) back b) : Reads (r >>= f) (front ++ back) b := by
  intro rest
  have hb : (r >>= f) (front ++ back ++ rest) =
      (r (front ++ back ++ rest)).bind fun p => f p.1 p.2 := rfl
  rw [hb, List.append_assoc, h]
  exact h' rest

/-- A continuation that takes no further octets. -/
theorem bind_ok {r : Reader α} {f : α → Reader β} {bytes : Bytes} {a : α} {b : β}
    (h : Reads r bytes a) (h' : ∀ rest, f a rest = .ok (b, rest)) : Reads (r >>= f) bytes b := by
  have hb : Reads (r >>= f) (bytes ++ []) b := h.bind h'
  rwa [List.append_nil] at hb

theorem map {r : Reader α} {bytes : Bytes} {a : α} (h : Reads r bytes a) (f : α → β) :
    Reads (do return f (← r)) bytes (f a) := h.bind_ok fun _ => rfl

theorem byte_bind {f : UInt8 → Reader β} {first : UInt8} {tail : Bytes} {b : β}
    (h : Reads (f first) tail b) : Reads (byte >>= f) (first :: tail) b := h

theorem get_bind {f : Bytes → Reader β} {bytes : Bytes} {b : β}
    (h : ∀ input, Reads (f input) bytes b) : Reads (get >>= f) bytes b :=
  fun rest => h (bytes ++ rest) rest

theorem take (bytes : Bytes) : Reads (take bytes.length) bytes bytes := by
  intro rest
  simp [Reader.take, Bytes.takeExact?_append]

/-- The number behind a first octet is read from as many octets as spell it. -/
theorem argument {bits size : Nat} {octets : Bytes} (width : (bits, size) ∈ widths)
    (length : octets.length = size) : Reads (argument bits) octets (ofBigEndian octets) := by
  intro rest
  have htake := Bytes.takeExact?_append rest length
  simp only [widths, List.mem_cons, Prod.mk.injEq, List.not_mem_nil, or_false] at width
  rcases width with ⟨rfl, rfl⟩ | ⟨rfl, rfl⟩ | ⟨rfl, rfl⟩ | ⟨rfl, rfl⟩ <;>
    simp [Reader.argument, htake]

end Reads

/-! ## Heads -/

/-- A head is a first octet that tells kind and width, and a number of that width. -/
theorem Head.split {kind : Major} {n : Nat} {bytes : Bytes} (h : Head kind n bytes) :
    ∃ first tail, bytes = first :: tail ∧ Major.ofHead first = kind ∧ info first < 28 ∧
      Reads (argument (info first)) tail n := by
  cases h with
  | short small =>
    have hinfo := info_firstOctet kind (show n < 32 by omega)
    refine ⟨_, _, rfl, ofHead_firstOctet kind (by omega), by omega, fun rest => ?_⟩
    rw [hinfo]
    simp [argument, small]
  | long width length value =>
    have narrow := lt_of_mem_widths width
    have hinfo := info_firstOctet kind (Nat.lt_trans narrow (by decide))
    refine ⟨_, _, rfl, ofHead_firstOctet kind (by omega), by omega, ?_⟩
    rw [hinfo, ← value]
    exact .argument width length

/-- The octets begin with something other than a break. -/
def Starts (bytes : Bytes) : Prop := ∃ first tail, bytes = first :: tail ∧ first ≠ breakHead

theorem Starts.append {bytes : Bytes} (h : Starts bytes) (rest : Bytes) : Starts (bytes ++ rest) := by
  obtain ⟨first, tail, rfl, ne⟩ := h
  exact ⟨first, tail ++ rest, rfl, ne⟩

theorem Head.starts {kind : Major} {n : Nat} {bytes : Bytes} (h : Head kind n bytes) :
    Starts bytes := by
  obtain ⟨first, tail, rfl, -, hinfo, -⟩ := h.split
  refine ⟨first, tail, rfl, ?_⟩
  rintro rfl
  exact absurd hinfo (by decide)

theorem DefiniteString.starts {kind : Major} {content bytes : Bytes}
    (h : DefiniteString kind content bytes) : Starts bytes := by
  obtain ⟨h⟩ := h
  exact h.starts.append content

theorem Container.starts {kind : Major} {entries : List Bytes} {bytes : Bytes}
    (h : Container kind entries bytes) (ne : kind ≠ .simple) : Starts bytes := by
  cases h with
  | definite h => exact h.starts.append _
  | indefinite =>
    refine ⟨_, _, rfl, fun eq => ne ?_⟩
    rw [← ofHead_firstOctet kind (show 31 < 32 by decide), eq]
    rfl

theorem RecordForm.starts {fields : Fields} {bytes : Bytes} (h : RecordForm fields bytes) :
    Starts bytes := by
  obtain ⟨-, -, -, -, container⟩ := h
  exact container.starts (by decide)

theorem EntryForm.starts {entry : Nat × Bytes} {bytes : Bytes} (h : EntryForm entry bytes) :
    Starts bytes := by
  obtain ⟨key, hkey, rfl⟩ := h
  exact hkey.starts.append _

/-! ## Single items -/

namespace Reads

theorem unsignedOf {width n : Nat} {bytes : Bytes} (h : Head .unsigned n bytes)
    (fits : n < Nat.pow 2 width) : Reads (unsignedOf width) bytes n := by
  obtain ⟨first, tail, rfl, hkind, hinfo, harg⟩ := h.split
  refine .byte_bind ?_
  rw [if_pos ⟨hkind, hinfo⟩]
  refine harg.bind_ok fun rest => ?_
  rw [if_pos fits]
  rfl

theorem uint8 {n : UInt8} {bytes : Bytes} (h : Head .unsigned n.toNat bytes) :
    Reads uint8 bytes n := by
  have hn := (unsignedOf h n.toNat_lt).map UInt8.ofNat
  rwa [UInt8.ofNat_toNat] at hn

theorem uint32 {n : UInt32} {bytes : Bytes} (h : Head .unsigned n.toNat bytes) :
    Reads uint32 bytes n := by
  have hn := (unsignedOf h n.toNat_lt).map UInt32.ofNat
  rwa [UInt32.ofNat_toNat] at hn

theorem uint64 {n : UInt64} {bytes : Bytes} (h : Head .unsigned n.toNat bytes) :
    Reads uint64 bytes n := by
  have hn := (unsignedOf h n.toNat_lt).map UInt64.ofNat
  rwa [UInt64.ofNat_toNat] at hn

theorem bool (b : Bool) : Reads bool (Write.bool b) b := by
  cases b <;> exact fun rest => rfl

theorem definiteString {kind : Major} {content bytes : Bytes}
    (h : DefiniteString kind content bytes) : Reads (definiteString kind) bytes content := by
  obtain ⟨h⟩ := h
  obtain ⟨first, tail, rfl, hkind, hinfo, harg⟩ := h.split
  refine .byte_bind ?_
  rw [if_pos ⟨hkind, by omega⟩]
  exact harg.bind (take content)

theorem byteString {content bytes : Bytes} (h : DefiniteString .bytes content bytes) :
    Reads byteString bytes content := definiteString h

theorem utf8 (s : String) : Reads (utf8 (Utf8.encode s)) [] s := by
  rw [Reader.utf8, Utf8.decode?_encode]
  exact pure s

theorem text {s : String} {bytes : Bytes} (h : DefiniteString .text (Utf8.encode s) bytes) :
    Reads text bytes s := (definiteString h).bind_ok (utf8 s)

/-- In front of further octets, or at a break, the next item can be named. -/
theorem checkNamed_eq {first : UInt8} {rest : Bytes}
    (h : isLongNegative first = false ∨ rest ≠ []) :
    checkNamed (first :: rest) = .ok ((), first :: rest) := by
  cases rest with
  | nil => simp [checkNamed, h.resolve_right (absurd rfl)]
  | cons => rfl

theorem null_eq_false {first : UInt8} (rest : Bytes) (hnull : first ≠ 0xf6)
    (hneg : isLongNegative first = false) : null (first :: rest) = .ok (false, first :: rest) := by
  have hn : null (first :: rest) = (checkNamed (first :: rest)).bind fun p => (do
      if (← peek) = 0xf6 then
        let _ ← byte
        return true
      else return false : Reader Bool) p.2 := rfl
  rw [hn, checkNamed_eq (.inl hneg)]
  change (if first = 0xf6 then _ else _ : Reader Bool) (first :: rest) = _
  rw [if_neg hnull]
  rfl

theorem not_isLongNegative {first : UInt8} (h : Major.ofHead first ≠ .negative) :
    isLongNegative first = false := by
  cases hneg : isLongNegative first with
  | false => rfl
  | true =>
    simp only [isLongNegative, Bool.and_eq_true, decide_eq_true_eq, UInt8.le_iff_toNat_le] at hneg
    have h38 : (0x38 : UInt8).toNat = 56 := rfl
    have h3b : (0x3b : UInt8).toNat = 59 := rfl
    have hdiv : first.toNat / 32 = 1 := by omega
    rw [Major.ofHead, hdiv] at h
    exact absurd rfl h

/-- A value that begins like a byte string is not taken for null. -/
theorem optional {value : Reader α} {content bytes : Bytes} {a : α}
    (form : DefiniteString .bytes content bytes) (h : Reads value bytes a) :
    Reads (optional value) bytes (some a) := by
  obtain ⟨hhead⟩ := form
  obtain ⟨first, tail, rfl, hkind, -, -⟩ := hhead.split
  have hnull : first ≠ 0xf6 := by rintro rfl; cases hkind
  have hneg : isLongNegative first = false := not_isLongNegative (by rw [hkind]; decide)
  intro rest
  have hv : Reader.optional value (first :: tail ++ content ++ rest) =
      (null (first :: (tail ++ content ++ rest))).bind fun p =>
        (if p.1 then Pure.pure none else do return some (← value) : Reader (Option α)) p.2 := rfl
  rw [hv, null_eq_false _ hnull hneg]
  exact h.map some rest

end Reads

/-! ## Containers -/

/-- The step takes the entries one after the other, from one state to another. -/
inductive Steps (step : σ → Reader σ) : σ → List Bytes → σ → Prop
  | nil (s : σ) : Steps step s [] s
  | cons {s t u : σ} {entry : Bytes} {entries : List Bytes} (h : Reads (step s) entry t)
      (rest : Steps step t entries u) : Steps step s (entry :: entries) u

/-- The reader takes nothing, wherever an entry with something behind it or a break comes next. -/
def OnlyLooks (before : Reader Unit) : Prop :=
  ∀ first rest, first = breakHead ∨ rest ≠ [] → before (first :: rest) = .ok ((), first :: rest)

theorem OnlyLooks.pure : OnlyLooks (pure ()) := fun _ _ _ => rfl

theorem OnlyLooks.checkNamed : OnlyLooks checkNamed := by
  intro first rest h
  refine Reads.checkNamed_eq (h.imp_left ?_)
  rintro rfl
  rfl

section

variable {step : σ → Reader σ} {before : Reader Unit} (looks : OnlyLooks before)
include looks

theorem foldUntilBreak_break (fuel : Nat) (s : σ) (rest : Bytes) :
    foldUntilBreak before step (fuel + 1) s (breakHead :: rest) = .ok (s, rest) := by
  have hrun : foldUntilBreak before step (fuel + 1) s (breakHead :: rest) =
      (before (breakHead :: rest)).bind fun p => (do
        if (← peek) = breakHead then
          let _ ← byte
          return s
        else foldUntilBreak before step fuel (← step s) : Reader σ) p.2 := rfl
  rw [hrun, looks _ _ (.inl rfl)]
  rfl

theorem foldUntilBreak_entry (fuel : Nat) {s t : σ} {entry rest : Bytes}
    (h : Reads (step s) entry t) (starts : Starts entry) (more : rest ≠ []) :
    foldUntilBreak before step (fuel + 1) s (entry ++ rest) =
      foldUntilBreak before step fuel t rest := by
  obtain ⟨first, tail, rfl, ne⟩ := starts
  have behind : tail ++ rest ≠ [] := fun eq => more (List.append_eq_nil_iff.1 eq).2
  have hrun : foldUntilBreak before step (fuel + 1) s (first :: tail ++ rest) =
      (before (first :: (tail ++ rest))).bind fun p => (do
        if (← peek) = breakHead then
          let _ ← byte
          return s
        else foldUntilBreak before step fuel (← step s) : Reader σ) p.2 := rfl
  rw [hrun, looks _ _ (.inr behind)]
  change (if first = breakHead then _ else _ : Reader σ) (first :: (tail ++ rest)) = _
  rw [if_neg ne]
  change (step s (first :: tail ++ rest)).bind _ = _
  rw [h]
  rfl

end

namespace Steps

variable {step : σ → Reader σ} {s t : σ} {entries : List Bytes}

theorem foldCount (h : Steps step s entries t) :
    Reads (foldCount step entries.length s) entries.flatten t := by
  induction h with
  | nil s => exact .pure s
  | cons h _ ih => exact h.bind ih

/-- Every entry takes an octet at least, so the octets that are there bound the steps. -/
theorem foldUntilBreak {before : Reader Unit} (looks : OnlyLooks before)
    (h : Steps step s entries t) (starts : ∀ entry ∈ entries, Starts entry) {fuel : Nat}
    (rest : Bytes) (enough : (entries.flatten ++ breakHead :: rest).length ≤ fuel) :
    foldUntilBreak before step fuel s (entries.flatten ++ breakHead :: rest) = .ok (t, rest) := by
  induction h generalizing fuel with
  | nil s =>
    cases fuel with
    | zero => simp at enough
    | succ fuel => exact foldUntilBreak_break looks fuel s rest
  | @cons s t u entry entries h _ ih =>
    have hstarts := starts entry List.mem_cons_self
    have positive : 0 < entry.length := by
      obtain ⟨first, tail, rfl, -⟩ := hstarts
      simp
    simp only [List.flatten_cons, List.append_assoc, List.length_append] at enough ⊢
    cases fuel with
    | zero => omega
    | succ fuel =>
      rw [foldUntilBreak_entry looks fuel h hstarts (by simp)]
      refine ih (fun e mem => starts e (List.mem_cons_of_mem _ mem)) ?_
      rw [List.length_append]
      omega

/-- The content of an indefinite item, of which the first octet was taken. -/
theorem reads_untilBreak {before : Reader Unit} (looks : OnlyLooks before)
    (h : Steps step s entries t) (starts : ∀ entry ∈ entries, Starts entry) :
    Reads (do Reader.foldUntilBreak before step ((← get).length + 1) s)
      (entries.flatten ++ [breakHead]) t := by
  intro rest
  have hrun := h.foldUntilBreak looks starts rest (Nat.le_succ _)
  rw [List.append_assoc]
  exact hrun

end Steps

namespace Reads

theorem containerHead_definite {kind : Major} {n : Nat} {bytes : Bytes} (h : Head kind n bytes) :
    Reads (containerHead kind) bytes (some n) := by
  obtain ⟨first, tail, rfl, hkind, hinfo, harg⟩ := h.split
  refine .byte_bind ?_
  rw [if_pos hkind, if_neg (by omega)]
  exact harg.map some

theorem containerHead_indefinite (kind : Major) :
    Reads (containerHead kind) [firstOctet kind 31] none := by
  refine .byte_bind ?_
  rw [if_pos (ofHead_firstOctet kind (by decide)), if_pos (info_firstOctet kind (by decide))]
  exact pure none

section

variable {step : σ → Reader σ} {s t : σ} {entries : List Bytes} {bytes : Bytes}

theorem foldArray (container : Container .array entries bytes) (h : Steps step s entries t)
    (starts : ∀ entry ∈ entries, Starts entry) : Reads (foldArray step s) bytes t := by
  cases container with
  | definite hhead => exact (containerHead_definite hhead).bind h.foldCount
  | indefinite =>
    exact (containerHead_indefinite .array).bind (h.reads_untilBreak .pure starts)

theorem foldMap (container : Container .map entries bytes) (h : Steps step s entries t)
    (starts : ∀ entry ∈ entries, Starts entry) : Reads (foldMap step s) bytes t := by
  cases container with
  | definite hhead => exact (containerHead_definite hhead).bind h.foldCount
  | indefinite =>
    exact (containerHead_indefinite .map).bind (h.reads_untilBreak .checkNamed starts)

end

/-- Items are read one after the other onto those before them. -/
theorem steps_items {value : Reader α} {form : α → Bytes → Prop} {items : List α}
    {parts : List Bytes} (hform : List.Forall₂ form items parts)
    (h : ∀ a ∈ items, ∀ part, form a part → Reads value part a) (seen : List α) :
    Steps (fun seen => do return (← value) :: seen) seen parts (items.reverse ++ seen) := by
  induction hform generalizing seen with
  | nil => exact .nil seen
  | @cons a part items parts ha _ ih =>
    have hstep : Reads (do return (← value) :: seen) part (a :: seen) :=
      (h a List.mem_cons_self part ha).map (· :: seen)
    have hrest := ih (fun b mem => h b (List.mem_cons_of_mem _ mem)) (a :: seen)
    rw [List.reverse_cons, List.append_assoc]
    exact .cons hstep hrest

theorem list {value : Reader α} {form : α → Bytes → Prop} {items : List α} {bytes : Bytes}
    (hform : ListForm form items bytes) (starts : ∀ a part, form a part → Starts part)
    (h : ∀ a ∈ items, ∀ part, form a part → Reads value part a) :
    Reads (list value) bytes items := by
  obtain ⟨parts_form, container⟩ := hform
  have hstarts : ∀ part ∈ _, Starts part := fun part mem => by
    obtain ⟨a, -, ha⟩ := exists_of_forall₂ parts_form.flip mem
    exact starts a part ha
  have hitems := foldArray container (steps_items parts_form h []) hstarts
  rw [List.append_nil] at hitems
  have hrev := hitems.map List.reverse
  rwa [List.reverse_reverse] at hrev

end Reads

/-! ## Records -/

/-- What a reader takes off the front of any octets is what a record is decoded to, whatever follows. -/
theorem Record.decode_of_reads [Record α] {bytes : Bytes} {a : α} (h : Reads Record.read bytes a)
    (rest : Bytes) : Record.decode (bytes ++ rest) = .ok a := by
  rw [decode, runFront, h]

/-- What is written and read back, without anything behind it. -/
theorem Record.decode_encode [Record α] {a : α} (h : Reads Record.read (Record.encode a) a) :
    Record.decode (Record.encode a) = .ok a := by
  have hr := decode_of_reads h []
  rwa [List.append_nil] at hr

/-- Records that are read back are equal if they are written alike. -/
theorem Record.encode_inj [Record α] {a b : α} (ha : Record.decode (Record.encode a) = .ok a)
    (hb : Record.decode (Record.encode b) = .ok b) (h : Record.encode a = Record.encode b) : a = b := by
  rw [h, hb] at ha
  exact (Except.ok.inj ha).symm

end ChainIndex.Cbor
