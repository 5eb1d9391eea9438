import Mathlib.Tactic.Choose
import ChainIndex.Hash

/-!
# Hexadecimal text in either case

* `Hex.nibbles`: the numbers that the digits of a byte string stand for.
* `Hex.decodeDigits_eq_ok_iff`: octets are read as the bytes whose numbers they stand for.
* `Hash.parse_eq_ok_iff`: a text is read as a hash just if it is the text of the hash in lower case.
* `Hash.exists_parse_iff`: so a text is read at all just if it has two digits for each octet and nothing else.
-/

namespace ChainIndex

theorem Utf8.encode_eq_flatMap (text : String) :
    encode text = text.toList.flatMap String.utf8EncodeChar := by
  have same : text.toByteArray = text.toList.utf8Encode := String.utf8Encode_toList.symm
  simp [encode, same, List.utf8Encode]

namespace Hex

/-- The numbers that the digits of a byte string stand for. -/
def nibbles (bytes : Bytes) : List Nat := bytes.flatMap fun byte => [byte.toNat / 16, byte.toNat % 16]

/-- A digit of either case. -/
def IsDigit (c : Char) : Prop := ('0' ≤ c ∧ c ≤ '9') ∨ ('a' ≤ c ∧ c ≤ 'f') ∨ ('A' ≤ c ∧ c ≤ 'F')

instance (c : Char) : Decidable (IsDigit c) := inferInstanceAs (Decidable (_ ∨ _ ∨ _))

theorem nibbles_cons (byte : UInt8) (rest : Bytes) :
    nibbles (byte :: rest) = byte.toNat / 16 :: byte.toNat % 16 :: nibbles rest := rfl

theorem length_nibbles (bytes : Bytes) : (nibbles bytes).length = 2 * bytes.length := by
  induction bytes with
  | nil => rfl
  | cons byte rest ih => simp [nibbles_cons, ih]; omega

theorem lt_of_mem_nibbles {bytes : Bytes} {n : Nat} (mem : n ∈ nibbles bytes) : n < 16 := by
  obtain ⟨byte, -, h⟩ := List.mem_flatMap.1 mem
  have := byte.toNat_lt
  simp only [List.mem_cons, List.not_mem_nil, or_false] at h
  omega

/-- Numbers below 16, two for each octet, are those of a byte string. -/
theorem exists_nibbles_eq {size : Nat} {ns : List Nat} (length : ns.length = 2 * size)
    (small : ∀ n ∈ ns, n < 16) : ∃ bytes : Bytes, bytes.length = size ∧ nibbles bytes = ns := by
  induction size generalizing ns with
  | zero => exact ⟨[], rfl, (List.length_eq_zero_iff.1 length).symm⟩
  | succ size ih =>
    match ns with
    | [] | [_] => simp at length; try omega
    | high :: low :: rest =>
      have later : rest.length = 2 * size := by simp at length; omega
      obtain ⟨bytes, hlength, hrest⟩ := ih later fun n mem => small n (by simp [mem])
      have hhigh : high < 16 := small high (by simp)
      have hlow : low < 16 := small low (by simp)
      refine ⟨UInt8.ofNat (16 * high + low) :: bytes, by simp [hlength], ?_⟩
      rw [nibbles_cons, hrest, UInt8.toNat_ofNat', Nat.mod_eq_of_lt (by omega)]
      congr 2 <;> omega

theorem encode_toList (bytes : Bytes) : (encode bytes).toList = (nibbles bytes).map digit := by
  rw [encode, String.toList_ofList, nibbles, List.map_flatMap]
  rfl

theorem ofNat_nibbles (byte : UInt8) : UInt8.ofNat (16 * (byte.toNat / 16) + byte.toNat % 16) = byte := by
  rw [Nat.div_add_mod]
  exact UInt8.ofNat_toNat

theorem lt_of_digitValue? {octet : UInt8} {n : Nat} (h : digitValue? octet = some n) : n < 16 := by
  unfold digitValue? at h
  grind

/-- Octets are read as the bytes whose numbers they stand for. -/
theorem decodeDigits_eq_ok_iff {index : Nat} {digits bytes : Bytes} :
    decodeDigits index digits = .ok bytes ↔ digits.map digitValue? = (nibbles bytes).map some := by
  fun_induction decodeDigits index digits generalizing bytes with
  | case1 index =>
    cases bytes with
    | nil => simp [nibbles]
    | cons byte rest => simp [nibbles_cons]
  | case2 index octet =>
    cases bytes with
    | nil => simp [nibbles]
    | cons byte rest => simp [nibbles_cons]
  | case3 index high low rest hhigh =>
    cases bytes with
    | nil => simp [nibbles]
    | cons byte rest => simp [nibbles_cons, hhigh]
  | case4 index high low rest h hlow hhigh =>
    cases bytes with
    | nil => simp [nibbles]
    | cons byte rest => simp [nibbles_cons, hlow]
  | case5 index high low rest h l hhigh hlow ih =>
    have hh := lt_of_digitValue? hhigh
    have hl := lt_of_digitValue? hlow
    constructor
    · intro decoded
      cases tail : decodeDigits (index + 2) rest with
      | error e => rw [tail] at decoded; cases decoded
      | ok bytes' =>
        rw [tail] at decoded
        cases decoded
        have value : (UInt8.ofNat (16 * h + l)).toNat = 16 * h + l := by
          rw [UInt8.toNat_ofNat', Nat.mod_eq_of_lt (by omega)]
        simp only [List.map_cons, hhigh, hlow, nibbles_cons, value, ih.1 tail]
        congr 3 <;> omega
    · intro spelled
      cases bytes with
      | nil => cases spelled
      | cons byte bytes' =>
        simp only [List.map_cons, hhigh, hlow, nibbles_cons, List.cons.injEq, Option.some.injEq] at spelled
        obtain ⟨rfl, rfl, spelled⟩ := spelled
        rw [ih.2 spelled, ofNat_nibbles]
        rfl

/-- So are those of a text that has two for each byte. -/
theorem decode_eq_ok_iff {length : Nat} {text : String} {bytes : Bytes} (fits : bytes.length = length) :
    decode length text = .ok bytes ↔ (Utf8.encode text).map digitValue? = (nibbles bytes).map some := by
  constructor
  · intro h
    simp only [decode] at h
    split at h
    · cases h
    · split at h
      · cases h
      · exact decodeDigits_eq_ok_iff.1 h
  · intro spelled
    have count : (Utf8.encode text).length = 2 * length := by
      simpa [length_nibbles, fits] using congrArg List.length spelled
    simp only [decode]
    rw [if_neg (by omega), if_neg (by omega)]
    exact decodeDigits_eq_ok_iff.2 spelled

/-! ## Characters and octets -/

theorem toNat_toLower (c : Char) :
    c.toLower.toNat = if 65 ≤ c.toNat ∧ c.toNat ≤ 90 then c.toNat + 32 else c.toNat := by
  unfold Char.toLower
  by_cases upper : 'A'.val ≤ c.val ∧ c.val ≤ 'Z'.val
  · have range : 65 ≤ c.toNat ∧ c.toNat ≤ 90 :=
      ⟨UInt32.le_iff_toNat_le.1 upper.1, UInt32.le_iff_toNat_le.1 upper.2⟩
    rw [dif_pos upper, if_pos range]
    show (c.val + 32).toNat = c.val.toNat + 32
    rw [UInt32.toNat_add]
    exact Nat.mod_eq_of_lt (Nat.lt_of_le_of_lt (Nat.add_le_add_right range.2 32) (by decide))
  · have range : ¬(65 ≤ c.toNat ∧ c.toNat ≤ 90) := fun h =>
      upper ⟨UInt32.le_iff_toNat_le.2 h.1, UInt32.le_iff_toNat_le.2 h.2⟩
    rw [dif_neg upper, if_neg range]

theorem toNat_digit : ∀ n < 16, (digit n).toNat = if n < 10 then 48 + n else 87 + n := by
  decide

/-- A character is a digit in lower case or in upper case just if its octet is one. -/
theorem toLower_eq_digit_iff {c : Char} {n : Nat} (small : n < 16) :
    c.toLower = digit n ↔ c.toNat < 128 ∧ digitValue? (UInt8.ofNat c.toNat) = some n := by
  have code : c.toLower = digit n ↔ c.toLower.toNat = (digit n).toNat :=
    ⟨congrArg _, fun h => Char.toNat_inj.1 h⟩
  rw [code, toNat_toLower, toNat_digit n small, digitValue?, UInt8.toNat_ofNat']
  constructor
  · intro h
    have ascii : c.toNat < 128 := by grind
    rw [Nat.mod_eq_of_lt (by omega)]
    grind
  · rintro ⟨ascii, h⟩
    rw [Nat.mod_eq_of_lt (by omega)] at h
    grind

theorem isDigit_iff {c : Char} : IsDigit c ↔ ∃ n < 16, c.toLower = digit n := by
  have code : IsDigit c ↔ (48 ≤ c.toNat ∧ c.toNat ≤ 57) ∨ (97 ≤ c.toNat ∧ c.toNat ≤ 102) ∨
      (65 ≤ c.toNat ∧ c.toNat ≤ 70) := by
    simp only [IsDigit, Char.le_def, UInt32.le_iff_toNat_le]
    rfl
  rw [code]
  constructor
  · intro h
    have ascii : c.toNat < 128 := by omega
    have value : (digitValue? (UInt8.ofNat c.toNat)).isSome := by
      rw [digitValue?, UInt8.toNat_ofNat', Nat.mod_eq_of_lt (by omega)]
      grind
    obtain ⟨n, value⟩ := Option.isSome_iff_exists.1 value
    exact ⟨n, lt_of_digitValue? value, (toLower_eq_digit_iff (lt_of_digitValue? value)).2 ⟨ascii, value⟩⟩
  · rintro ⟨n, small, h⟩
    have same := congrArg Char.toNat h
    rw [toNat_toLower, toNat_digit n small] at same
    grind

/-- A character of one octet, or one whose first octet is no digit. -/
theorem utf8EncodeChar_cases (c : Char) :
    (c.toNat < 128 ∧ String.utf8EncodeChar c = [UInt8.ofNat c.toNat]) ∨
      ¬c.toNat < 128 ∧ ∃ octet rest, String.utf8EncodeChar c = octet :: rest ∧ digitValue? octet = none := by
  have first {n : Nat} (low : 192 ≤ n) (high : n < 256) : digitValue? (UInt8.ofNat n) = none := by
    rw [digitValue?, UInt8.toNat_ofNat', Nat.mod_eq_of_lt high]
    grind
  by_cases ascii : c.val.toNat ≤ 127
  · exact .inl ⟨Nat.lt_succ_of_le ascii, if_pos ascii⟩
  · refine .inr ⟨fun h => ascii (Nat.le_of_lt_succ h), ?_⟩
    unfold String.utf8EncodeChar
    simp only [ascii, if_false]
    split
    · exact ⟨_, _, rfl, first (by omega) (by omega)⟩
    · split
      · exact ⟨_, _, rfl, first (by omega) (by omega)⟩
      · exact ⟨_, _, rfl, first (by omega) (by omega)⟩

/-- The octets of a text stand for numbers just if its characters are the digits of these in either case. -/
theorem map_digitValue?_iff {ns : List Nat} (small : ∀ n ∈ ns, n < 16) (cs : List Char) :
    (cs.flatMap String.utf8EncodeChar).map digitValue? = ns.map some ↔
      cs.map Char.toLower = ns.map digit := by
  induction cs generalizing ns with
  | nil => cases ns <;> simp
  | cons c rest ih =>
    cases ns with
    | nil =>
      obtain ⟨-, h⟩ | ⟨-, octet, octets, h, -⟩ := utf8EncodeChar_cases c <;> simp [h]
    | cons n ns =>
      have digit := toLower_eq_digit_iff (c := c) (small n List.mem_cons_self)
      obtain ⟨ascii, h⟩ | ⟨wide, octet, octets, h, none⟩ := utf8EncodeChar_cases c
      · simp [h, digit, ascii, ih fun n mem => small n (List.mem_cons_of_mem _ mem)]
      · simp [h, digit, wide, none]

end Hex

namespace Hash

variable {size : Nat}

theorem toLower_eq_toHex_iff {text : String} {hash : Hash size} :
    text.toLower = hash.toHex ↔
      text.toList.map Char.toLower = (Hex.nibbles hash.bytes).map Hex.digit := by
  rw [← Hex.encode_toList, ← String.toList_map, String.toList_inj]
  rfl

/-- A text is read as a hash just if in lower case it is the text of the hash. -/
theorem parse_eq_ok_iff {text : String} {hash : Hash size} :
    parse text = .ok hash ↔ text.toLower = hash.toHex := by
  have bytes : parse text = .ok hash ↔ Hex.decode size text = .ok hash.bytes := by
    unfold parse
    split <;> rename_i h <;> simp [h, Hash.ext_iff]
  rw [bytes, Hex.decode_eq_ok_iff hash.length_bytes, toLower_eq_toHex_iff,
    Utf8.encode_eq_flatMap]
  exact Hex.map_digitValue?_iff (fun n => Hex.lt_of_mem_nibbles) _

/-- A text is read as a hash of a size just if it has two digits for each octet and nothing else. -/
theorem exists_parse_iff {text : String} :
    (∃ hash : Hash size, parse text = .ok hash) ↔
      text.length = 2 * size ∧ ∀ c ∈ text.toList, Hex.IsDigit c := by
  simp only [parse_eq_ok_iff, toLower_eq_toHex_iff]
  constructor
  · rintro ⟨hash, h⟩
    constructor
    · have count := congrArg List.length h
      rw [List.length_map, List.length_map, Hex.length_nibbles, hash.length_bytes] at count
      rw [← String.length_toList, count]
    · intro c mem
      have spelled : c.toLower ∈ (Hex.nibbles hash.bytes).map Hex.digit := by
        rw [← h]
        exact List.mem_map_of_mem mem
      obtain ⟨n, hn, digit⟩ := List.mem_map.1 spelled
      exact Hex.isDigit_iff.2 ⟨n, Hex.lt_of_mem_nibbles hn, digit.symm⟩
  · rintro ⟨length, digits⟩
    choose value small spelled using fun c (mem : c ∈ text.toList) => Hex.isDigit_iff.1 (digits c mem)
    let ns := text.toList.pmap value fun _ mem => mem
    obtain ⟨bytes, fits, hbytes⟩ : ∃ bytes : Bytes, bytes.length = size ∧ Hex.nibbles bytes = ns := by
      refine Hex.exists_nibbles_eq ?_ fun n mem => ?_
      · rw [List.length_pmap, String.length_toList, length]
      · obtain ⟨c, hc, rfl⟩ := List.mem_pmap.1 mem
        exact small c hc
    refine ⟨⟨bytes, fits⟩, ?_⟩
    rw [hbytes, List.map_pmap, ← List.pmap_eq_map (fun _ mem => mem)]
    exact List.pmap_congr_left _ fun c mem _ _ => spelled c mem

end Hash

end ChainIndex
