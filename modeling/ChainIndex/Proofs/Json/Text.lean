import Mathlib.Data.List.DropRight
import Mathlib.Data.List.Nodup
import ChainIndex.Json.Parser
import ChainIndex.Json.Printer

/-!
# JSON texts are read

* `Json.Laid`: the texts of a value that is nested at most so deep, with any blanks between its parts. Values
  with doubles are left out.
* `Json.Parser.value?_laid`: each of them is read as the value, whatever can follow it.
* `Json.parse?_laid`: so is the whole text.
-/

namespace ChainIndex.Json

namespace Parser

/-! ## Numbers -/

/-- What can follow a number: nothing, a blank, or the end of an item. -/
def Ends (rest : Input) : Prop :=
  ∀ c ∈ rest.head?, isBlank c = true ∨ c = ',' ∨ c = ']' ∨ c = '\x7d'

theorem ends_nil : Ends [] := nofun

theorem ends_comma (rest : Input) : Ends (',' :: rest) := by simp [Ends]

theorem ends_bracket (rest : Input) : Ends (']' :: rest) := by simp [Ends]

theorem ends_brace (rest : Input) : Ends ('\x7d' :: rest) := by simp [Ends]

theorem digit?_of_isDigit {c : Char} (h : c.isDigit = true) : digit? c = some (c.toNat - 48) := by
  have range : '0' ≤ c ∧ c ≤ '9' := by simpa [Char.isDigit, Char.le_def] using h
  rw [digit?, if_pos range]

theorem Ends.digit? {c : Char} {rest : Input} (h : Ends (c :: rest)) : digit? c = none := by
  have := h c rfl
  simp only [isBlank, Bool.or_eq_true, beq_iff_eq] at this
  rcases this with (((rfl | rfl) | rfl) | rfl) | rfl | rfl | rfl <;> rfl

theorem le_ofDigitChars (cs : List Char) (n : Nat) : n ≤ Nat.ofDigitChars 10 cs n := by
  induction cs generalizing n with
  | nil => exact Nat.le_refl n
  | cons c cs ih =>
    rw [Nat.ofDigitChars_cons]
    exact Nat.le_trans (by omega) (ih _)

/-- Digits that spell a number below 2^64 are all read. -/
theorem digits_append {cs : List Char} (decimal : ∀ c ∈ cs, c.isDigit = true) {n : Nat}
    (fits : Nat.ofDigitChars 10 cs n < UInt64.size) {rest : Input} (ends : Ends rest) :
    digits n 0 (cs ++ rest) = (Nat.ofDigitChars 10 cs n, 0, rest) := by
  induction cs generalizing n with
  | nil =>
    cases rest with
    | nil => rfl
    | cons c rest => simp [digits, ends.digit?]
  | cons c cs ih =>
    rw [Nat.ofDigitChars_cons] at fits ⊢
    have room : 10 * n + (c.toNat - 48) < UInt64.size := Nat.lt_of_le_of_lt (le_ofDigitChars cs _) fits
    rw [List.cons_append, digits, digit?_of_isDigit (decimal c List.mem_cons_self)]
    simp only [room, and_self, if_true]
    exact ih (fun c mem => decimal c (List.mem_cons_of_mem _ mem)) fits

theorem digits_toDigits {n : Nat} (fits : n < UInt64.size) {rest : Input} (ends : Ends rest) :
    digits 0 0 (Nat.toDigits 10 n ++ rest) = (n, 0, rest) := by
  have spelled : Nat.ofDigitChars 10 (Nat.toDigits 10 n) 0 = n := Nat.ofDigitChars_ten_toDigits
  rw [digits_append (fun c => Nat.isDigit_of_mem_toDigits (by decide) (by decide)) (by rwa [spelled]) ends,
    spelled]

/-- Only zero starts with a zero. -/
theorem toDigits_head {n : Nat} (pos : 0 < n) :
    ∃ c cs, Nat.toDigits 10 n = c :: cs ∧ c.isDigit = true ∧ c ≠ '0' := by
  induction n using Nat.strongRecOn with
  | ind n ih =>
    by_cases small : n < 10
    · have first : ∀ n < 10, 0 < n → (Nat.digitChar n).isDigit = true ∧ Nat.digitChar n ≠ '0' := by decide
      exact ⟨_, _, Nat.toDigits_of_lt_base small, first n small pos⟩
    · obtain ⟨c, cs, head, digit⟩ := ih (n / 10) (by omega) (by omega)
      exact ⟨c, _, by rw [Nat.toDigits_of_base_le (by decide) (by omega), head]; rfl, digit⟩

theorem numberTail?_of_ends (negative : Bool) (n : Nat) {rest : Input} (ends : Ends rest) :
    numberTail? negative n 0 rest =
      if ¬negative then some (.int n, rest)
      else if n = 0 ∨ 0x8000000000000000 < n then some (.float (-(Float.ofNat n)), rest)
      else some (.int (-(n : Int)), rest) := by
  cases rest with
  | nil => rfl
  | cons c rest =>
    have last := ends c rfl
    simp only [isBlank, Bool.or_eq_true, beq_iff_eq] at last
    rcases last with (((rfl | rfl) | rfl) | rfl) | rfl | rfl | rfl <;> rfl

/-- The digits of a number are read as the number. -/
theorem number?_toDigits {n : Nat} (fits : n < UInt64.size) {rest : Input} (ends : Ends rest) :
    number? (Nat.toDigits 10 n ++ rest) = numberTail? false n 0 rest ∧
      number? ('-' :: Nat.toDigits 10 n ++ rest) = numberTail? true n 0 rest := by
  obtain rfl | pos := Nat.eq_zero_or_pos n
  · have zero : Nat.toDigits 10 0 = ['0'] := rfl
    rw [zero]
    cases rest with
    | nil => exact ⟨rfl, rfl⟩
    | cons c rest => simp [number?, ends.digit?]
  · obtain ⟨c, cs, head, decimal, nonzero⟩ := toDigits_head pos
    have read := digits_toDigits fits ends
    have digit := digit?_of_isDigit decimal
    have unsigned : c ≠ '-' := by rintro rfl; cases decimal
    rw [head, List.cons_append] at read
    rw [head]
    constructor
    · simp [number?, unsigned, nonzero, digit, read]
    · simp [number?, nonzero, digit, read]

/-- A whole number of 64 bits is read, whatever can follow it. -/
theorem number?_int {i : Int} (low : -0x8000000000000000 ≤ i) (high : i < 0x10000000000000000)
    {rest : Input} (ends : Ends rest) :
    number? ((toString i).toList ++ rest) = some (.int i, rest) := by
  have written : (toString i).toList =
      if 0 ≤ i then Nat.toDigits 10 i.toNat else '-' :: Nat.toDigits 10 (-i).toNat := by
    show i.repr.toList = _
    rw [Int.repr_eq_if]
    split <;> simp [Nat.repr_eq_ofList_toDigits]
  rw [written]
  split
  · rename_i natural
    have fits : i.toNat < UInt64.size := by simp only [UInt64.size]; omega
    rw [(number?_toDigits fits ends).1, numberTail?_of_ends _ _ ends, if_pos (by simp),
      Int.toNat_of_nonneg natural]
  · rename_i negative
    have fits : (-i).toNat < UInt64.size := by simp only [UInt64.size]; omega
    rw [(number?_toDigits fits ends).2, numberTail?_of_ends _ _ ends]
    have range : ¬((-i).toNat = 0 ∨ 0x8000000000000000 < (-i).toNat) := by omega
    rw [if_neg (by simp), if_neg range]
    congr 3
    omega

/-! ## Strings -/

theorem hexDigit?_digitChar : ∀ n < 16, hexDigit? (Nat.digitChar n) = some n := by decide

/-- The two last digits of the escape of a control character. -/
theorem toList_lowerHex {n : Nat} (control : n < 0x20) :
    ((if n < 0x10 then "0" else "") ++ Text.lowerHex n).toList =
      [Nat.digitChar (n / 16), Nat.digitChar (n % 16)] := by
  rw [Text.lowerHex]
  split
  · rename_i small
    rw [Nat.toDigits_of_lt_base small, Nat.div_eq_of_lt small, Nat.mod_eq_of_lt small]
    simp
  · rename_i large
    rw [Nat.toDigits_of_base_le (by decide) (by omega), Nat.toDigits_of_lt_base (show n / 16 < 16 by omega)]
    simp

/-- The escape of a control character is read as the character. -/
theorem unicodeEscape?_control {c : Char} (control : c.toNat < 0x20) (rest : Input) :
    unicodeEscape? ('0' :: '0' :: Nat.digitChar (c.toNat / 16) :: Nat.digitChar (c.toNat % 16) :: rest) =
      some (c, rest) := by
  have value : 16 * (c.toNat / 16) + c.toNat % 16 = c.toNat := by omega
  have zero : hexDigit? '0' = some 0 := rfl
  simp only [unicodeEscape?, unit?, zero, hexDigit?_digitChar _ (show c.toNat / 16 < 16 by omega),
    hexDigit?_digitChar _ (show c.toNat % 16 < 16 by omega), Option.bind_eq_bind, Option.bind_some,
    Option.pure_def, Nat.mul_zero, Nat.add_zero, Nat.zero_add, value]
  rw [if_neg (by omega), if_neg (by omega), Char.ofNat_toNat]

/-- What stands for a character in a text is read as the character. -/
theorem string?_escapeChar (c : Char) (fuel : Nat) (rest : Input) (done : List Char) :
    string? (fuel + 1) ((escapeChar c).toList ++ rest) done = string? fuel rest (c :: done) := by
  unfold escapeChar
  split
  case isTrue h => subst h; simp [string?]
  split
  case isTrue h => subst h; simp [string?]
  rename_i backslash
  split
  case isTrue h => subst h; simp [string?]
  split
  case isTrue h => subst h; simp [string?]
  split
  case isTrue h => subst h; simp [string?]
  split
  case isTrue backspace =>
    obtain rfl : c = Char.ofNat 8 := by rw [← backspace, Char.ofNat_toNat]
    simp [string?]
  split
  case isTrue formFeed =>
    obtain rfl : c = Char.ofNat 12 := by rw [← formFeed, Char.ofNat_toNat]
    simp [string?]
  split
  case isTrue control =>
    rw [String.append_assoc, String.toList_append, toList_lowerHex control]
    simp [string?, unicodeEscape?_control control]
  case isFalse plain => simp [string?, backslash, plain]

/-- A text is read up to its closing quote. -/
theorem string?_quote (cs : List Char) (rest : Input) {fuel : Nat} (done : List Char)
    (enough : (cs.flatMap fun c => (escapeChar c).toList).length < fuel) :
    string? fuel (cs.flatMap (fun c => (escapeChar c).toList) ++ '"' :: rest) done =
      some (String.ofList (done.reverse ++ cs), rest) := by
  induction cs generalizing fuel done with
  | nil =>
    obtain ⟨fuel, rfl⟩ := Nat.exists_eq_add_one.2 enough
    simp [string?]
  | cons c cs ih =>
    obtain ⟨fuel, rfl⟩ := Nat.exists_eq_add_one.2 (Nat.zero_lt_of_lt enough)
    have written : 0 < (escapeChar c).toList.length := by
      unfold escapeChar
      repeat' split
      all_goals simp
    simp only [List.flatMap_cons, List.length_append] at enough
    rw [List.flatMap_cons, List.append_assoc, string?_escapeChar, ih (c :: done) (by omega)]
    simp

end Parser

/-! ## Texts -/

/-- Blanks only. -/
def Blanks (cs : List Char) : Prop := ∀ c ∈ cs, Parser.isBlank c = true

mutual

/-- The texts of a value that is nested at most `depth` deep. There can be blanks between its parts, in front of
it and behind it. -/
inductive Laid : (depth : Nat) → Json → List Char → Prop
  | blanks {depth : Nat} {j : Json} {front cs back : List Char} (hfront : Blanks front) (hback : Blanks back)
      (h : Laid depth j cs) : Laid depth j (front ++ cs ++ back)
  | null {depth : Nat} : Laid depth .null "null".toList
  | bool {depth : Nat} (b : Bool) : Laid depth (.bool b) (if b then "true" else "false").toList
  | int {depth : Nat} {i : Int} (low : -0x8000000000000000 ≤ i) (high : i < 0x10000000000000000) :
      Laid depth (.int i) (toString i).toList
  | str {depth : Nat} (s : String) : Laid depth (.str s) (quote s).toList
  | noItems {depth : Nat} {blanks : List Char} (h : Blanks blanks) :
      Laid (depth + 1) (.arr []) ('[' :: blanks ++ [']'])
  | items {depth : Nat} {items : List Json} {cs : List Char} (h : LaidItems depth items cs) :
      Laid (depth + 1) (.arr items) ('[' :: cs ++ [']'])
  | noFields {depth : Nat} {blanks : List Char} (h : Blanks blanks) :
      Laid (depth + 1) (.obj []) ('\x7b' :: blanks ++ ['\x7d'])
  | fields {depth : Nat} {fields : List (String × Json)} {cs : List Char} (h : LaidFields depth fields cs)
      (nodup : (fields.map (·.1)).Nodup) : Laid (depth + 1) (.obj fields) ('\x7b' :: cs ++ ['\x7d'])

/-- The texts of the items of an array, with commas between them. -/
inductive LaidItems : (depth : Nat) → List Json → List Char → Prop
  | last {depth : Nat} {item : Json} {cs : List Char} (h : Laid depth item cs) : LaidItems depth [item] cs
  | more {depth : Nat} {item : Json} {items : List Json} {cs later : List Char} (h : Laid depth item cs)
      (hlater : LaidItems depth items later) : LaidItems depth (item :: items) (cs ++ ',' :: later)

/-- The texts of the fields of an object, with commas between them. -/
inductive LaidFields : (depth : Nat) → List (String × Json) → List Char → Prop
  | last {depth : Nat} {name : String} {value : Json} {front back cs : List Char} (hfront : Blanks front)
      (hback : Blanks back) (h : Laid depth value cs) :
      LaidFields depth [(name, value)] (front ++ (quote name).toList ++ back ++ ':' :: cs)
  | more {depth : Nat} {name : String} {value : Json} {fields : List (String × Json)}
      {front back cs later : List Char} (hfront : Blanks front) (hback : Blanks back)
      (h : Laid depth value cs) (hlater : LaidFields depth fields later) :
      LaidFields depth ((name, value) :: fields)
        (front ++ (quote name).toList ++ back ++ ':' :: (cs ++ ',' :: later))

end

/-- No value has an empty text. -/
theorem Laid.length_pos {depth : Nat} {j : Json} {cs : List Char} (h : Laid depth j cs) : 0 < cs.length := by
  match h with
  | @blanks _ _ _ cs _ _ _ h =>
    have := h.length_pos
    simp only [List.length_append]
    omega
  | .null => decide
  | .bool b => cases b <;> decide
  | @int _ i low high =>
    have read := Parser.number?_int low high Parser.ends_nil
    refine List.length_pos_iff.2 fun none => ?_
    rw [none] at read
    cases read
  | .str _ => simp [quote]
  | .noItems _ | .items _ | .noFields _ | .fields _ _ => simp

namespace Parser

theorem skipBlanks_blanks {front : List Char} (h : Blanks front) (rest : Input) :
    skipBlanks (front ++ rest) = skipBlanks rest := List.dropWhile_append_of_pos h

theorem skipBlanks_idem (input : Input) : skipBlanks (skipBlanks input) = skipBlanks input :=
  List.dropWhile_idempotent _ _

theorem skipBlanks_cons {c : Char} (h : isBlank c = false) (rest : Input) :
    skipBlanks (c :: rest) = c :: rest := by
  simp [skipBlanks, h]

/-- Blanks are passed over up to the next sign. -/
theorem skipBlanks_blanks_cons {front : List Char} (h : Blanks front) {c : Char} (sign : isBlank c = false)
    (rest : Input) : skipBlanks (front ++ c :: rest) = c :: rest := by
  rw [skipBlanks_blanks h, skipBlanks_cons sign]

theorem Ends.blanks {back rest : List Char} (h : Blanks back) (ends : Ends rest) : Ends (back ++ rest) := by
  cases back with
  | nil => exact ends
  | cons c back =>
    intro d hd
    cases hd
    exact .inl (h c List.mem_cons_self)

theorem value?_skipBlanks (fuel depth : Nat) (input : Input) :
    value? fuel depth (skipBlanks input) = value? fuel depth input := by
  cases fuel with
  | zero => rfl
  | succ fuel => rw [value?, value?, skipBlanks_idem]

theorem items?_skipBlanks (fuel depth : Nat) (input : Input) (done : List Json) :
    items? fuel depth (skipBlanks input) done = items? fuel depth input done := by
  cases fuel with
  | zero => rfl
  | succ fuel => rw [items?, items?, value?_skipBlanks]

theorem fields?_skipBlanks (fuel depth : Nat) (input : Input) (done : List (String × Json)) :
    fields? fuel depth (skipBlanks input) done = fields? fuel depth input done := by
  cases fuel with
  | zero => rfl
  | succ fuel => rw [fields?, fields?, skipBlanks_idem]

/-- A text in quotes is read behind its opening quote. -/
theorem string?_toList_quote (s : String) (rest : Input) :
    ∃ tail, (quote s).toList ++ rest = '"' :: tail ∧ string? (tail.length + 1) tail [] = some (s, rest) := by
  refine ⟨s.toList.flatMap (fun c => (escapeChar c).toList) ++ '"' :: rest, ?_, ?_⟩
  · simp [quote, List.flatMap_map]
  · rw [string?_quote _ _ _ (by rw [List.length_append]; omega)]
    simp

/-- What is read as a number is read as a value. -/
theorem value?_of_number? (fuel depth : Nat) {input rest : Input} {j : Json}
    (h : number? input = some (j, rest)) : value? (fuel + 1) depth input = some (j, rest) := by
  cases input with
  | nil => cases h
  | cons c tail =>
    have first : c = '-' ∨ (digit? c).isSome := by
      unfold number? at h
      by_cases minus : c = '-'
      · exact .inl minus
      · by_cases zero : c = '0'
        · exact .inr (zero ▸ rfl)
        · simp [minus, zero] at h
          exact .inr h.1
    have other : isBlank c = false ∧ c ≠ '"' ∧ c ≠ '[' ∧ c ≠ '\x7b' ∧ c ≠ 'n' ∧ c ≠ 't' ∧ c ≠ 'f' := by
      rcases first with rfl | digit
      · decide
      · refine ⟨Bool.eq_false_iff.2 fun blank => ?_, ?_, ?_, ?_, ?_, ?_, ?_⟩
        · simp only [isBlank, Bool.or_eq_true, beq_iff_eq] at blank
          rcases blank with ((rfl | rfl) | rfl) | rfl <;> cases digit
        all_goals rintro rfl; cases digit
    obtain ⟨blank, other⟩ := other
    simp [value?, skipBlanks_cons blank, other, h]

/-- No item begins with a bracket that closes. -/
theorem items?_close (fuel depth : Nat) (later : Input) (done : List Json) :
    items? fuel depth (']' :: later) done = none := by
  match fuel with
  | 0 | 1 => rfl
  | fuel + 2 => simp [items?, value?, skipBlanks, isBlank, number?, digit?]

/-- No field begins with a brace that closes. -/
theorem fields?_close (fuel depth : Nat) (later : Input) (done : List (String × Json)) :
    fields? fuel depth ('\x7d' :: later) done = none := by
  cases fuel with
  | zero => rfl
  | succ fuel => simp [fields?, skipBlanks, isBlank]

/-- What is read as the items of an array is read as the array. -/
theorem value?_of_items? {fuel depth : Nat} {input rest : Input} {j : Json}
    (h : items? fuel depth input [] = some (j, rest)) :
    value? (fuel + 1) (depth + 1) ('[' :: input) = some (j, rest) := by
  rw [← items?_skipBlanks] at h
  -- Had the array been empty, its items would not have been read.
  have opens : ∀ later, skipBlanks input ≠ ']' :: later := by
    intro later same
    rw [same, items?_close] at h
    cases h
  simpa [value?, skipBlanks_cons (c := '[') rfl] using h

/-- What is read as the fields of an object is read as the object. -/
theorem value?_of_fields? {fuel depth : Nat} {input rest : Input} {j : Json}
    (h : fields? fuel depth input [] = some (j, rest)) :
    value? (fuel + 1) (depth + 1) ('\x7b' :: input) = some (j, rest) := by
  rw [← fields?_skipBlanks] at h
  have opens : ∀ later, skipBlanks input ≠ '\x7d' :: later := by
    intro later same
    rw [same, fields?_close] at h
    cases h
  simpa [value?, skipBlanks_cons (c := '\x7b') rfl] using h

/-- A field of a new name comes last. -/
theorem setField_of_not_mem {name : String} {done : List (String × Json)} (new : name ∉ done.map (·.1))
    (value : Json) : setField name value done = done ++ [(name, value)] := by
  induction done with
  | nil => rfl
  | cons field rest ih =>
    simp only [List.map_cons, List.mem_cons, not_or] at new
    rw [setField, if_neg (Ne.symm new.1), ih new.2]
    rfl

theorem not_mem_of_nodup {name : String} {value : Json} {done fields : List (String × Json)}
    (nodup : ((done ++ (name, value) :: fields).map (·.1)).Nodup) : name ∉ done.map (·.1) := by
  rw [List.map_append, List.map_cons] at nodup
  exact fun mem => (List.nodup_append.1 nodup).2.2 name mem name List.mem_cons_self rfl

/-- A name, its colon and its value are read, and what is behind them decides how it goes on. -/
theorem fields?_name {front back : List Char} (hfront : Blanks front) (hback : Blanks back) {fuel depth : Nat}
    {tail rest : Input} {name : String} {value : Json} {done : List (String × Json)}
    (read : value? fuel depth tail = some (value, rest)) (new : name ∉ done.map (·.1)) :
    (∀ later, skipBlanks rest = ',' :: later →
      fields? (fuel + 1) depth (front ++ (quote name).toList ++ back ++ ':' :: tail) done =
        fields? fuel depth later (done ++ [(name, value)])) ∧
    ∀ later, skipBlanks rest = '\x7d' :: later →
      fields? (fuel + 1) depth (front ++ (quote name).toList ++ back ++ ':' :: tail) done =
        some (.obj (done ++ [(name, value)]), later) := by
  obtain ⟨quoted, text, readName⟩ := string?_toList_quote name (back ++ ':' :: tail)
  have colon : skipBlanks (back ++ ':' :: tail) = ':' :: tail := skipBlanks_blanks_cons hback rfl _
  have start : skipBlanks (front ++ (quote name).toList ++ back ++ ':' :: tail) = '"' :: quoted := by
    rw [List.append_assoc, List.append_assoc, skipBlanks_blanks hfront, text, skipBlanks_cons rfl]
  constructor
  · intro later next
    rw [fields?, start]
    simp [readName, colon, read, next, setField_of_not_mem new]
  · intro later next
    rw [fields?, start]
    simp [readName, colon, read, next, setField_of_not_mem new]

-- By induction on how the text is laid out. An item costs one unit of fuel besides its value and has a sign of its
-- own next to it, so twice the length is enough.
mutual

/-- A text of a value is read as the value, whatever can follow it; the blanks behind it may be left. -/
theorem value?_laid {depth : Nat} {j : Json} {cs : List Char} (h : Laid depth j cs) {fuel : Nat}
    (enough : 2 * cs.length ≤ fuel + 1) {rest : Input} (ends : Ends rest) :
    ∃ back, Blanks back ∧ value? fuel depth (cs ++ rest) = some (j, back ++ rest) := by
  have pos := h.length_pos
  obtain ⟨fuel, rfl⟩ : ∃ n, fuel = n + 1 := Nat.exists_eq_add_one.2 (by omega)
  match h with
  | @Laid.blanks _ _ front cs back hfront hback h =>
    have shorter : 2 * cs.length ≤ fuel + 1 + 1 := by simp at enough; omega
    obtain ⟨left, hleft, read⟩ := value?_laid h shorter (ends.blanks hback)
    refine ⟨left ++ back, fun c mem => (List.mem_append.1 mem).elim (hleft c) (hback c), ?_⟩
    rw [List.append_assoc, List.append_assoc, ← value?_skipBlanks, skipBlanks_blanks hfront, value?_skipBlanks,
      read, List.append_assoc]
  | .null => exact ⟨[], nofun, by simp [value?, skipBlanks, isBlank]⟩
  | .bool b => exact ⟨[], nofun, by cases b <;> simp [value?, skipBlanks, isBlank]⟩
  | .int low high => exact ⟨[], nofun, (value?_of_number? fuel depth (number?_int low high ends)).trans rfl⟩
  | .str s =>
    obtain ⟨tail, text, read⟩ := string?_toList_quote s rest
    refine ⟨[], nofun, ?_⟩
    rw [text]
    simp [value?, skipBlanks_cons (c := '"') rfl, read]
  | @Laid.noItems depth blanks h =>
    have close : skipBlanks (blanks ++ ']' :: rest) = ']' :: rest := skipBlanks_blanks_cons h rfl _
    exact ⟨[], nofun, by simp [value?, skipBlanks_cons (c := '[') rfl, close]⟩
  | @Laid.items depth items cs h =>
    have shorter : 2 * cs.length ≤ fuel := by simp at enough; omega
    refine ⟨[], nofun, ?_⟩
    simpa using value?_of_items? (items?_laid h shorter rest [])
  | @Laid.noFields depth blanks h =>
    have close : skipBlanks (blanks ++ '\x7d' :: rest) = '\x7d' :: rest := skipBlanks_blanks_cons h rfl _
    exact ⟨[], nofun, by simp [value?, skipBlanks_cons (c := '\x7b') rfl, close]⟩
  | @Laid.fields depth fields cs h nodup =>
    have shorter : 2 * cs.length ≤ fuel := by simp at enough; omega
    refine ⟨[], nofun, ?_⟩
    simpa using value?_of_fields? (fields?_laid h shorter rest [] nodup)

/-- So are the texts of the items of an array. -/
theorem items?_laid {depth : Nat} {items : List Json} {cs : List Char} (h : LaidItems depth items cs)
    {fuel : Nat} (enough : 2 * cs.length ≤ fuel) (rest : Input) (done : List Json) :
    items? fuel depth (cs ++ ']' :: rest) done = some (.arr (done.reverse ++ items), rest) := by
  match h with
  | .last h =>
    have pos := h.length_pos
    obtain ⟨fuel, rfl⟩ : ∃ n, fuel = n + 1 := Nat.exists_eq_add_one.2 (by omega)
    obtain ⟨back, hback, read⟩ := value?_laid h enough (ends_bracket rest)
    have close : skipBlanks (back ++ ']' :: rest) = ']' :: rest := skipBlanks_blanks_cons hback rfl _
    simp [items?, read, close]
  | @LaidItems.more _ item items cs later h hlater =>
    obtain ⟨fuel, rfl⟩ : ∃ n, fuel = n + 1 := Nat.exists_eq_add_one.2 (by simp at enough; omega)
    have shorter : 2 * cs.length ≤ fuel + 1 ∧ 2 * later.length ≤ fuel := by simp at enough; omega
    obtain ⟨back, hback, read⟩ := value?_laid h shorter.1 (ends_comma (later ++ ']' :: rest))
    have comma : skipBlanks (back ++ ',' :: (later ++ ']' :: rest)) = ',' :: (later ++ ']' :: rest) :=
      skipBlanks_blanks_cons hback rfl _
    rw [List.append_assoc, List.cons_append]
    simp [items?, read, comma, items?_laid hlater shorter.2 rest (item :: done)]

/-- So are the texts of the fields of an object. -/
theorem fields?_laid {depth : Nat} {fields : List (String × Json)} {cs : List Char}
    (h : LaidFields depth fields cs) {fuel : Nat} (enough : 2 * cs.length ≤ fuel) (rest : Input)
    (done : List (String × Json)) (nodup : ((done ++ fields).map (·.1)).Nodup) :
    fields? fuel depth (cs ++ '\x7d' :: rest) done = some (.obj (done ++ fields), rest) := by
  match h with
  | @LaidFields.last _ name value front back cs hfront hback h =>
    obtain ⟨fuel, rfl⟩ : ∃ n, fuel = n + 1 := Nat.exists_eq_add_one.2 (by simp at enough; omega)
    have shorter : 2 * cs.length ≤ fuel + 1 := by simp at enough; omega
    obtain ⟨left, hleft, read⟩ := value?_laid h shorter (ends_brace rest)
    have close : skipBlanks (left ++ '\x7d' :: rest) = '\x7d' :: rest := skipBlanks_blanks_cons hleft rfl _
    have written : front ++ (quote name).toList ++ back ++ ':' :: cs ++ '\x7d' :: rest =
        front ++ (quote name).toList ++ back ++ ':' :: (cs ++ '\x7d' :: rest) := by simp
    rw [written]
    exact (fields?_name hfront hback read (not_mem_of_nodup nodup)).2 rest close
  | @LaidFields.more _ name value fields front back cs later hfront hback h hlater =>
    obtain ⟨fuel, rfl⟩ : ∃ n, fuel = n + 1 := Nat.exists_eq_add_one.2 (by simp at enough; omega)
    have shorter : 2 * cs.length ≤ fuel + 1 ∧ 2 * later.length ≤ fuel := by simp at enough; omega
    obtain ⟨left, hleft, read⟩ := value?_laid h shorter.1 (ends_comma (later ++ '\x7d' :: rest))
    have comma : skipBlanks (left ++ ',' :: (later ++ '\x7d' :: rest)) = ',' :: (later ++ '\x7d' :: rest) :=
      skipBlanks_blanks_cons hleft rfl _
    have written : front ++ (quote name).toList ++ back ++ ':' :: (cs ++ ',' :: later) ++ '\x7d' :: rest =
        front ++ (quote name).toList ++ back ++ ':' :: (cs ++ ',' :: (later ++ '\x7d' :: rest)) := by simp
    rw [written, (fields?_name hfront hback read (not_mem_of_nodup nodup)).1 _ comma,
      fields?_laid hlater shorter.2 rest (done ++ [(name, value)]) (by simpa using nodup)]
    simp

end

end Parser

/-- A text of a value is read as the value. -/
theorem parse?_laid {j : Json} {text : String} (h : Laid 127 j text.toList) : parse? text = some j := by
  obtain ⟨back, hback, read⟩ := Parser.value?_laid h (show _ ≤ 2 * text.toList.length + 2 + 1 by omega)
    Parser.ends_nil
  have blank : Parser.skipBlanks back = [] := by
    rw [← List.append_nil back, Parser.skipBlanks_blanks hback]
    rfl
  rw [List.append_nil, List.append_nil] at read
  simp [parse?, read, blank]

end ChainIndex.Json
