import ChainIndex.Proofs.Json.Text

/-!
# Written JSON is read

* `Json.Plain`: the values that keep to what a text can say exactly: no doubles, numbers of 64 bits, no name
  twice in an object, and nothing nested more than so deep.
* `Json.Plain.laid_compact`, `Json.Plain.laid_pretty`: what is written of them, on one line or over several, are
  texts of theirs, so it is read as what was written.
-/

namespace ChainIndex.Json

/-- Values without doubles that are nested at most `depth` deep. -/
inductive Plain : (depth : Nat) → Json → Prop
  | null {depth : Nat} : Plain depth .null
  | bool {depth : Nat} (b : Bool) : Plain depth (.bool b)
  | int {depth : Nat} {i : Int} (low : -0x8000000000000000 ≤ i) (high : i < 0x10000000000000000) :
      Plain depth (.int i)
  | str {depth : Nat} (s : String) : Plain depth (.str s)
  | arr {depth : Nat} {items : List Json} (h : ∀ item ∈ items, Plain depth item) :
      Plain (depth + 1) (.arr items)
  | obj {depth : Nat} {fields : List (String × Json)} (h : ∀ field ∈ fields, Plain depth field.2)
      (nodup : (fields.map (·.1)).Nodup) : Plain (depth + 1) (.obj fields)

theorem blanks_nil : Blanks [] := by simp [Blanks]

theorem blanks_space : Blanks [' '] := by simp [Blanks, Parser.isBlank]

theorem blanks_newLine (level : Nat) : Blanks (newLine level).toList := by
  intro c mem
  simp only [newLine, String.toList_append, List.mem_append, String.toList_ofList, List.mem_replicate] at mem
  obtain mem | ⟨-, rfl⟩ := mem
  · obtain rfl : c = '\n' := by simpa using mem
    rfl
  · rfl

/-- Blanks can be put in front of a text. -/
theorem Laid.indent {depth : Nat} {j : Json} {front cs : List Char} (hfront : Blanks front)
    (h : Laid depth j cs) : Laid depth j (front ++ cs) := by
  simpa using Laid.blanks hfront blanks_nil h

/-! ## On one line -/

theorem laid_compactItems {depth : Nat} (item : Json) (items : List Json)
    (h : ∀ j ∈ item :: items, Laid depth j (compact j).toList) :
    LaidItems depth (item :: items) (compactItems (item :: items)).toList := by
  induction items generalizing item with
  | nil => exact .last (h item List.mem_cons_self)
  | cons next items ih =>
    have later := ih next fun j mem => h j (List.mem_cons_of_mem _ mem)
    simpa [compactItems] using LaidItems.more (h item List.mem_cons_self) later

theorem laid_compactFields {depth : Nat} (field : String × Json) (fields : List (String × Json))
    (h : ∀ f ∈ field :: fields, Laid depth f.2 (compact f.2).toList) :
    LaidFields depth (field :: fields) (compactFields (field :: fields)).toList := by
  induction fields generalizing field with
  | nil => simpa [compactFields] using LaidFields.last blanks_nil blanks_nil (h field List.mem_cons_self)
  | cons next fields ih =>
    have later := ih next fun f mem => h f (List.mem_cons_of_mem _ mem)
    simpa [compactFields] using LaidFields.more blanks_nil blanks_nil (h field List.mem_cons_self) later

/-- What is written on one line is a text of the value. -/
theorem Plain.laid_compact {depth : Nat} {j : Json} (h : Plain depth j) : Laid depth j (compact j).toList := by
  induction h with
  | null => exact .null
  | bool b => exact .bool b
  | int low high => exact .int low high
  | str s => exact .str s
  | @arr depth items _ ih =>
    cases items with
    | nil => exact .noItems blanks_nil
    | cons item items => simpa [compact] using Laid.items (laid_compactItems item items ih)
  | @obj depth fields _ nodup ih =>
    cases fields with
    | nil => exact .noFields blanks_nil
    | cons field fields => simpa [compact] using Laid.fields (laid_compactFields field fields ih) nodup

/-! ## Over several lines -/

variable {level : Nat} {back : List Char}

theorem laid_prettyItems {depth : Nat} (hback : Blanks back) (item : Json) (items : List Json)
    (h : ∀ j ∈ item :: items, Laid depth j (prettyAt level j).toList) :
    LaidItems depth (item :: items) ((prettyItems level (item :: items)).toList ++ back) := by
  induction items generalizing item with
  | nil =>
    have last := Laid.blanks (blanks_newLine level) hback (h item List.mem_cons_self)
    simpa [prettyItems] using LaidItems.last last
  | cons next items ih =>
    have later := ih next fun j mem => h j (List.mem_cons_of_mem _ mem)
    have first := (h item List.mem_cons_self).indent (blanks_newLine level)
    simpa [prettyItems] using LaidItems.more first later

theorem laid_prettyFields {depth : Nat} (hback : Blanks back) (field : String × Json)
    (fields : List (String × Json)) (h : ∀ f ∈ field :: fields, Laid depth f.2 (prettyAt level f.2).toList) :
    LaidFields depth (field :: fields) ((prettyFields level (field :: fields)).toList ++ back) := by
  induction fields generalizing field with
  | nil =>
    have last := Laid.blanks blanks_space hback (h field List.mem_cons_self)
    simpa [prettyFields] using LaidFields.last (blanks_newLine level) blanks_nil last
  | cons next fields ih =>
    have later := ih next fun f mem => h f (List.mem_cons_of_mem _ mem)
    have first := (h field List.mem_cons_self).indent blanks_space
    simpa [prettyFields] using LaidFields.more (blanks_newLine level) blanks_nil first later

theorem Plain.laid_prettyAt {depth : Nat} {j : Json} (h : Plain depth j) (level : Nat) :
    Laid depth j (prettyAt level j).toList := by
  induction h generalizing level with
  | null => exact .null
  | bool b => exact .bool b
  | int low high => exact .int low high
  | str s => exact .str s
  | @arr depth items _ ih =>
    cases items with
    | nil => simpa [prettyAt] using Laid.noItems blanks_nil
    | cons item items =>
      have lines := laid_prettyItems (blanks_newLine level) item items fun j mem => ih j mem (level + 1)
      simpa [prettyAt] using Laid.items lines
  | @obj depth fields _ nodup ih =>
    cases fields with
    | nil => simpa [prettyAt] using Laid.noFields blanks_nil
    | cons field fields =>
      have lines := laid_prettyFields (blanks_newLine level) field fields fun f mem => ih f mem (level + 1)
      simpa [prettyAt] using Laid.fields lines nodup

/-- What is written over several lines is a text of the value. -/
theorem Plain.laid_pretty {depth : Nat} {j : Json} (h : Plain depth j) : Laid depth j (pretty j).toList :=
  h.laid_prettyAt 0

end ChainIndex.Json
