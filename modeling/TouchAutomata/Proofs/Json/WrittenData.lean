import TouchAutomata.Proofs.Json.WrittenNumbers
import TouchAutomata.Proofs.Json.WrittenStrings
import Mathlib.Data.List.TakeWhile

/-!
# Data that was written

Data whose numbers are all integers is read back from its text in either style (`read_write`). The
parts of a list and of a record are read one after the other (`readItems_itemsText`,
`readFields_fieldsText`), each up to the comma or the bracket behind it, and neither of these goes
on with a number. What the reader spends on a part is at most two calls for each of its characters,
so the bound on the calls is never met.
-/

set_option autoImplicit false

namespace TouchAutomata.Json

variable {style : Style} {depth calls : Nat} {c : Char} {cs rest : List Char}

/-- Data whose numbers are all integers. -/
inductive Plain : Data → Prop
  | null : Plain .null
  | boolean (value : Bool) : Plain (.boolean value)
  | integer (n : Int) : Plain (.integer n)
  | string (text : Option String) : Plain (.string text)
  | list {items : List Data} (each : ∀ item ∈ items, Plain item) : Plain (.list items)
  | record {fields : List (Option String × Data)} (each : ∀ field ∈ fields, Plain field.2) :
      Plain (.record fields)

namespace Plain

/-- A number of 32 bits is an integer. -/
theorem ofWord (w : UInt32) : Plain (.ofWord w) := .integer _

/-- A natural number is an integer. -/
theorem ofNat (n : Nat) : Plain (.ofNat n) := .integer _

/-- A signed number is an integer. -/
theorem ofSigned (n : Int32) : Plain (.ofSigned n) := .integer _

/-- A text has no number. -/
theorem ofText (s : String) : Plain (.ofText s) := .string _

/-- A list is plain if its items are. -/
theorem listMap {α : Type} {f : α → Data} (each : ∀ x, Plain (f x)) (xs : List α) :
    Plain (.list (xs.map f)) := by
  apply list
  intro item hitem
  obtain ⟨x, -, rfl⟩ := List.mem_map.mp hitem
  exact each x

/-- A record is plain if its fields are. -/
theorem ofFields {fields : List (String × Data)} (each : ∀ field ∈ fields, Plain field.2) :
    Plain (.ofFields fields) := by
  apply record
  intro field hfield
  obtain ⟨f, hf, rfl⟩ := List.mem_map.mp hfield
  exact each f hf

/-- Items that have values make a list that has one. -/
theorem areReadable_of_each {items : List Data} (each : ∀ d ∈ items, d.isReadable = true) :
    Data.areReadable items = true := by
  induction items with
  | nil => rfl
  | cons item items ih =>
    rw [Data.areReadable, Bool.and_eq_true]
    exact ⟨each item (by simp), ih fun d hd => each d (List.mem_cons_of_mem _ hd)⟩

/-- Fields that have values make a record that has one. -/
theorem areFieldsReadable_of_each {fields : List (Option String × Data)}
    (each : ∀ f ∈ fields, f.2.isReadable = true) : Data.areFieldsReadable fields = true := by
  induction fields with
  | nil => rfl
  | cons field fields ih =>
    rw [Data.areFieldsReadable, Bool.and_eq_true]
    exact ⟨each field (by simp), ih fun f hf => each f (List.mem_cons_of_mem _ hf)⟩

/-- Every number in plain data has a value. -/
theorem isReadable {d : Data} (plain : Plain d) : d.isReadable = true := by
  induction plain with
  | null | boolean | integer | string => rfl
  | list _ ih => exact areReadable_of_each ih
  | record _ ih => exact areFieldsReadable_of_each ih

end Plain

/-! ## Blanks -/

/-- Whatever the style is, only blanks stand between two parts. -/
theorem isBlank_of_mem_gap (hc : c ∈ style.gap depth) : isBlank c = true := by
  cases style with
  | compact => simp [Style.gap] at hc
  | indented =>
    simp only [Style.gap, List.mem_cons, List.mem_replicate] at hc
    rcases hc with rfl | ⟨-, rfl⟩ <;> rfl

/-- Blanks in front are passed over. -/
theorem skipBlanks_append (blanks : ∀ c ∈ cs, isBlank c = true) :
    skipBlanks (cs ++ rest) = skipBlanks rest :=
  List.dropWhile_append_of_pos blanks

/-- What stands between two parts is passed over. -/
theorem skipBlanks_gap (style : Style) (depth : Nat) (cs : List Char) :
    skipBlanks (style.gap depth ++ cs) = skipBlanks cs :=
  skipBlanks_append fun _ => isBlank_of_mem_gap

/-- Nothing is passed over in front of a character that is no blank. -/
theorem skipBlanks_cons (hc : isBlank c = false) : skipBlanks (c :: cs) = c :: cs := by
  simp [skipBlanks, hc]

/-- Blanks in front of data do not matter. -/
theorem readData_blanks (blanks : ∀ c ∈ cs, isBlank c = true) :
    readData calls (cs ++ rest) = readData calls rest := by
  cases calls with
  | zero => rfl
  | succ calls => rw [readData, readData, skipBlanks_append blanks]

/-- What stands in front of a part does not matter. -/
theorem readData_gap (style : Style) (depth calls : Nat) (cs : List Char) :
    readData calls (style.gap depth ++ cs) = readData calls cs :=
  readData_blanks fun _ => isBlank_of_mem_gap

/-- Data does not begin with a closing bracket. -/
theorem skipBlanks_ne_of_readData {read : Data × List Char} (h : readData calls cs = some read) :
    skipBlanks cs ≠ ']' :: rest := by
  intro hcs
  cases calls with
  | zero => simp [readData] at h
  | succ calls => simp [readData, hcs, readWord] at h

/-- Neither a comma, a bracket nor a brace goes on with a number. -/
theorem endsNumber_mark (hc : c = ',' ∨ c = ']' ∨ c = '\x7d') : EndsNumber (c :: rest) := by
  apply endsNumber_cons <;> rcases hc with rfl | rfl | rfl <;> decide

/-- Neither a comma, a bracket nor a brace goes on with a number, be it behind a gap. -/
theorem endsNumber_gap (hc : c = ',' ∨ c = ']' ∨ c = '\x7d') :
    EndsNumber (style.gap depth ++ c :: rest) := by
  cases style with
  | compact => exact endsNumber_mark hc
  | indented => exact endsNumber_cons rfl (by decide) (by decide) (by decide) _

/-! ## Lists and records -/

/-- A piece of data is read back at some depth, by at most two calls for a character. -/
def ReadsBack (style : Style) (depth : Nat) (d : Data) : Prop :=
  ∀ calls rest, 2 * (write style depth d).length ≤ calls → EndsNumber rest →
    readData (calls + 1) (write style depth d ++ rest) = some (d, rest)

/-- The items of a list, with what stands before the first. -/
def itemsText (style : Style) (depth : Nat) (item : Data) (items : List Data) : List Char :=
  style.gap depth ++ write style depth item ++ writeItems style depth items

/-- Items that follow others begin with a comma. -/
theorem writeItems_cons (style : Style) (depth : Nat) (item : Data) (items : List Data) :
    writeItems style depth (item :: items) = ',' :: itemsText style depth item items := by
  simp [writeItems, itemsText]

/-- A list with items has them between its brackets. -/
theorem write_list_cons (style : Style) (depth : Nat) (item : Data) (items : List Data) :
    write style depth (.list (item :: items)) =
      '[' :: itemsText style (depth + 1) item items ++ style.gap depth ++ [']'] := by
  simp [write, itemsText]

/-- Items that are read back one by one are read back up to the closing bracket. -/
theorem readItems_itemsText (outer : Nat) (item : Data) (items : List Data)
    (each : ∀ d ∈ item :: items, ReadsBack style depth d)
    (enough : 2 * (itemsText style depth item items).length + 2 ≤ calls) :
    readItems calls (itemsText style depth item items ++ (style.gap outer ++ ']' :: rest)) =
      some (item :: items, rest) := by
  induction items generalizing item calls with
  | nil =>
    obtain ⟨calls, rfl⟩ : ∃ n, calls = n + 2 := ⟨calls - 2, by omega⟩
    have hitem := each item (by simp) calls (style.gap outer ++ ']' :: rest)
      (by simp [itemsText] at enough; omega) (endsNumber_gap (.inr (.inl rfl)))
    simp only [itemsText, writeItems, List.append_nil, List.append_assoc]
    rw [readItems, readData_gap, hitem]
    simp only [skipBlanks_gap, skipBlanks_cons (show isBlank ']' = false from rfl)]
  | cons next items ih =>
    obtain ⟨calls, rfl⟩ : ∃ n, calls = n + 2 := ⟨calls - 2, by omega⟩
    simp only [itemsText, writeItems_cons, List.length_append, List.length_cons] at enough
    have hitem := each item (by simp) calls
      (',' :: itemsText style depth next items ++ (style.gap outer ++ ']' :: rest))
      (by omega) (endsNumber_mark (.inl rfl))
    have hnext : readItems (calls + 1)
        (itemsText style depth next items ++ (style.gap outer ++ ']' :: rest)) =
          some (next :: items, rest) := by
      apply ih next fun d hd => each d (List.mem_cons_of_mem _ hd)
      simp only [itemsText, List.length_append]
      omega
    rw [itemsText, writeItems_cons, List.append_assoc, List.append_assoc, readItems, readData_gap,
      hitem]
    simp only [List.cons_append, skipBlanks_cons (show isBlank ',' = false from rfl), hnext,
      Option.map_some]

/-- A field with its name. -/
def fieldText (style : Style) (depth : Nat) (field : Option String × Data) : List Char :=
  quoted field.1 ++ style.colon ++ write style depth field.2

/-- The fields of a record, with what stands before the first. -/
def fieldsText (style : Style) (depth : Nat) (field : Option String × Data)
    (fields : List (Option String × Data)) : List Char :=
  style.gap depth ++ fieldText style depth field ++ writeFields style depth fields

/-- Fields that follow others begin with a comma. -/
theorem writeFields_cons (style : Style) (depth : Nat) (field : Option String × Data)
    (fields : List (Option String × Data)) :
    writeFields style depth (field :: fields) = ',' :: fieldsText style depth field fields := by
  simp [writeFields, fieldsText, fieldText]

/-- A record with fields has them between its braces. -/
theorem write_record_cons (style : Style) (depth : Nat) (field : Option String × Data)
    (fields : List (Option String × Data)) :
    write style depth (.record (field :: fields)) =
      '\x7b' :: fieldsText style (depth + 1) field fields ++ style.gap depth ++ ['\x7d'] := by
  simp [write, fieldsText, fieldText]

/-- A colon is followed by blanks, if by anything. -/
theorem exists_colon (style : Style) :
    ∃ blanks, style.colon = ':' :: blanks ∧ ∀ c ∈ blanks, isBlank c = true := by
  cases style with
  | compact => exact ⟨[], rfl, by simp⟩
  | indented => exact ⟨[' '], rfl, by simp [isBlank]⟩

section

variable {field : Option String × Data} {fields : List (Option String × Data)}
  {next more after : List Char}
  (hvalue : readData calls (write style depth field.2 ++ rest) = some (field.2, next))

include hvalue

/-- A field in front of the closing brace is the last. -/
theorem readFields_of_brace (hnext : skipBlanks next = '\x7d' :: after) :
    readFields (calls + 1) (style.gap depth ++ (fieldText style depth field ++ rest)) =
      some ([field], after) := by
  obtain ⟨blanks, hcolon, hblanks⟩ := exists_colon style
  rw [readFields, skipBlanks_gap, fieldText, quoted_eq_cons, hcolon]
  simp only [List.cons_append, List.append_assoc,
    skipBlanks_cons (show isBlank '"' = false from rfl), readString_quoted,
    skipBlanks_cons (show isBlank ':' = false from rfl), readData_blanks hblanks, hvalue, hnext]

/-- A field in front of a comma is followed by more fields. -/
theorem readFields_of_comma (hnext : skipBlanks next = ',' :: more)
    (hmore : readFields calls more = some (fields, after)) :
    readFields (calls + 1) (style.gap depth ++ (fieldText style depth field ++ rest)) =
      some (field :: fields, after) := by
  obtain ⟨blanks, hcolon, hblanks⟩ := exists_colon style
  rw [readFields, skipBlanks_gap, fieldText, quoted_eq_cons, hcolon]
  simp only [List.cons_append, List.append_assoc,
    skipBlanks_cons (show isBlank '"' = false from rfl), readString_quoted,
    skipBlanks_cons (show isBlank ':' = false from rfl), readData_blanks hblanks, hvalue, hnext,
    hmore, Option.map_some]

end

/-- Fields whose values are read back one by one are read back up to the closing brace. -/
theorem readFields_fieldsText (outer : Nat) (field : Option String × Data)
    (fields : List (Option String × Data))
    (each : ∀ f ∈ field :: fields, ReadsBack style depth f.2)
    (enough : 2 * (fieldsText style depth field fields).length + 2 ≤ calls) :
    readFields calls (fieldsText style depth field fields ++ (style.gap outer ++ '\x7d' :: rest)) =
      some (field :: fields, rest) := by
  induction fields generalizing field calls with
  | nil =>
    obtain ⟨calls, rfl⟩ : ∃ n, calls = n + 2 := ⟨calls - 2, by omega⟩
    have hvalue := each field (by simp) calls (style.gap outer ++ '\x7d' :: rest)
      (by simp [fieldsText, fieldText] at enough; omega) (endsNumber_gap (.inr (.inr rfl)))
    simp only [fieldsText, writeFields, List.append_nil, List.append_assoc]
    apply readFields_of_brace hvalue
    rw [skipBlanks_gap, skipBlanks_cons rfl]
  | cons next fields ih =>
    obtain ⟨calls, rfl⟩ : ∃ n, calls = n + 2 := ⟨calls - 2, by omega⟩
    simp only [fieldsText, fieldText, writeFields_cons, List.length_append, List.length_cons]
      at enough
    have hvalue := each field (by simp) calls
      (',' :: fieldsText style depth next fields ++ (style.gap outer ++ '\x7d' :: rest))
      (by omega) (endsNumber_mark (.inl rfl))
    have hnext : readFields (calls + 1)
        (fieldsText style depth next fields ++ (style.gap outer ++ '\x7d' :: rest)) =
          some (next :: fields, rest) := by
      apply ih next fun f hf => each f (List.mem_cons_of_mem _ hf)
      simp only [fieldsText, fieldText, List.length_append]
      omega
    rw [fieldsText, writeFields_cons, List.append_assoc, List.append_assoc]
    exact readFields_of_comma hvalue (skipBlanks_cons rfl) hnext

/-! ## Data -/

/-- A written integer is read back as data. -/
theorem readData_integer (n : Int) (ends : EndsNumber rest) :
    readData (calls + 1) (digits n ++ rest) = some (.integer n, rest) := by
  obtain ⟨c, ds, hdigits, hc⟩ := exists_digits_eq_cons n
  have hother : ∀ d : Char, d ≠ '-' → d.isDigit = false → c ≠ d := by
    rintro d hsign hdigit rfl
    rcases hc with rfl | hc
    · exact hsign rfl
    · simp [hc] at hdigit
  have hblank : isBlank c = false := by
    simp only [isBlank, Bool.or_eq_false_iff, decide_eq_false_iff_not]
    exact ⟨⟨⟨hother _ (by decide) rfl, hother _ (by decide) rfl⟩, hother _ (by decide) rfl⟩,
      hother _ (by decide) rfl⟩
  have hnumber := readNumber_digits n ends
  rw [hdigits, List.cons_append] at hnumber ⊢
  rw [readData, skipBlanks_cons hblank]
  simp only [hother '"' (by decide) rfl, hother '[' (by decide) rfl, hother '\x7b' (by decide) rfl,
    hc, if_true, if_false, hnumber]

/-- A written string is read back as data. -/
theorem readData_quoted (t : Option String) :
    readData (calls + 1) (quoted t ++ rest) = some (.string t, rest) := by
  rw [quoted_eq_cons, List.cons_append, readData,
    skipBlanks_cons (show isBlank '"' = false from rfl)]
  simp only [if_true, readString_quoted, Option.map_some]

/-- A list is read back if its items are, one level deeper. -/
theorem readsBack_list {items : List Data} (each : ∀ d ∈ items, ReadsBack style (depth + 1) d) :
    ReadsBack style depth (.list items) := by
  intro calls rest enough _
  cases items with
  | nil => simp [write, readData, skipBlanks, isBlank]
  | cons item items =>
    rw [write_list_cons] at enough ⊢
    simp only [List.length_append, List.length_cons, List.length_nil] at enough
    have hitems : readItems calls (itemsText style (depth + 1) item items ++
        (style.gap depth ++ ']' :: rest)) = some (item :: items, rest) :=
      readItems_itemsText depth item items each (by omega)
    -- The list is not taken for an empty one, since an item stands behind its bracket.
    have hopen : ∀ cs, skipBlanks (itemsText style (depth + 1) item items ++
        (style.gap depth ++ ']' :: rest)) ≠ ']' :: cs := by
      intro cs
      obtain ⟨n, rfl⟩ : ∃ n, calls = n + 1 := ⟨calls - 1, by omega⟩
      rw [readItems] at hitems
      cases hread : readData n (itemsText style (depth + 1) item items ++
          (style.gap depth ++ ']' :: rest)) with
      | none => simp [hread] at hitems
      | some read => exact skipBlanks_ne_of_readData hread
    simp only [List.cons_append, List.append_assoc, List.nil_append]
    rw [readData, skipBlanks_cons (show isBlank '[' = false from rfl)]
    simp [hitems]

/-- A record is read back if the values of its fields are, one level deeper. -/
theorem readsBack_record {fields : List (Option String × Data)}
    (each : ∀ f ∈ fields, ReadsBack style (depth + 1) f.2) :
    ReadsBack style depth (.record fields) := by
  intro calls rest enough _
  cases fields with
  | nil => simp [write, readData, skipBlanks, isBlank]
  | cons field fields =>
    rw [write_record_cons] at enough ⊢
    simp only [List.length_append, List.length_cons, List.length_nil] at enough
    have hfields : readFields calls (fieldsText style (depth + 1) field fields ++
        (style.gap depth ++ '\x7d' :: rest)) = some (field :: fields, rest) :=
      readFields_fieldsText depth field fields each (by omega)
    have hopen : ∀ cs, skipBlanks (fieldsText style (depth + 1) field fields ++
        (style.gap depth ++ '\x7d' :: rest)) ≠ '\x7d' :: cs := by
      intro cs
      simp only [fieldsText, fieldText, quoted_eq_cons, List.append_assoc, List.cons_append,
        skipBlanks_gap, skipBlanks_cons (show isBlank '"' = false from rfl)]
      simp
    simp only [List.cons_append, List.append_assoc, List.nil_append]
    rw [readData, skipBlanks_cons (show isBlank '\x7b' = false from rfl)]
    simp [hfields]

/-- Written data is read back at any depth. -/
theorem readsBack_of_plain {d : Data} (plain : Plain d) : ReadsBack style depth d := by
  induction plain generalizing depth with
  | null =>
    intro calls rest _ _
    simp [write, readData, skipBlanks, isBlank, readWord]
  | boolean value =>
    intro calls rest _ _
    cases value <;> simp [write, readData, skipBlanks, isBlank, readWord]
  | integer n =>
    intro calls rest _ ends
    rw [write, toList_toString_int]
    exact readData_integer n ends
  | string text =>
    intro calls rest _ _
    rw [write]
    exact readData_quoted text
  | list _ ih => exact readsBack_list fun d hd => ih d hd
  | record _ ih => exact readsBack_record fun f hf => ih f hf

/-- Blanks do not go on with a number. -/
theorem endsNumber_of_blanks (blanks : ∀ c ∈ cs, isBlank c = true) : EndsNumber cs := by
  intro c hc
  have hblank : isBlank c = true := blanks c (List.mem_of_mem_head? hc)
  simp only [isBlank, Bool.or_eq_true, decide_eq_true_eq] at hblank
  rcases hblank with ((rfl | rfl) | rfl) | rfl <;> decide

/-- A document of plain data is read back, in either style and with blanks behind it. -/
theorem read_write {d : Data} (plain : Plain d) (blanks : ∀ c ∈ cs, isBlank c = true) :
    read (String.ofList (write style 0 d ++ cs)) = some d := by
  have hread : readData (2 * (write style 0 d ++ cs).length + 2) (write style 0 d ++ cs) =
      some (d, cs) := by
    apply readsBack_of_plain plain
    · rw [List.length_append]
      omega
    · exact endsNumber_of_blanks blanks
  have hnone : skipBlanks cs = [] := List.dropWhile_eq_nil_iff.mpr blanks
  simp only [read, String.length_ofList, String.toList_ofList, hread, hnone, if_true]

end TouchAutomata.Json
