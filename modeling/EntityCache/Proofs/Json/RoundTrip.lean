import EntityCache.Proofs.Json.Double

/-!
# JSON values are read back from their text

The round trip has two halves.  The text of a value is read as the document of the value
(`readValue_print`), at any depth: the printer writes no blanks, so the reader finds at every place
the character that it looks for, and it reads every number to its end.  What that document stands
for is a matter of the levels that a value may have: it stands for some value if and only if there
are not too many (`isSome_value?_document`), and for the value itself if its numbers are readable
and its objects list their fields in order (`value?_document`).

Each induction is on the value, together with its items and its fields.  The fuel of the reader is
counted against the length of the text: a value takes two steps a character at most, one to enter
a list and one for the first of its elements.
-/

namespace EntityCache

namespace Json

/-! ## Readable values -/

/-- A number that a reader gives back: an integer of a signed or an unsigned word, or a double whose
text reads back. -/
def Number.Readable : Number → Prop
  | .integer n => -2 ^ 63 ≤ n ∧ n < 2 ^ 64
  | .double d => (Number.double d).ReadsBack

/-- A readable number is read back from its text. -/
theorem Number.Readable.readsBack {n : Number} (h : n.Readable) : n.ReadsBack := by
  cases n with
  | integer n => exact readsBack_integer h.1 h.2
  | double d => exact h

mutual

/-- Every number in the value is readable. -/
def NumbersReadable : Json → Prop
  | null | bool _ | string _ => True
  | number n => n.Readable
  | array items => NumbersReadableItems items
  | object fields => NumbersReadableFields fields

/-- Every number in the values of the list is readable. -/
def NumbersReadableItems : List Json → Prop
  | [] => True
  | v :: rest => NumbersReadable v ∧ NumbersReadableItems rest

/-- Every number in the values of the fields is readable. -/
def NumbersReadableFields : List (String × Json) → Prop
  | [] => True
  | (_, v) :: rest => NumbersReadable v ∧ NumbersReadableFields rest

end

/-- An integer of a signed or an unsigned word, or any double. -/
def Number.Fits : Number → Prop
  | .integer n => -2 ^ 63 ≤ n ∧ n < 2 ^ 64
  | .double _ => True

/-- A readable number is in the range of its kind. -/
theorem Number.Readable.fits {n : Number} (h : n.Readable) : n.Fits := by
  cases n with
  | integer n => exact h
  | double d => trivial

/-- A number that fits is read to the end of its text. -/
theorem Number.Fits.legible {n : Number} (h : n.Fits) : n.Legible := by
  cases n with
  | integer n => exact (readsBack_integer h.1 h.2).legible
  | double d => exact legible_double d

mutual

/-- Every integer in the value fits a word. -/
def NumbersFit : Json → Prop
  | null | bool _ | string _ => True
  | number n => n.Fits
  | array items => NumbersFitItems items
  | object fields => NumbersFitFields fields

/-- Every integer in the values of the list fits a word. -/
def NumbersFitItems : List Json → Prop
  | [] => True
  | v :: rest => NumbersFit v ∧ NumbersFitItems rest

/-- Every integer in the values of the fields fits a word. -/
def NumbersFitFields : List (String × Json) → Prop
  | [] => True
  | (_, v) :: rest => NumbersFit v ∧ NumbersFitFields rest

end

mutual

/-- Readable numbers fit, in a value of any kind. -/
theorem NumbersReadable.fit : ∀ {v : Json}, v.NumbersReadable → v.NumbersFit
  | .null, _ | .bool _, _ | .string _, _ => by simp only [NumbersFit]
  | .number n, h => by
    simp only [NumbersReadable, NumbersFit] at h ⊢
    exact h.fits
  | .array items, h => by
    simp only [NumbersReadable, NumbersFit] at h ⊢
    exact NumbersReadableItems.fit h
  | .object fields, h => by
    simp only [NumbersReadable, NumbersFit] at h ⊢
    exact NumbersReadableFields.fit h

/-- Readable numbers fit, in the items of an array. -/
theorem NumbersReadableItems.fit :
    ∀ {items : List Json}, NumbersReadableItems items → NumbersFitItems items
  | [], _ => trivial
  | _ :: _, h => ⟨h.1.fit, NumbersReadableItems.fit h.2⟩

/-- Readable numbers fit, in the fields of an object. -/
theorem NumbersReadableFields.fit :
    ∀ {fields : List (String × Json)}, NumbersReadableFields fields → NumbersFitFields fields
  | [], _ => trivial
  | (_, _) :: _, h => ⟨h.1.fit, NumbersReadableFields.fit h.2⟩

end

/-! ## The document of a value -/

/-- The parts of a number, as they are read from its text. -/
def Number.parts (n : Number) : NumberText := ((readNumber n.print).map (·.1)).getD default

/-- The text of a number that fits is read as its parts, to the end. -/
theorem Number.Fits.readNumber_print {n : Number} (h : n.Fits) :
    readNumber n.print = some (n.parts, []) := by
  obtain ⟨text, v, hread, -⟩ := h.legible
  rw [parts, hread]
  rfl

/-- The parts of a number that fits have a value. -/
theorem Number.Fits.isSome_value? {n : Number} (h : n.Fits) : n.parts.value?.isSome := by
  obtain ⟨text, v, hread, hvalue⟩ := h.legible
  rw [parts, hread, Option.map_some, Option.getD_some, hvalue]
  rfl

/-- The parts of a readable number have the number itself as their value. -/
theorem Number.Readable.value?_parts {n : Number} (h : n.Readable) : n.parts.value? = some n := by
  obtain ⟨text, hread, hvalue⟩ := h.readsBack
  rw [parts, hread, Option.map_some, Option.getD_some, hvalue]

/-- A number that fits and that its parts stand for is readable. -/
theorem Number.Fits.readable {n : Number} (h : n.Fits) (hvalue : n.parts.value? = some n) :
    n.Readable := by
  cases n with
  | integer n => exact h
  | double d => exact ⟨_, h.readNumber_print, hvalue⟩

mutual

/-- The document that the text of a value holds. -/
def document : Json → Document
  | null => .null
  | bool b => .bool b
  | number n => .number n.parts
  | string s => .string (some s)
  | array items => .array (documents items)
  | object fields => .object (fieldDocuments fields)

/-- The documents of the items of an array. -/
def documents : List Json → List Document
  | [] => []
  | v :: rest => document v :: documents rest

/-- The names and documents of the fields of an object. -/
def fieldDocuments : List (String × Json) → List (Option String × Document)
  | [] => []
  | (name, v) :: rest => (some name, document v) :: fieldDocuments rest

end

/-! ## The first character of a text -/

/-- A character that the text of a value can start with. -/
def StartsValue (c : Char) : Prop :=
  c = '"' ∨ c = '[' ∨ c = '{' ∨ c = 'n' ∨ c = 't' ∨ c = 'f' ∨ c = '-' ∨ c.isDigit = true

/-- No value starts with a blank or a closing bracket. -/
theorem StartsValue.plain {c : Char} (h : StartsValue c) :
    isBlank c = false ∧ c ≠ ']' ∧ c ≠ '}' := by
  rcases h with rfl | rfl | rfl | rfl | rfl | rfl | rfl | h
  case inr.inr.inr.inr.inr.inr.inr =>
    refine ⟨?_, ?_, ?_⟩
    · simp only [isBlank, Bool.or_eq_false_iff, beq_eq_false_iff_ne]
      refine ⟨⟨⟨?_, ?_⟩, ?_⟩, ?_⟩ <;> (rintro rfl; revert h; decide)
    all_goals (rintro rfl; revert h; decide)
  all_goals decide

/-- A number starts with a sign or a digit. -/
theorem readNumber_head {cs : List Char} {r : NumberText × List Char}
    (h : readNumber cs = some r) : ∃ c tail, cs = c :: tail ∧ (c = '-' ∨ c.isDigit = true) := by
  cases cs with
  | nil => simp [readNumber, readWhole, readDigits] at h
  | cons c tail =>
    refine ⟨c, tail, rfl, ?_⟩
    by_contra hc
    -- neither a sign nor a digit: there is no part before the point
    simp only [not_or, Bool.not_eq_true] at hc
    have hzero : c ≠ '0' := by rintro rfl; exact absurd hc.2 (by decide)
    have hnone : readWhole (c :: tail) = none := by
      rw [readWhole.eq_def]
      split
      · simp_all
      · simp [readDigits, hc.2]
    simp [readNumber, hc.1, hnone] at h

/-- The text of a value starts with a character of a value. -/
theorem print_head {v : Json} (h : v.NumbersFit) :
    ∃ c tail, v.print = c :: tail ∧ StartsValue c := by
  match v with
  | null => exact ⟨'n', "ull".toList, rfl, by simp [StartsValue]⟩
  | bool true => exact ⟨'t', "rue".toList, rfl, by simp [StartsValue]⟩
  | bool false => exact ⟨'f', "alse".toList, rfl, by simp [StartsValue]⟩
  | string s => exact ⟨_, _, by rw [print, printString], by simp [StartsValue]⟩
  | array items => exact ⟨_, _, by rw [print], by simp [StartsValue]⟩
  | object fields => exact ⟨_, _, by rw [print], by simp [StartsValue]⟩
  | number n =>
    have hread := Number.Fits.readNumber_print (by simpa only [NumbersFit] using h)
    obtain ⟨c, tail, hcs, hc⟩ := readNumber_head hread
    refine ⟨c, tail, by rw [print, hcs], ?_⟩
    rcases hc with hc | hc <;> simp [StartsValue, hc]

/-- There is nothing to skip before a character that is no blank. -/
theorem skipBlanks_cons {c : Char} (h : isBlank c = false) (rest : List Char) :
    skipBlanks (c :: rest) = c :: rest := by
  simp [skipBlanks, h]

/-- A field behind all fields that are there goes to the end. -/
theorem insertField_last {fields : List (String × Json)} {name : String} (value : Json)
    (h : ∀ other ∈ fields.map (·.1), other < name) :
    insertField name value fields = fields ++ [(name, value)] := by
  induction fields with
  | nil => rfl
  | cons field rest ih =>
    obtain ⟨other, kept⟩ := field
    have hlt : compare name other = .gt := by
      have hother := h other (by simp)
      exact compare_gt_iff_gt.2 hother
    rw [insertField, hlt, ih fun other hother => h other (by simp [hother])]
    rfl

/-- Fields in the order of their names are kept as they are. -/
theorem ofFields_eq_self {fields : List (String × Json)}
    (h : (fields.map (·.1)).Pairwise (· < ·)) : ofFields fields = fields := by
  -- the fields that have been put in order are all before those that follow
  have hfold (before : List (String × Json)) (after : List (String × Json))
      (h : ((before ++ after).map (·.1)).Pairwise (· < ·)) :
      after.foldl (fun ordered field => insertField field.1 field.2 ordered) before =
        before ++ after := by
    induction after generalizing before with
    | nil => simp
    | cons field after ih =>
      have hlast : insertField field.1 field.2 before = before ++ [field] :=
        insertField_last field.2 fun other hother => by
          rw [List.map_append, List.pairwise_append] at h
          exact h.2.2 other hother field.1 (by simp)
      rw [List.foldl_cons, hlast, ih _ (by simpa using h), List.append_assoc]
      rfl
  exact hfold [] fields (by simpa using h)

end Json

namespace Document

open Json

/-! ## One step of the reader -/

/-- What is read as a number is read as a value. -/
theorem readValue_number {fuel : Nat} {cs : List Char} {r : NumberText × List Char}
    (h : readNumber cs = some r) : readValue (fuel + 1) cs = some (.number r.1, r.2) := by
  obtain ⟨c, tail, rfl, hc⟩ := readNumber_head h
  have hother : c ≠ '"' ∧ c ≠ '[' ∧ c ≠ '{' ∧ c ≠ 'n' ∧ c ≠ 't' ∧ c ≠ 'f' := by
    rcases hc with rfl | hc
    · decide
    · refine ⟨?_, ?_, ?_, ?_, ?_, ?_⟩ <;> (rintro rfl; revert hc; decide)
  rw [readValue.eq_def]
  split <;> simp_all

/-- The text of a list of values starts with a value. -/
theorem printItems_head {v : Json} (h : v.NumbersFit) (items : List Json) :
    ∃ c tail, printItems (v :: items) = c :: tail ∧ StartsValue c := by
  obtain ⟨c, tail, hcs, hc⟩ := print_head h
  cases items with
  | nil => exact ⟨c, tail, by rw [printItems, hcs], hc⟩
  | cons w items => exact ⟨c, _, by rw [printItems, hcs, List.cons_append], hc⟩

/-- The text of a list of fields starts with a quote. -/
theorem printFields_head (field : String × Json) (fields : List (String × Json)) :
    ∃ tail, printFields (field :: fields) = '"' :: tail := by
  cases fields with
  | nil => exact ⟨_, by rw [printFields, printString, List.cons_append]⟩
  | cons other fields => exact ⟨_, by rw [printFields, printString, List.cons_append]⟩

/-- An opening bracket is followed by items. -/
theorem readValue_array {fuel : Nat} {c : Char} {cs tail : List Char} (hcs : cs = c :: tail)
    (hc : StartsValue c) : readValue (fuel + 1) ('[' :: cs) =
      (readItems fuel cs).map fun (items, rest) => (.array items, rest) := by
  have hskip : skipBlanks cs = cs := by rw [hcs, skipBlanks_cons hc.plain.1]
  simp only [readValue, hskip]
  split
  case h_1 => exact absurd (List.cons.inj hcs).1.symm hc.plain.2.1
  case h_2 => rfl

/-- An opening brace is followed by fields. -/
theorem readValue_object {fuel : Nat} (tail : List Char) :
    readValue (fuel + 1) ('{' :: '"' :: tail) =
      (readFields fuel ('"' :: tail)).map fun (fields, rest) => (.object fields, rest) := by
  rw [readValue, skipBlanks_cons (by decide)]
  rfl

/-- An item is followed by a comma and more items. -/
theorem readItems_cons {fuel : Nat} {cs more tail : List Char} {c : Char} {item : Document}
    (hitem : readValue fuel cs = some (item, ',' :: more)) (hmore : more = c :: tail)
    (hc : isBlank c = false) : readItems (fuel + 1) cs =
      (readItems fuel more).map fun (items, rest) => (item :: items, rest) := by
  have hskip : skipBlanks more = more := by rw [hmore, skipBlanks_cons hc]
  have hcomma : skipBlanks (',' :: more) = ',' :: more := skipBlanks_cons (by decide) more
  simp only [readItems, hitem, hcomma, hskip]

/-- The last field is followed by a closing brace. -/
theorem readFields_last {fuel : Nat} {name : String} {cs rest tail : List Char} {c : Char}
    {d : Document} (hcs : cs = c :: tail) (hc : isBlank c = false)
    (hvalue : readValue fuel cs = some (d, '}' :: rest)) :
    readFields (fuel + 1) (printString name ++ ':' :: cs) = some ([(some name, d)], rest) := by
  have hskip : skipBlanks cs = cs := by rw [hcs, skipBlanks_cons hc]
  have hcolon : skipBlanks (':' :: cs) = ':' :: cs := skipBlanks_cons (by decide) cs
  have hbrace : skipBlanks ('}' :: rest) = '}' :: rest := skipBlanks_cons (by decide) rest
  simp only [printString, List.cons_append, List.append_assoc, List.nil_append, readFields,
    readString_printed, hcolon, hskip, hvalue, hbrace]

/-- A field is followed by a comma and more fields. -/
theorem readFields_cons {fuel : Nat} {name : String} {cs more tail tail' : List Char} {c : Char}
    {d : Document} (hcs : cs = c :: tail) (hc : isBlank c = false)
    (hvalue : readValue fuel cs = some (d, ',' :: more)) (hmore : more = '"' :: tail') :
    readFields (fuel + 1) (printString name ++ ':' :: cs) =
      (readFields fuel more).map fun (fields, rest) => ((some name, d) :: fields, rest) := by
  have hskip : skipBlanks cs = cs := by rw [hcs, skipBlanks_cons hc]
  have hcolon : skipBlanks (':' :: cs) = ':' :: cs := skipBlanks_cons (by decide) cs
  have hcomma : skipBlanks (',' :: more) = ',' :: more := skipBlanks_cons (by decide) more
  have hskipMore : skipBlanks more = more := by rw [hmore, skipBlanks_cons (by decide)]
  simp only [printString, List.cons_append, List.append_assoc, List.nil_append, readFields,
    readString_printed, hcolon, hskip, hvalue, hcomma, hskipMore]

/-! ## A text is read as the document of its value -/

mutual

/-- The text of a value is read as its document: at the front of any text that does not go on with a
number, with enough fuel for two steps a character. -/
theorem readValue_print : ∀ (v : Json) {fuel : Nat} {rest : List Char}, v.NumbersFit →
    2 * v.print.length ≤ fuel → EndsNumber rest →
    readValue fuel (v.print ++ rest) = some (v.document, rest)
  | .null, fuel + 1, _, _, _, _ => rfl
  | .bool true, fuel + 1, _, _, _, _ => rfl
  | .bool false, fuel + 1, _, _, _, _ => rfl
  | .string s, fuel + 1, rest, _, _, _ => by
    simp [print, printString, document, readValue, readString_printed]
  | .number n, fuel + 1, rest, hn, _, hrest => by
    have hread := Number.Fits.readNumber_print (by simpa only [NumbersFit] using hn)
    rw [print, document, readValue_number (readNumber_append hrest hread), List.nil_append]
  | .array [], fuel + 1, _, _, _, _ => rfl
  | .array (v :: items), fuel + 1, rest, hn, hfuel, _ => by
    simp only [NumbersFit, print, List.length_cons, List.length_append, List.length_nil] at hn hfuel
    -- the bracket costs a step; what is left is enough for the items
    have hread := readItems_print v items rest hn (by omega : _ ≤ fuel)
    obtain ⟨c, tail, hcs, hc⟩ := printItems_head hn.1 items
    have hcs' : printItems (v :: items) ++ ']' :: rest = c :: (tail ++ ']' :: rest) := by
      rw [hcs, List.cons_append]
    rw [print, List.cons_append, List.append_assoc, List.singleton_append,
      readValue_array hcs' hc, hread, document]
    rfl
  | .object [], fuel + 1, _, _, _, _ => rfl
  | .object ((name, v) :: fields), fuel + 1, rest, hn, hfuel, _ => by
    simp only [NumbersFit, print, List.length_cons, List.length_append, List.length_nil] at hn hfuel
    have hread := readFields_print name v fields rest hn (by omega : _ ≤ fuel)
    obtain ⟨tail, hcs⟩ := printFields_head (name, v) fields
    rw [print, List.cons_append, List.append_assoc, List.singleton_append]
    rw [hcs, List.cons_append] at hread ⊢
    rw [readValue_object, hread, document]
    rfl
  | v, 0, _, hn, hfuel, _ => by
    -- every text has a character, so there is fuel for it
    obtain ⟨c, tail, hcs, -⟩ := print_head hn
    simp [hcs] at hfuel

/-- The items of an array are read up to the closing bracket. -/
theorem readItems_print : ∀ (v : Json) (items : List Json) (rest : List Char) {fuel : Nat},
    NumbersFitItems (v :: items) → 2 * (printItems (v :: items)).length + 1 ≤ fuel →
    readItems fuel (printItems (v :: items) ++ ']' :: rest) = some (documents (v :: items), rest)
  | _, _, _, 0, _, hfuel => by omega
  | v, [], rest, fuel + 1, hn, hfuel => by
    rw [printItems] at hfuel
    have hread := readValue_print v hn.1 (by omega : _ ≤ fuel)
      (endsNumber_cons (c := ']') (by simp) rest)
    rw [printItems, readItems, hread]
    rfl
  | v, w :: items, rest, fuel + 1, hn, hfuel => by
    -- each item takes at least its comma, so the fuel lasts for what is left
    simp only [printItems, List.length_append, List.length_cons] at hfuel
    have hread := readValue_print v hn.1 (by omega : _ ≤ fuel)
      (endsNumber_cons (c := ',') (by simp) (printItems (w :: items) ++ ']' :: rest))
    have hrest := readItems_print w items rest hn.2 (by omega : _ ≤ fuel)
    obtain ⟨c, tail, hcs, hc⟩ := printItems_head hn.2.1 items
    have hmore : printItems (w :: items) ++ ']' :: rest = c :: (tail ++ ']' :: rest) := by
      rw [hcs, List.cons_append]
    rw [printItems, List.append_assoc, List.cons_append, readItems_cons hread hmore hc.plain.1,
      hrest, documents]
    rfl

/-- The fields of an object are read up to the closing brace. -/
theorem readFields_print : ∀ (name : String) (v : Json) (fields : List (String × Json))
    (rest : List Char) {fuel : Nat}, NumbersFitFields ((name, v) :: fields) →
    2 * (printFields ((name, v) :: fields)).length + 1 ≤ fuel →
    readFields fuel (printFields ((name, v) :: fields) ++ '}' :: rest) =
      some (fieldDocuments ((name, v) :: fields), rest)
  | _, _, _, _, 0, _, hfuel => by omega
  | name, v, [], rest, fuel + 1, hn, hfuel => by
    simp only [printFields, List.length_append, List.length_cons] at hfuel
    have hread := readValue_print v hn.1 (by omega : _ ≤ fuel)
      (endsNumber_cons (c := '}') (by simp) rest)
    obtain ⟨c, tail, hcs, hc⟩ := print_head hn.1
    have hcs' : v.print ++ '}' :: rest = c :: (tail ++ '}' :: rest) := by
      rw [hcs, List.cons_append]
    rw [printFields, List.append_assoc, List.cons_append, readFields_last hcs' hc.plain.1 hread]
    rfl
  | name, v, (other, w) :: fields, rest, fuel + 1, hn, hfuel => by
    simp only [printFields, List.length_append, List.length_cons] at hfuel
    have hread := readValue_print v hn.1 (by omega : _ ≤ fuel)
      (endsNumber_cons (c := ',') (by simp) (printFields ((other, w) :: fields) ++ '}' :: rest))
    have hrest := readFields_print other w fields rest hn.2 (by omega : _ ≤ fuel)
    obtain ⟨c, tail, hcs, hc⟩ := print_head hn.1
    have hcs' : v.print ++ ',' :: (printFields ((other, w) :: fields) ++ '}' :: rest) =
        c :: (tail ++ ',' :: (printFields ((other, w) :: fields) ++ '}' :: rest)) := by
      rw [hcs, List.cons_append]
    -- after a comma the next field begins with its name, which is no blank
    obtain ⟨tail', hmore⟩ := printFields_head (other, w) fields
    have hmore' : printFields ((other, w) :: fields) ++ '}' :: rest =
        '"' :: (tail' ++ '}' :: rest) := by
      rw [hmore, List.cons_append]
    rw [printFields, List.append_assoc, List.cons_append, List.append_assoc, List.cons_append,
      readFields_cons hcs' hc.plain.1 hread hmore', hrest, fieldDocuments]
    rfl

end

/-- The text of a value holds its document, at any depth. -/
theorem read?_render_eq {v : Json} (hn : v.NumbersFit) : read? v.render = some v.document := by
  have hread := readValue_print v hn (by omega : _ ≤ 2 * v.print.length + 2) endsNumber_nil
  rw [List.append_nil] at hread
  obtain ⟨c, tail, hcs, hc⟩ := print_head hn
  have hskip : skipBlanks v.print = v.print := by rw [hcs, skipBlanks_cons hc.plain.1]
  simp only [read?, Json.render, String.toList_ofList, readChars?, hskip, hread]
  rfl

/-! ## What the document of a value stands for -/

mutual

/-- The document of a readable, ordered value of at most `levels` levels stands for the value. -/
theorem value?_document : ∀ (v : Json) {levels : Nat}, v.NumbersReadable → v.Ordered →
    v.depth ≤ levels → v.document.value? levels = some v
  | .null, _, _, _, _ | .bool _, _, _, _, _ | .string _, _, _, _, _ => by simp [document, value?]
  | .number n, _, hn, _, _ => by
    have hvalue := Number.Readable.value?_parts (by simpa only [NumbersReadable] using hn)
    rw [document, value?, hvalue, Option.map_some]
  | .array items, 0, _, _, hdepth => by simp [depth] at hdepth
  | .array items, levels + 1, hn, ho, hdepth => by
    simp only [NumbersReadable, Ordered, depth] at hn ho hdepth
    rw [document, value?, items?_documents items hn ho (by omega : _ ≤ levels), Option.map_some]
  | .object fields, 0, _, _, hdepth => by simp [depth] at hdepth
  | .object fields, levels + 1, hn, ho, hdepth => by
    simp only [NumbersReadable, Ordered, depth] at hn ho hdepth
    rw [document, value?, fields?_fieldDocuments fields hn ho.2 (by omega : _ ≤ levels),
      Option.map_some, ofFields_eq_self ho.1]

/-- Items are read back from their documents, one by one. -/
theorem items?_documents : ∀ (items : List Json) {levels : Nat}, NumbersReadableItems items →
    OrderedItems items → depthItems items ≤ levels →
    items? levels (documents items) = some items
  | [], _, _, _, _ => by rw [documents, items?]
  | v :: items, levels, hn, ho, hdepth => by
    simp only [depthItems] at hdepth
    rw [documents, items?, value?_document v hn.1 ho.1 (by omega : _ ≤ levels),
      items?_documents items hn.2 ho.2 (by omega : _ ≤ levels)]
    rfl

/-- Fields are read back from their documents, one by one. -/
theorem fields?_fieldDocuments : ∀ (fields : List (String × Json)) {levels : Nat},
    NumbersReadableFields fields → OrderedFields fields → depthFields fields ≤ levels →
    fields? levels (fieldDocuments fields) = some fields
  | [], _, _, _, _ => by rw [fieldDocuments, fields?]
  | (name, v) :: fields, levels, hn, ho, hdepth => by
    simp only [depthFields] at hdepth
    rw [fieldDocuments, fields?.eq_def]
    simp only [value?_document v hn.1 ho.1 (by omega : _ ≤ levels),
      fields?_fieldDocuments fields hn.2 ho.2 (by omega : _ ≤ levels), Option.map_some]

end

mutual

/-- The document of a value stands for some value if and only if there are levels enough. -/
theorem isSome_value?_document : ∀ (v : Json) {levels : Nat}, v.NumbersFit →
    ((v.document.value? levels).isSome ↔ v.depth ≤ levels)
  | .null, _, _ | .bool _, _, _ | .string _, _, _ => by simp [document, value?, depth]
  | .number n, _, hn => by
    have hvalue := Number.Fits.isSome_value? (by simpa only [NumbersFit] using hn)
    rw [document, value?, Option.isSome_map, hvalue, depth]
    simp
  | .array items, 0, _ | .object fields, 0, _ => by simp [document, value?, depth]
  | .array items, levels + 1, hn => by
    simp only [NumbersFit] at hn
    rw [document, value?, Option.isSome_map, isSome_items?_documents items hn, depth]
    omega
  | .object fields, levels + 1, hn => by
    simp only [NumbersFit] at hn
    rw [document, value?, Option.isSome_map, isSome_fields?_fieldDocuments fields hn, depth]
    omega

/-- The documents of items are read exactly if none is too deep. -/
theorem isSome_items?_documents : ∀ (items : List Json) {levels : Nat}, NumbersFitItems items →
    ((items? levels (documents items)).isSome ↔ depthItems items ≤ levels)
  | [], _, _ => by simp [documents, items?, depthItems]
  | v :: items, levels, hn => by
    have hv := @isSome_value?_document v levels hn.1
    have hitems := @isSome_items?_documents items levels hn.2
    rw [documents, items?, depthItems, max_le_iff, ← hv, ← hitems]
    cases v.document.value? levels with
    | none => simp
    | some v' => simp

/-- The documents of fields are read exactly if none is too deep. -/
theorem isSome_fields?_fieldDocuments : ∀ (fields : List (String × Json)) {levels : Nat},
    NumbersFitFields fields →
    ((fields? levels (fieldDocuments fields)).isSome ↔ depthFields fields ≤ levels)
  | [], _, _ => by simp [fieldDocuments, fields?, depthFields]
  | (name, v) :: fields, levels, hn => by
    have hv := @isSome_value?_document v levels hn.1
    have hfields := @isSome_fields?_fieldDocuments fields levels hn.2
    rw [fieldDocuments, fields?.eq_def, depthFields, max_le_iff, ← hv, ← hfields]
    cases hvalue : v.document.value? levels with
    | none => simp [hvalue]
    | some v' => simp [hvalue]

end

/-- The fields that a document stands for have the names of the fields that it was made of. -/
theorem names_of_fields?_fieldDocuments {levels : Nat} {fields read : List (String × Json)}
    (h : fields? levels (fieldDocuments fields) = some read) :
    read.map (·.1) = fields.map (·.1) := by
  induction fields generalizing read with
  | nil =>
    rw [fieldDocuments, fields?] at h
    cases h
    rfl
  | cons field fields ih =>
    obtain ⟨name, v⟩ := field
    rw [fieldDocuments, fields?.eq_def] at h
    cases hvalue : v.document.value? levels with
    | none => simp [hvalue] at h
    | some w =>
      simp only [hvalue, Option.map_eq_some_iff] at h
      obtain ⟨rest, hrest, rfl⟩ := h
      simp [ih hrest]

mutual

/-- Only if its numbers are readable does the document of a value stand for the value. -/
theorem numbersReadable_of_value? : ∀ (v : Json) {levels : Nat}, v.NumbersFit → v.Ordered →
    v.document.value? levels = some v → v.NumbersReadable
  | .null, _, _, _, _ | .bool _, _, _, _, _ | .string _, _, _, _, _ => by simp [NumbersReadable]
  | .number n, _, hfit, _, h => by
    simp only [NumbersFit, document, value?, Option.map_eq_some_iff, Json.number.injEq,
      exists_eq_right] at hfit h
    rw [NumbersReadable]
    exact hfit.readable h
  | .array items, 0, _, _, h | .object fields, 0, _, _, h => by simp [document, value?] at h
  | .array items, levels + 1, hfit, ho, h => by
    simp only [NumbersFit, Ordered, document, value?, Option.map_eq_some_iff, Json.array.injEq,
      exists_eq_right] at hfit ho h
    rw [NumbersReadable]
    exact numbersReadable_of_items? items hfit ho h
  | .object fields, levels + 1, hfit, ho, h => by
    simp only [NumbersFit, Ordered, document, value?, Option.map_eq_some_iff, Json.object.injEq]
      at hfit ho h
    obtain ⟨read, hread, hfields⟩ := h
    -- the names are in order, so that the fields are kept in the order of the text
    rw [ofFields_eq_self (by rw [names_of_fields?_fieldDocuments hread]; exact ho.1)] at hfields
    rw [NumbersReadable]
    exact numbersReadable_of_fields? fields hfit ho.2 (hfields ▸ hread)

/-- Items that are read back have readable numbers. -/
theorem numbersReadable_of_items? : ∀ (items : List Json) {levels : Nat}, NumbersFitItems items →
    OrderedItems items → items? levels (documents items) = some items →
    NumbersReadableItems items
  | [], _, _, _, _ => trivial
  | v :: items, levels, hfit, ho, h => by
    rw [documents, items?] at h
    cases hvalue : v.document.value? levels with
    | none => simp [hvalue] at h
    | some w =>
      simp only [hvalue, Option.map_eq_some_iff, List.cons.injEq] at h
      obtain ⟨rest, hrest, rfl, rfl⟩ := h
      exact ⟨numbersReadable_of_value? w hfit.1 ho.1 hvalue,
        numbersReadable_of_items? rest hfit.2 ho.2 hrest⟩

/-- Fields that are read back have readable numbers. -/
theorem numbersReadable_of_fields? : ∀ (fields : List (String × Json)) {levels : Nat},
    NumbersFitFields fields → OrderedFields fields →
    fields? levels (fieldDocuments fields) = some fields → NumbersReadableFields fields
  | [], _, _, _, _ => trivial
  | (name, v) :: fields, levels, hfit, ho, h => by
    rw [fieldDocuments, fields?.eq_def] at h
    cases hvalue : v.document.value? levels with
    | none => simp [hvalue] at h
    | some w =>
      simp only [hvalue, Option.map_eq_some_iff, List.cons.injEq, Prod.mk.injEq, true_and] at h
      obtain ⟨rest, hrest, rfl, rfl⟩ := h
      exact ⟨numbersReadable_of_value? w hfit.1 ho.1 hvalue,
        numbersReadable_of_fields? rest hfit.2 ho.2 hrest⟩

end

/-- A readable, ordered value of at most `levels` levels is read back from its text. -/
theorem read?_render {v : Json} {levels : Nat} (hn : v.NumbersReadable) (ho : v.Ordered)
    (hdepth : v.depth ≤ levels) : ∃ d, read? v.render = some d ∧ d.value? levels = some v :=
  ⟨v.document, read?_render_eq hn.fit, value?_document v hn ho hdepth⟩

end Document

end EntityCache
