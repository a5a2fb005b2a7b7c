import Mathlib
import TagTemplate.Proofs.Json.Scalars

/-!
# The compact text identifies the value

`isReadable`: a value is read off the front of a text in one way only, as long as its doubles
are finite and no character of a number follows.  The first character says which kind of value
it is (`exists_cons_chars`).  Numbers end where their characters do, strings at the closing
quote.  Arrays and objects are both lists of members with commas between them
(`commaChars`), and are read member by member: the comma or bracket after a member is no
character of a number, so it ends the member.

Doubles that are not finite are all written as `null` and are left out.
-/

namespace TagTemplate
namespace Json

/-! ## The doubles of a value -/

mutual

/-- The doubles in a value. -/
def doubles : Json → List Binary64
  | null => []
  | integer _ => []
  | double value => [value]
  | string _ => []
  | array items => itemDoubles items
  | object fields => fieldDoubles fields

/-- The doubles in the items of an array. -/
def itemDoubles : List Json → List Binary64
  | [] => []
  | item :: items => doubles item ++ itemDoubles items

/-- The doubles in the fields of an object. -/
def fieldDoubles : List (String × Json) → List Binary64
  | [] => []
  | (_, value) :: fields => doubles value ++ fieldDoubles fields

end

theorem mem_itemDoubles {x : Binary64} {items : List Json} :
    x ∈ itemDoubles items ↔ ∃ item ∈ items, x ∈ item.doubles := by
  induction items with
  | nil => simp [itemDoubles]
  | cons item items ih => simp [itemDoubles, ih]

theorem mem_fieldDoubles {x : Binary64} {fields : List (String × Json)} :
    x ∈ fieldDoubles fields ↔ ∃ field ∈ fields, x ∈ field.2.doubles := by
  induction fields with
  | nil => simp [fieldDoubles]
  | cons field fields ih =>
    obtain ⟨key, value⟩ := field
    simp [fieldDoubles, ih]

/-- All doubles in the value are finite. -/
def IsFinite (value : Json) : Prop := ∀ x ∈ value.doubles, x.isFinite = true

theorem isFinite_double {x : Binary64} : IsFinite (double x) ↔ x.isFinite = true := by
  simp [IsFinite, doubles]

theorem isFinite_array {items : List Json} :
    IsFinite (array items) ↔ ∀ item ∈ items, IsFinite item := by
  simp only [IsFinite, doubles, mem_itemDoubles]
  exact ⟨fun h item hitem x hx => h x ⟨item, hitem, hx⟩,
    fun h x ⟨item, hitem, hx⟩ => h item hitem x hx⟩

theorem isFinite_object {fields : List (String × Json)} :
    IsFinite (object fields) ↔ ∀ field ∈ fields, IsFinite field.2 := by
  simp only [IsFinite, doubles, mem_fieldDoubles]
  exact ⟨fun h field hfield x hx => h x ⟨field, hfield, hx⟩,
    fun h x ⟨field, hfield, hx⟩ => h field hfield x hx⟩

/-! ## The parts of a text -/

mutual

theorem compactOnto_eq_append (out : String) (value : Json) :
    compactOnto out value = out ++ compactOnto "" value := by
  match value with
  | null => simp [compactOnto]
  | integer _ => simp [compactOnto]
  | double _ => simp [compactOnto]
  | string _ => simp [compactOnto]
  | array [] => simp [compactOnto]
  | array (item :: items) =>
    simp only [compactOnto]
    rw [compactItemsOnto_eq_append, compactItemsOnto_eq_append (compactOnto ("" ++ "[") item),
      compactOnto_eq_append (out ++ "["), compactOnto_eq_append ("" ++ "[")]
    simp [String.append_assoc]
  | object [] => simp [compactOnto]
  | object ((key, value) :: fields) =>
    simp only [compactOnto]
    rw [compactFieldsOnto_eq_append,
      compactFieldsOnto_eq_append (compactOnto ("" ++ "\x7b" ++ stringText key ++ ":") value),
      compactOnto_eq_append (out ++ "\x7b" ++ stringText key ++ ":"),
      compactOnto_eq_append ("" ++ "\x7b" ++ stringText key ++ ":")]
    simp [String.append_assoc]

theorem compactItemsOnto_eq_append (out : String) (items : List Json) :
    compactItemsOnto out items = out ++ compactItemsOnto "" items := by
  match items with
  | [] => simp [compactItemsOnto]
  | item :: items =>
    simp only [compactItemsOnto]
    rw [compactItemsOnto_eq_append, compactItemsOnto_eq_append (compactOnto ("" ++ ",") item),
      compactOnto_eq_append (out ++ ","), compactOnto_eq_append ("" ++ ",")]
    simp [String.append_assoc]

/-- Writing after a text is writing and putting the text in front. -/
theorem compactFieldsOnto_eq_append (out : String) (fields : List (String × Json)) :
    compactFieldsOnto out fields = out ++ compactFieldsOnto "" fields := by
  match fields with
  | [] => simp [compactFieldsOnto]
  | (key, value) :: fields =>
    simp only [compactFieldsOnto]
    rw [compactFieldsOnto_eq_append,
      compactFieldsOnto_eq_append (compactOnto ("" ++ "," ++ stringText key ++ ":") value),
      compactOnto_eq_append (out ++ "," ++ stringText key ++ ":"),
      compactOnto_eq_append ("" ++ "," ++ stringText key ++ ":")]
    simp [String.append_assoc]

end

/-- The characters of the compact text. -/
def chars (value : Json) : List Char := (compact value).toList

/-- The characters of a field: the key, a colon and the value. -/
def fieldChars (field : String × Json) : List Char :=
  (stringText field.1).toList ++ ':' :: chars field.2

/-- The texts of the members of a list, each behind a comma. -/
def commaChars {α : Type} (text : α → List Char) (members : List α) : List Char :=
  members.flatMap fun x => ',' :: text x

theorem commaChars_cons {α : Type} (text : α → List Char) (a : α) (as : List α) :
    commaChars text (a :: as) = ',' :: (text a ++ commaChars text as) := List.flatMap_cons

theorem chars_null : chars null = ['n', 'u', 'l', 'l'] := rfl

theorem chars_integer (k : Int) : chars (integer k) = (toString k).toList := by
  simp [chars, compact, compactOnto]

theorem chars_double (x : Binary64) : chars (double x) = (doubleText x).toList := by
  simp [chars, compact, compactOnto]

theorem chars_string (s : String) : chars (string s) = (stringText s).toList := by
  simp [chars, compact, compactOnto]

theorem toList_compactItemsOnto (items : List Json) :
    (compactItemsOnto "" items).toList = commaChars chars items := by
  induction items with
  | nil => rfl
  | cons item items ih =>
    rw [compactItemsOnto, compactItemsOnto_eq_append, compactOnto_eq_append, String.toList_append,
      ih]
    simp [commaChars_cons, chars, compact]

theorem toList_compactFieldsOnto (fields : List (String × Json)) :
    (compactFieldsOnto "" fields).toList = commaChars fieldChars fields := by
  induction fields with
  | nil => rfl
  | cons field fields ih =>
    obtain ⟨key, value⟩ := field
    rw [compactFieldsOnto, compactFieldsOnto_eq_append, compactOnto_eq_append,
      String.toList_append, ih]
    simp [commaChars_cons, fieldChars, chars, compact]

/-- The items with a comma between any two: the one in front of the first is left out. -/
theorem chars_array (items : List Json) :
    chars (array items) = '[' :: ((commaChars chars items).tail ++ [']']) := by
  cases items with
  | nil => rfl
  | cons item items =>
    simp only [chars, compact, compactOnto]
    rw [compactItemsOnto_eq_append, compactOnto_eq_append, String.toList_append,
      String.toList_append, toList_compactItemsOnto]
    simp [commaChars_cons, chars, compact]

/-- The fields with a comma between any two. -/
theorem chars_object (fields : List (String × Json)) :
    chars (object fields) = '{' :: ((commaChars fieldChars fields).tail ++ ['}']) := by
  cases fields with
  | nil => rfl
  | cons field fields =>
    obtain ⟨key, value⟩ := field
    simp only [chars, compact, compactOnto]
    rw [compactFieldsOnto_eq_append, compactOnto_eq_append, String.toList_append,
      String.toList_append, toList_compactFieldsOnto]
    simp [commaChars_cons, fieldChars, chars, compact]

/-! ## The first character -/

/-- The first character of a text, where all those of numbers count as one. -/
def opening : Json → Char
  | null => 'n'
  | integer _ => '0'
  | double _ => '0'
  | string _ => '"'
  | array _ => '['
  | object _ => '{'

/-- The kind of value that starts with a character. -/
def openedBy (c : Char) : Char := if isNumberChar c then '0' else c

theorem chars_double_of_isFinite {x : Binary64} (h : IsFinite (double x)) :
    chars (double x) = doubleStyle.text x := by
  rw [chars_double, doubleText, if_pos (isFinite_double.mp h), String.toList_ofList]

variable {v w : Json} {r s : List Char}

/-- Numbers are written with the characters of numbers. -/
theorem isNumberChar_of_mem_chars (hopen : v.opening = '0') (hv : v.IsFinite) {c : Char}
    (hc : c ∈ v.chars) : isNumberChar c = true := by
  cases v with
  | integer k => exact isNumberChar_of_mem_toString (by rwa [chars_integer] at hc)
  | double x =>
    rw [chars_double_of_isFinite hv] at hc
    exact isNumberChar_of_mem_text hc
  | _ => exact absurd hopen (by simp [opening])

theorem chars_ne_nil (hopen : v.opening = '0') (hv : v.IsFinite) : v.chars ≠ [] := by
  cases v with
  | integer k =>
    rw [chars_integer, toList_toString]
    simp [Decimal.digitsOf_ne_nil]
  | double x =>
    obtain ⟨first, rest, hfirst, -⟩ := (doubleStyle.isUnsigned_unsigned x.magnitude).exists_cons
    rw [chars_double_of_isFinite hv, Binary64.DoubleStyle.text_eq, hfirst]
    simp
  | _ => exact absurd hopen (by simp [opening])

/-- The first character tells the kind of the value. -/
theorem exists_cons_chars (hv : v.IsFinite) :
    ∃ c tail, v.chars = c :: tail ∧ openedBy c = v.opening := by
  have hnumber : v.opening = '0' → ∃ c tail, v.chars = c :: tail ∧ openedBy c = v.opening := by
    intro hopen
    obtain ⟨c, tail, hc⟩ := List.exists_cons_of_ne_nil (chars_ne_nil hopen hv)
    have hchar := isNumberChar_of_mem_chars hopen hv (c := c) (by simp [hc])
    exact ⟨c, tail, hc, by rw [openedBy, if_pos hchar, hopen]⟩
  cases v with
  | null => exact ⟨'n', _, chars_null, by decide⟩
  | integer k => exact hnumber rfl
  | double x => exact hnumber rfl
  | string u =>
    exact ⟨'"', _, (chars_string u).trans (toList_stringText u), (by decide : openedBy '"' = '"')⟩
  | array items =>
    refine ⟨'[', _, chars_array items, (by decide : openedBy '[' = '[')⟩
  | object fields =>
    exact ⟨'{', _, chars_object fields, (by decide : openedBy '{' = '{')⟩

/-- Values with one text in front of a text are of one kind. -/
theorem opening_eq (hv : v.IsFinite) (hw : w.IsFinite) (h : v.chars ++ r = w.chars ++ s) :
    v.opening = w.opening := by
  obtain ⟨c, tail, hc, hopen⟩ := exists_cons_chars hv
  obtain ⟨d, tail', hd, hopen'⟩ := exists_cons_chars hw
  rw [hc, hd] at h
  rw [← hopen, ← hopen', List.head_eq_of_cons_eq h]

/-- No value starts with what closes an array. -/
theorem chars_append_ne (hv : v.IsFinite) : v.chars ++ r ≠ ']' :: s := by
  intro h
  obtain ⟨c, tail, hc, hopen⟩ := exists_cons_chars hv
  rw [hc] at h
  rw [List.head_eq_of_cons_eq h, (by decide : openedBy ']' = ']')] at hopen
  cases v <;> simp [opening] at hopen

/-! ## Reading off the front of a text -/

/-- What is written as `text a` is read off the front of a text in one way only, if no
character of a number follows. -/
def IsReadable {α : Type} (valid : α → Prop) (text : α → List Char) (a : α) : Prop :=
  ∀ (b : α) (r s : List Char), valid b → Stops isNumberChar r → Stops isNumberChar s →
    text a ++ r = text b ++ s → a = b ∧ r = s

section Lists

variable {α : Type} {valid : α → Prop} {text : α → List Char} {closing : Char} {as bs : List α}

/-- What follows a member of a list ends a number. -/
theorem stops_commaChars (hclosing : isNumberChar closing = false) (as : List α) (r : List Char) :
    Stops isNumberChar (commaChars text as ++ closing :: r) := by
  cases as with
  | nil => exact stops_cons.mpr hclosing
  | cons a as => exact stops_cons.mpr (by decide)

/-- The members of a list are read one by one up to what closes it. -/
theorem commaChars_append_inj (hclosing : isNumberChar closing = false) (hcomma : closing ≠ ',')
    (hread : ∀ a ∈ as, IsReadable valid text a) (hvalid : ∀ b ∈ bs, valid b)
    (h : commaChars text as ++ closing :: r = commaChars text bs ++ closing :: s) :
    as = bs ∧ r = s := by
  induction as generalizing bs with
  | nil =>
    cases bs with
    | nil => exact ⟨rfl, List.tail_eq_of_cons_eq h⟩
    | cons b bs => exact absurd (List.head_eq_of_cons_eq h) hcomma
  | cons a as ih =>
    cases bs with
    | nil => exact absurd (List.head_eq_of_cons_eq h).symm hcomma
    | cons b bs =>
      rw [List.forall_mem_cons] at hread hvalid
      rw [commaChars_cons, commaChars_cons, List.cons_append, List.cons_append, List.append_assoc,
        List.append_assoc] at h
      obtain ⟨rfl, hrest⟩ := hread.1 b _ _ hvalid.1 (stops_commaChars hclosing as r)
        (stops_commaChars hclosing bs s) (List.tail_eq_of_cons_eq h)
      obtain ⟨rfl, hr⟩ := ih hread.2 hvalid.2 hrest
      exact ⟨rfl, hr⟩

/-- Without the comma in front of the first member too, if no member starts with what closes
the list. -/
theorem tail_commaChars_append_inj (hclosing : isNumberChar closing = false)
    (hcomma : closing ≠ ',') (hread : ∀ a ∈ as, IsReadable valid text a)
    (hvalid : ∀ b ∈ bs, valid b) (has : ∀ a ∈ as, ∀ t u, text a ++ t ≠ closing :: u)
    (hbs : ∀ b ∈ bs, ∀ t u, text b ++ t ≠ closing :: u)
    (h : (commaChars text as).tail ++ closing :: r = (commaChars text bs).tail ++ closing :: s) :
    as = bs ∧ r = s := by
  refine commaChars_append_inj hclosing hcomma hread hvalid ?_
  cases as with
  | nil =>
    cases bs with
    | nil => exact h
    | cons b bs =>
      rw [commaChars_cons, List.tail_cons, List.append_assoc] at h
      exact absurd h.symm (hbs b List.mem_cons_self _ _)
  | cons a as =>
    cases bs with
    | nil =>
      rw [commaChars_cons, List.tail_cons, List.append_assoc] at h
      exact absurd h (has a List.mem_cons_self _ _)
    | cons b bs => exact congrArg (',' :: ·) h

end Lists

/-! ## Reading a value -/

/-- Numbers are read as long as their characters go on. -/
theorem isReadable_of_opening (hopen : v.opening = '0') (hv : v.IsFinite) :
    IsReadable IsFinite chars v := by
  intro w r s hw hr hs h
  have hopen' : w.opening = '0' := (opening_eq hv hw h).symm.trans hopen
  obtain ⟨hchars, hrest⟩ := append_inj_of_stops
    (fun c hc => isNumberChar_of_mem_chars hopen hv hc)
    (fun c hc => isNumberChar_of_mem_chars hopen' hw hc) hr hs h
  refine ⟨?_, hrest⟩
  cases v with
  | integer k =>
    cases w with
    | integer l =>
      rw [chars_integer, chars_integer] at hchars
      rw [toString_int_injective (String.toList_inj.mp hchars)]
    | double y =>
      rw [chars_integer, chars_double_of_isFinite hw] at hchars
      exact absurd hchars (toString_ne_text k y)
    | _ => exact absurd hopen' (by simp [opening])
  | double x =>
    cases w with
    | integer l =>
      rw [chars_integer, chars_double_of_isFinite hv] at hchars
      exact absurd hchars.symm (toString_ne_text l x)
    | double y =>
      rw [chars_double_of_isFinite hv, chars_double_of_isFinite hw] at hchars
      rw [doubleStyle.text_injective hchars]
    | _ => exact absurd hopen' (by simp [opening])
  | _ => exact absurd hopen (by simp [opening])

theorem isReadable_null : IsReadable IsFinite chars null := by
  intro w r s hw _ _ h
  have hopen := opening_eq (by simp [IsFinite, doubles]) hw h
  cases w with
  | null => exact ⟨rfl, List.append_cancel_left h⟩
  | _ => exact absurd hopen (by simp [opening])

theorem isReadable_string (u : String) : IsReadable IsFinite chars (string u) := by
  intro w r s hw _ _ h
  have hopen := opening_eq (by simp [IsFinite, doubles]) hw h
  cases w with
  | string u' =>
    rw [chars_string, chars_string] at h
    obtain ⟨rfl, hrest⟩ := stringText_append_inj h
    exact ⟨rfl, hrest⟩
  | _ => exact absurd hopen (by simp [opening])

theorem isReadable_array {items : List Json}
    (hread : ∀ item ∈ items, IsReadable IsFinite chars item) (hv : (array items).IsFinite) :
    IsReadable IsFinite chars (array items) := by
  intro w r s hw _ _ h
  have hopen := opening_eq hv hw h
  cases w with
  | array items' =>
    rw [isFinite_array] at hv hw
    simp only [chars_array, List.cons_append, List.append_assoc, List.nil_append, List.cons.injEq,
      true_and] at h
    obtain ⟨rfl, hr⟩ := tail_commaChars_append_inj (by decide) (by decide) hread hw
      (fun item hitem _ _ => chars_append_ne (hv item hitem))
      (fun item hitem _ _ => chars_append_ne (hw item hitem)) h
    exact ⟨rfl, hr⟩
  | _ => exact absurd hopen (by simp [opening])

/-- A field is read key first. -/
theorem isReadable_field {field : String × Json} (h : IsReadable IsFinite chars field.2) :
    IsReadable (fun field : String × Json => field.2.IsFinite) fieldChars field := by
  obtain ⟨key, value⟩ := field
  rintro ⟨key', value'⟩ r s hfinite hr hs heq
  rw [fieldChars, fieldChars, List.append_assoc, List.append_assoc] at heq
  obtain ⟨rfl, hvalue⟩ := stringText_append_inj heq
  obtain ⟨rfl, hrest⟩ := h value' r s hfinite hr hs (List.tail_eq_of_cons_eq hvalue)
  exact ⟨rfl, hrest⟩

theorem fieldChars_append_ne (field : String × Json) : fieldChars field ++ r ≠ '}' :: s := by
  rw [fieldChars, toList_stringText]
  simp

theorem isReadable_object {fields : List (String × Json)}
    (hread : ∀ field ∈ fields, IsReadable IsFinite chars field.2) (hv : (object fields).IsFinite) :
    IsReadable IsFinite chars (object fields) := by
  intro w r s hw _ _ h
  have hopen := opening_eq hv hw h
  cases w with
  | object fields' =>
    rw [isFinite_object] at hw
    simp only [chars_object, List.cons_append, List.append_assoc, List.nil_append, List.cons.injEq,
      true_and] at h
    obtain ⟨rfl, hr⟩ := tail_commaChars_append_inj (by decide) (by decide)
      (fun field hfield => isReadable_field (hread field hfield)) hw
      (fun field _ _ _ => fieldChars_append_ne field)
      (fun field _ _ _ => fieldChars_append_ne field) h
    exact ⟨rfl, hr⟩
  | _ => exact absurd hopen (by simp [opening])

/-- **A value is read off the front of a text in one way only.** -/
theorem isReadable (v : Json) (hv : v.IsFinite) : IsReadable IsFinite chars v := by
  match v with
  | null => exact isReadable_null
  | integer k => exact isReadable_of_opening rfl hv
  | double x => exact isReadable_of_opening rfl hv
  | string u => exact isReadable_string u
  | array items =>
    exact isReadable_array (fun item hitem => isReadable item (isFinite_array.mp hv item hitem)) hv
  | object fields =>
    refine isReadable_object (fun field hfield => ?_) hv
    have hsmaller : sizeOf field.2 < sizeOf fields := by
      have hfieldLt := List.sizeOf_lt_of_mem hfield
      obtain ⟨key, value⟩ := field
      simp only [Prod.mk.sizeOf_spec] at hfieldLt ⊢
      omega
    exact isReadable field.2 (isFinite_object.mp hv field hfield)

/-- **Values with finite doubles have different compact texts.** -/
theorem eq_of_compact_eq (hv : v.IsFinite) (hw : w.IsFinite) (h : v.compact = w.compact) :
    v = w := by
  have hchars : v.chars ++ [] = w.chars ++ [] := by rw [chars, h, chars]
  exact (isReadable v hv w [] [] hw (stops_nil _) (stops_nil _) hchars).1

end Json
end TagTemplate
