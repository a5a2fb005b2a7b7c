import Mathlib.Data.List.TakeWhile
import TagTemplate.FreeText
import TagTemplate.Proofs.Grammar

/-!
# Readers of texts, strings, words and numbers

For each reader there are two statements: what it returns is spelled by what it has
read (`spelling_of_scan`), and what is spelled at the cursor is returned
(`scan_of_spelling`), with the cursor left where the spelling ends.  The second is
where longest runs matter: a reader goes as far as it can, and a spelling says that it
cannot go further.
-/

namespace TagTemplate

namespace Cursor

theorem skipWhiteSpace_rest (c : Cursor) :
    c.skipWhiteSpace.rest = c.rest.dropWhile Character.isWhiteSpace := by
  have h := (reads_skipWhiteSpace c).rest_eq
  have hsplit : c.rest.takeWhile Character.isWhiteSpace ++ c.skipWhiteSpace.rest =
      c.rest.takeWhile Character.isWhiteSpace ++ c.rest.dropWhile Character.isWhiteSpace := by
    rw [← h, List.takeWhile_append_dropWhile]
  exact List.append_cancel_left hsplit

/-- What is skipped is white space. -/
theorem blanks_skipWhiteSpace (c : Cursor) : Blanks c.rest c.skipWhiteSpace.rest :=
  ⟨_, fun _ h => List.mem_takeWhile_imp h, (reads_skipWhiteSpace c).rest_eq⟩

/-- White space before something else is skipped whole. -/
theorem skipWhiteSpace_rest_of_blanks {c : Cursor} {rest : List Char} (h : Blanks c.rest rest)
    (hrest : Stops Character.isWhiteSpace rest) : c.skipWhiteSpace.rest = rest := by
  obtain ⟨u, hu, heq⟩ := h
  rw [skipWhiteSpace_rest, heq]
  exact (takeWhile_append_of_stops hu hrest).2

/-- How far has been read is determined by what is left. -/
theorem Reads.unique {c d e : Cursor} {u v : List Char} (hd : Reads c u d) (he : Reads c v e)
    (h : d.rest = e.rest) : d = e := by
  have hsplit : u ++ d.rest = v ++ d.rest := by
    rw [← hd.rest_eq, h]
    exact he.rest_eq
  obtain rfl := List.append_cancel_right hsplit
  obtain ⟨rest, position⟩ := d
  obtain ⟨rest', position'⟩ := e
  obtain rfl : rest = rest' := h
  obtain rfl : position = position' := hd.position_eq.trans he.position_eq.symm
  rfl

theorem eat?_of_rest {c : Cursor} (pattern : List Char) {rest : List Char}
    (h : c.rest = pattern ++ rest) : c.eat? pattern = some ⟨rest, c.position.after pattern⟩ := by
  have hfront : c.startsWith pattern = true := by
    rw [startsWith, List.isPrefixOf_iff_prefix, h]
    exact List.prefix_append _ _
  rw [eat?, if_pos hfront, h, List.drop_left]

theorem rest_of_eat? {c d : Cursor} {pattern : List Char} (h : c.eat? pattern = some d) :
    c.rest = pattern ++ d.rest :=
  (reads_of_eat? h).rest_eq

/-- A pattern that starts with another character than the input does is not eaten. -/
theorem eat?_eq_none_of_head_ne {c : Cursor} {ch x : Char} {rest pattern : List Char}
    (h : c.rest = ch :: rest) (hne : x ≠ ch) : c.eat? (x :: pattern) = none := by
  rw [eat?_eq_none_iff, h, List.cons_prefix_cons]
  exact fun hp => hne hp.1

theorem peek?_of_rest {c : Cursor} {ch : Char} {rest : List Char} (h : c.rest = ch :: rest) :
    c.peek? = some ch := by
  rw [peek?, h, List.head?_cons]

theorem step_rest {c : Cursor} {ch : Char} {rest : List Char} (h : c.rest = ch :: rest) :
    c.step.rest = rest := by
  rw [step, h]

/-- The run of a class is read where it stands, up to where it stops. -/
theorem takeWhile_of_rest {p : Char → Bool} {c : Cursor} {w rest : List Char}
    (h : c.rest = w ++ rest) (hw : ∀ x ∈ w, p x = true) (hrest : Stops p rest) :
    (c.takeWhile p).1 = String.ofList w ∧ (c.takeWhile p).2.rest = rest := by
  obtain ⟨htake, hdrop⟩ := takeWhile_append_of_stops hw hrest
  constructor
  · rw [← String.toList_inj, takeWhile_fst_toList, h, htake, String.toList_ofList]
  · rw [takeWhile_snd_rest, h, hdrop]

theorem rest_of_takeWhile (p : Char → Bool) (c : Cursor) :
    c.rest = (c.takeWhile p).1.toList ++ (c.takeWhile p).2.rest :=
  (reads_takeWhile p c).rest_eq

theorem of_mem_takeWhile {p : Char → Bool} {c : Cursor} {x : Char}
    (h : x ∈ (c.takeWhile p).1.toList) : p x = true := by
  rw [takeWhile_fst_toList] at h
  exact List.mem_takeWhile_imp h

theorem stops_takeWhile (p : Char → Bool) (c : Cursor) : Stops p (c.takeWhile p).2.rest := by
  rw [takeWhile_snd_rest]
  exact stops_dropWhile p c.rest

end Cursor

/-! ## Text -/

namespace FreeText

theorem tagOpen_prefix_cons_iff {c : Char} {rest : List Char} :
    tagOpen <+: c :: rest ↔ c = '{' ∧ rest.head? = some '$' := by
  cases rest with
  | nil => simp [tagOpen, List.cons_prefix_cons]
  | cons d rest => simp [tagOpen, List.cons_prefix_cons, eq_comm]

theorem spelling_of_scanFrom {taken s : String} {p : Position} {cs : List Char} {d : Cursor}
    (h : scanFrom taken p cs = (.ok s, d)) :
    ∃ content, s.toList = taken.toList ++ content ∧ Spelling cs content d.rest := by
  fun_induction scanFrom taken p cs with
  | case1 taken p =>
    obtain ⟨rfl, rfl⟩ : taken = s ∧ _ = d := by simpa using h
    exact ⟨[], by simp, .done (.inl rfl)⟩
  | case2 => simp at h
  | case3 taken p e rest he ih =>
    obtain ⟨content, hs, hspell⟩ := ih h
    refine ⟨e :: content, by simpa using hs, ?_⟩
    rcases he with rfl | rfl
    · exact .backslash hspell
    · exact .brace hspell
  | case4 => simp at h
  | case5 taken p c rest hc hopen =>
    obtain ⟨rfl, rfl⟩ : taken = s ∧ _ = d := by simpa using h
    exact ⟨[], by simp, .done (.inr (tagOpen_prefix_cons_iff.mpr hopen))⟩
  | case6 taken p c rest hc hopen ih =>
    obtain ⟨content, hs, hspell⟩ := ih h
    exact ⟨c :: content, by simpa using hs,
      .plain hc (fun hp => hopen (tagOpen_prefix_cons_iff.mp hp)) hspell⟩

/-- The text that is scanned is what the characters read spell. -/
theorem spelling_of_scan {c d : Cursor} {s : String} (h : scan c = (.ok s, d)) :
    Spelling c.rest s.toList d.rest := by
  obtain ⟨content, hs, hspell⟩ := spelling_of_scanFrom h
  rw [String.toList_empty, List.nil_append] at hs
  rw [hs]
  exact hspell

theorem scanFrom_of_spelling {cs content rest : List Char} (h : Spelling cs content rest)
    (taken : String) (p : Position) :
    ∃ d, scanFrom taken p cs = (.ok (taken ++ String.ofList content), d) ∧ d.rest = rest := by
  induction h generalizing taken p with
  | @done rest h =>
    rcases h with rfl | ⟨rest, rfl⟩
    · exact ⟨⟨[], p⟩, by simp [scanFrom], rfl⟩
    · exact ⟨⟨tagOpen ++ rest, p⟩, by simp [scanFrom, tagOpen], rfl⟩
  | @backslash input content rest h ih =>
    obtain ⟨d, hd, hrest⟩ := ih (taken.push '\\') ((p.advance '\\').advance '\\')
    refine ⟨d, ?_, hrest⟩
    rw [scanFrom, if_pos rfl]
    simp only [true_or, if_true, hd, Prod.mk.injEq, Except.ok.injEq, and_true]
    rw [← String.toList_inj]
    simp
  | @brace input content rest h ih =>
    obtain ⟨d, hd, hrest⟩ := ih (taken.push '{') ((p.advance '\\').advance '{')
    refine ⟨d, ?_, hrest⟩
    rw [scanFrom, if_pos rfl]
    simp only [or_true, if_true, hd, Prod.mk.injEq, Except.ok.injEq, and_true]
    rw [← String.toList_inj]
    simp
  | @plain c input content rest hc hopen h ih =>
    obtain ⟨d, hd, hrest⟩ := ih (taken.push c) (p.advance c)
    refine ⟨d, ?_, hrest⟩
    have hbare : ¬ (c = '{' ∧ input.head? = some '$') := fun hp =>
      hopen (tagOpen_prefix_cons_iff.mpr hp)
    rw [scanFrom.eq_def]
    simp only [hc, if_false, if_neg hbare, hd, Prod.mk.injEq, Except.ok.injEq, and_true]
    rw [← String.toList_inj]
    simp

/-- A text that is spelled at the cursor is scanned. -/
theorem scan_of_spelling {c : Cursor} {content rest : List Char}
    (h : Spelling c.rest content rest) :
    ∃ d, scan c = (.ok (String.ofList content), d) ∧ d.rest = rest := by
  obtain ⟨d, hd, hrest⟩ := scanFrom_of_spelling h "" c.position
  rw [String.empty_append] at hd
  exact ⟨d, hd, hrest⟩

end FreeText

/-! ## String literals -/

namespace Quoted

theorem tagClose_prefix_cons_iff {c : Char} {rest : List Char} :
    tagClose <+: c :: rest ↔ c = '$' ∧ rest.head? = some '}' := by
  cases rest with
  | nil => simp [tagClose, List.cons_prefix_cons]
  | cons d rest => simp [tagClose, List.cons_prefix_cons, eq_comm]

/-- The table of escapes and the reader's case distinction say the same. -/
theorem unescape?_eq_some_iff {d c : Char} : unescape? d = some c ↔ (d, c) ∈ escapes := by
  unfold unescape? escapes
  split_ifs <;> simp_all [eq_comm]

theorem spelling_of_scanFrom {opening : Position} {taken s : String} {p : Position}
    {cs : List Char} {d : Cursor} (h : scanFrom opening taken p cs = (.ok s, d)) :
    ∃ value, s.toList = taken.toList ++ value ∧ Spelling cs value d.rest := by
  fun_induction scanFrom opening taken p cs with
  | case1 => simp at h
  | case2 => simp at h
  | case3 taken p rest hclose =>
    obtain ⟨rfl, rfl⟩ : taken = s ∧ _ = d := by simpa using h
    exact ⟨[], by simp, .close⟩
  | case4 => simp at h
  | case5 taken p e rest value hvalue _ _ ih =>
    obtain ⟨content, hs, hspell⟩ := ih h
    exact ⟨value :: content, by simpa using hs, .escape (unescape?_eq_some_iff.mp hvalue) hspell⟩
  | case6 => simp at h
  | case7 taken p c rest hclose hquote hslash ih =>
    obtain ⟨content, hs, hspell⟩ := ih h
    exact ⟨c :: content, by simpa using hs,
      .plain hquote hslash (fun hp => hclose (tagClose_prefix_cons_iff.mp hp)) hspell⟩

theorem scanFrom_of_spelling {cs value rest : List Char} (h : Spelling cs value rest)
    (opening : Position) (taken : String) (p : Position) :
    ∃ d, scanFrom opening taken p cs = (.ok (taken ++ String.ofList value), d) ∧
      d.rest = rest := by
  induction h generalizing taken p with
  | @close rest => exact ⟨⟨rest, p.advance '"'⟩, by simp [scanFrom.eq_def], rfl⟩
  | @escape e c input value rest he h ih =>
    obtain ⟨d, hd, hrest⟩ := ih (taken.push c) ((p.advance '\\').advance e)
    refine ⟨d, ?_, hrest⟩
    have hne : '\\' ≠ '$' ∧ '\\' ≠ '"' := by decide
    rw [scanFrom.eq_def]
    simp only [hne.1, hne.2, false_and, if_false, if_true, unescape?_eq_some_iff.mpr he, hd,
      Prod.mk.injEq, Except.ok.injEq, and_true]
    rw [← String.toList_inj]
    simp
  | @plain c input value rest hquote hslash hclose h ih =>
    obtain ⟨d, hd, hrest⟩ := ih (taken.push c) (p.advance c)
    refine ⟨d, ?_, hrest⟩
    have hopen : ¬ (c = '$' ∧ input.head? = some '}') := fun hp =>
      hclose (tagClose_prefix_cons_iff.mpr hp)
    rw [scanFrom.eq_def]
    simp only [if_neg hopen, hquote, hslash, if_false, hd, Prod.mk.injEq, Except.ok.injEq,
      and_true]
    rw [← String.toList_inj]
    simp

/-- The string that is scanned is what the characters after the quote spell. -/
theorem spelling_of_scan {c d : Cursor} {s : String} (h : scan c = (.ok s, d)) :
    Spelling c.step.rest s.toList d.rest := by
  obtain ⟨value, hs, hspell⟩ := spelling_of_scanFrom h
  rw [String.toList_empty, List.nil_append] at hs
  rw [hs]
  exact hspell

/-- A string that is spelled after the quote at the cursor is scanned. -/
theorem scan_of_spelling {c : Cursor} {value rest : List Char}
    (h : Spelling c.step.rest value rest) :
    ∃ d, scan c = (.ok (String.ofList value), d) ∧ d.rest = rest := by
  obtain ⟨d, hd, hrest⟩ := scanFrom_of_spelling h c.position "" c.step.position
  rw [String.empty_append] at hd
  exact ⟨d, hd, hrest⟩

end Quoted
end TagTemplate
