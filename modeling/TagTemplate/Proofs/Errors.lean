import TagTemplate.Proofs.Canonical.Items
import TagTemplate.Proofs.Errors.Position
import TagTemplate.Proofs.Errors.Readers
import TagTemplate.Proofs.Outline.Verdict

/-!
# Where the error of a document points

A document that is refused has an error with a position, and the position is that of one of
its characters, where the construct at fault starts (`parse_error_position`).

An error is either that of an item which is wrong in itself, or that of a tag among the items
in front of it: an `END` too many, a `FOR` too deep, or the `FOR` of a loop that is left open.
The position of an item is where the item is spelled (`Item.Run.exists_reads_of_mem`), and the
open loops keep the positions of their tags, so an error may well point at something that was
read long ago.
-/

namespace TagTemplate

variable {document : String} {limit : Nat} {error : Error}

namespace Item

variable {c d : Cursor} {items : List (Located Item)} {item : Located Item}

theorem isText_eq_false_of_isBracket {item : Item} (h : item.isBracket = true) :
    item.isText = false := by
  cases item with
  | text content => exact absurd h (by simp [isBracket])
  | echo elements => rfl
  | openLoop header => rfl
  | closeLoop => rfl

/-- A run reads a stretch of characters. -/
theorem Run.exists_reads (h : Run c items d) : ∃ u, Cursor.Reads c u d := by
  induction h with
  | nil => exact ⟨[], .refl _⟩
  | cons _ hread _ ih =>
    obtain ⟨v, hv⟩ := ih
    exact ⟨_, hread.trans hv⟩

/-- Every item of a run is spelled where its position says. -/
theorem Run.exists_reads_of_mem (h : Run c items d) (hitem : item ∈ items) :
    ∃ u e rest, Cursor.Reads c u e ∧ item.position = e.position ∧
      Spelling e.rest item.value rest := by
  induction h with
  | nil => exact absurd hitem (by simp)
  | @cons c d e u value items hspell hread hitems ih =>
    rcases List.mem_cons.mp hitem with rfl | hitem
    · exact ⟨[], c, d.rest, .refl c, rfl, hspell⟩
    · obtain ⟨v, f, rest, hf, hposition, hspelled⟩ := ih hitem
      exact ⟨u ++ v, f, rest, hread.trans hf, hposition, hspelled⟩

/-- An error that blames a tag of a run points at what the run has read. -/
theorem Run.pointsInto (h : Run c items d) (hitem : item ∈ items)
    (hbracket : item.value.isBracket = true) (herror : error.PointsAtTag item.position) :
    error.PointsInto c := by
  obtain ⟨u, e, rest, hread, hposition, hspell⟩ := h.exists_reads_of_mem hitem
  obtain ⟨hat, hfits⟩ := herror
  have hopen := hspell.tagOpen_prefix (isText_eq_false_of_isBracket hbracket)
  exact ⟨u, e, hread, by rw [hat, hposition], hfits _ hopen⟩

end Item

/-- The error of a verdict is one of what the items are read from. -/
theorem Verdict.pointsInto {c last : Cursor} {items : List (Located Item)}
    (hrun : Item.Run c items last) (h : Verdict limit items last (.error error)) :
    error.PointsInto c := by
  cases h with
  | @unmatchedEnd p s position hitems hbefore hopen =>
    have hmem : ⟨.closeLoop, position⟩ ∈ items := by simp [hitems]
    exact hrun.pointsInto hmem rfl ⟨rfl, fun cs hcs => hcs⟩
  | @nestingTooDeep p s header position hitems hbefore hopen =>
    have hmem : ⟨.openLoop header, position⟩ ∈ items := by simp [hitems]
    exact hrun.pointsInto hmem rfl ⟨rfl, fun cs hcs => hcs⟩
  | @unclosedLoops p s header position count hitems hclosed hall hopen hend =>
    have hmem : ⟨.openLoop header, position⟩ ∈ items := by simp [hitems]
    exact hrun.pointsInto hmem rfl ⟨rfl, fun cs hcs => hcs⟩
  | illFormed hall hwrong =>
    obtain ⟨u, hu⟩ := hrun.exists_reads
    exact (Item.pointsInto_of_next hwrong).of_reads hu

/-- The error of a document is one of what stands in it. -/
theorem pointsInto_of_parse (h : parse document ⟨limit⟩ = .error error) :
    error.PointsInto (.ofString document) := by
  obtain ⟨last, hlongest, -⟩ := Item.exists_longestRun (.ofString document)
  have hverdict := verdict_parse limit hlongest
  rw [h] at hverdict
  exact hverdict.pointsInto hlongest.run

/-- **An error points at the construct at fault.**  It has a position, which is that of
exactly one character of the document, and what starts there fits the error. -/
theorem parse_error_position (h : parse document ⟨limit⟩ = .error error) :
    ∃ position before rest, error.position? = some position ∧
      position.Splits document.toList before rest ∧ rest ≠ [] ∧ error.FitsAt rest ∧
      ∀ before' rest', position.Splits document.toList before' rest' →
        before' = before ∧ rest' = rest := by
  obtain ⟨before, d, hread, hposition, hfits⟩ := pointsInto_of_parse h
  have htext : document.toList = before ++ d.rest := hread.rest_eq
  have hstart : d.position = Position.start.after before := hread.position_eq
  have hsplits : d.position.Splits document.toList before d.rest := by
    rw [htext, hstart]
    exact Position.splits_of_after
  exact ⟨d.position, before, d.rest, hposition, hsplits, Error.ne_nil_of_fitsAt hfits, hfits,
    fun before' rest' hother => hother.unique hsplits⟩

/-- An `END` too many on the second line, after a brace that is escaped. -/
theorem parse_error_position_of_end :
    parse "a\n\\\x7b\x7b$end$\x7d" ⟨0⟩ = .error (Fault.unmatchedEnd.toError ⟨2, 3⟩) ∧
      ∃ position before rest,
        (Fault.unmatchedEnd.toError ⟨2, 3⟩).position? = some position ∧
        position.Splits "a\n\\\x7b\x7b$end$\x7d".toList before rest ∧ rest ≠ [] ∧
        (Fault.unmatchedEnd.toError ⟨2, 3⟩).FitsAt rest ∧
        ∀ before' rest', position.Splits "a\n\\\x7b\x7b$end$\x7d".toList before' rest' →
          before' = before ∧ rest' = rest := by
  have htext : Item.Spelling "a\n\\\x7b\x7b$end$\x7d".toList (.text "a\n\x7b")
      "\x7b$end$\x7d".toList := by
    refine .text (.plain (by decide) (by decide) (.plain (by decide) (by decide)
      (.brace (.done ?_)))) (by simp)
    exact .inr ⟨"end$\x7d".toList, rfl⟩
  have hword : KeywordSpelling ['E', 'N', 'D'] "end$\x7d".toList "$\x7d".toList :=
    ⟨"end".toList, ⟨[], by simp, rfl⟩, by decide, by simp; decide⟩
  have hend : Item.Spelling "\x7b$end$\x7d".toList .closeLoop [] :=
    .closeLoop hword (.close ⟨[], by simp, rfl⟩)
  have hrun : Item.Run (.ofString "a\n\\\x7b\x7b$end$\x7d")
      [⟨.text "a\n\x7b", ⟨1, 1⟩⟩, ⟨.closeLoop, ⟨2, 3⟩⟩] ⟨[], ⟨2, 10⟩⟩ :=
    .cons (d := ⟨"\x7b$end$\x7d".toList, ⟨2, 3⟩⟩) (u := "a\n\\\x7b".toList) htext ⟨rfl, rfl⟩
      (.cons (u := "\x7b$end$\x7d".toList) hend ⟨rfl, rfl⟩ .nil)
  have hbefore : Item.WithinLimit 0 [.text "a\n\x7b"] :=
    Node.withinLimit_itemsBelow_iff.mpr (show Node.nestingBelow [.text "a\n\x7b"] ≤ 0 by decide)
  have hparse : parse "a\n\\\x7b\x7b$end$\x7d" ⟨0⟩ =
      .error (Fault.unmatchedEnd.toError ⟨2, 3⟩) :=
    parse_eq_of_verdict ⟨hrun, Item.stops_of_rest_eq_nil rfl⟩
      (.unmatchedEnd (p := [⟨.text "a\n\x7b", ⟨1, 1⟩⟩]) rfl hbefore rfl)
  exact ⟨hparse, parse_error_position hparse⟩

end TagTemplate
