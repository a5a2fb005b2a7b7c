import TagTemplate.Proofs.Canonical.RoundTrip
import TagTemplate.Proofs.CommandLine.Arguments
import TagTemplate.Proofs.Utf8

/-!
# What the program makes of a file

The exit code of the program says what the content of the file is: 2 for bytes that are no
text, 3 for a text that is refused, 4 for no bytes at all, and 0 for all other documents
(`Outcome.Classifies`).  That no other document has an empty canonical text, and that the
canonical text of a document always passes the check, is known of canonical texts:
`canonicalText_eq_empty_iff`, `checkCanonical_of_parse`.

`run_classifies` puts this together, for any reader of the arguments.  It also says that the
line for a check that fails is never the last one of the output, whatever the arguments and the
files are.  The one text of which a run knows nothing is the notice of a reader that it did not
choose, and there it prints the notice and nothing else.
-/

namespace TagTemplate

variable {text : String} {limit : Nat} {tree : Node} {bytes : List UInt8}

/-! ## Empty documents -/

/-- The document without any characters is read, as a tree without any nodes. -/
theorem parse_empty (limit : Nat) : parse "" ⟨limit⟩ = .ok (.document []) :=
  parse_of_derives ⟨[], .nil, rfl⟩ (Nat.zero_le limit)

/-- What was read is read again from its canonical text. -/
theorem parse_again (h : parse text ⟨limit⟩ = .ok tree) :
    parse tree.canonicalText ⟨limit⟩ = .ok tree := by
  obtain ⟨hderives, hlimit⟩ := derives_of_parse h
  exact parse_of_derives hderives.derives_canonicalText hlimit

/-- Only the document without any characters has an empty canonical text. -/
theorem canonicalText_eq_empty_iff (h : parse text ⟨limit⟩ = .ok tree) :
    tree.canonicalText = "" ↔ text = "" := by
  constructor
  · intro hempty
    -- the tree is read from the empty text again, so it is the tree without nodes
    have hagain := parse_again h
    rw [hempty, parse_empty] at hagain
    obtain ⟨⟨children, hbody, rfl⟩, -⟩ := derives_of_parse h
    obtain rfl : [] = children := Node.document.inj (Except.ok.inj hagain)
    generalize hrest : ([] : List Char) = rest at hbody
    cases hbody
    exact String.toList_eq_nil_iff.mp hrest.symm
  · rintro rfl
    rw [parse_empty] at h
    rw [← Except.ok.inj h]
    rfl

namespace CommandLine

/-! ## The parts of a run -/

/-- The text of a file is the one that its bytes encode. -/
theorem fileText_eq_ok_iff : fileText (.ok bytes) = .ok text ↔ Utf8.encode text = bytes := by
  have hall : (Source.chunk bytes .done).readAll = .ok bytes := by
    cases bytes <;> simp [Source.readAll, Except.map]
  rw [← Utf8.decode_eq_ok_iff, fileText, Source.readText]
  simp only [hall]
  cases Utf8.decode bytes <;> simp

/-- **The canonical text of a document passes the check.** -/
theorem checkCanonical_of_parse (h : parse text ⟨limit⟩ = .ok tree) :
    checkCanonical ⟨limit⟩ tree.canonicalText = (true, "") := by
  simp [checkCanonical, parse_again h]

variable {arguments : Arguments}

theorem code_outcome_of_unreadable (h : ¬ ∃ text, Utf8.encode text = bytes) :
    (arguments.outcome (.ok bytes)).code = 2 := by
  cases htext : fileText (.ok bytes) with
  | error reason => simp [Arguments.outcome, htext]
  | ok text => exact absurd ⟨text, fileText_eq_ok_iff.mp htext⟩ h

theorem code_outcome_of_rejected {error : Error} (htext : Utf8.encode text = bytes)
    (h : parse text arguments.options = .error error) :
    (arguments.outcome (.ok bytes)).code = 3 := by
  simp [Arguments.outcome, fileText_eq_ok_iff.mpr htext, h]

theorem outcome_of_accepted (htext : Utf8.encode text = bytes)
    (h : parse text arguments.options = .ok tree) :
    arguments.outcome (.ok bytes) = arguments.report tree := by
  simp [Arguments.outcome, fileText_eq_ok_iff.mpr htext, h]

theorem report_of_dumpTree (h : arguments.dumpTree = true) (tree : Node) :
    arguments.report tree = ⟨0, tree.toJson.pretty ++ "\n", ""⟩ := by
  rw [Arguments.report, if_pos h]

/-- What is printed for a document: nothing if it is empty, and otherwise its canonical text
with the line for a check that has passed. -/
theorem report_of_parse (hdump : arguments.dumpTree = false)
    (h : parse text arguments.options = .ok tree) : arguments.report tree =
      if text = "" then ⟨4, "", ""⟩
      else ⟨0, tree.canonicalText ++ "\n\nEquals: true\n", ""⟩ := by
  have hcheck : checkCanonical arguments.options tree.canonicalText = (true, "") :=
    checkCanonical_of_parse h
  have hempty : tree.canonicalText.isEmpty = decide (text = "") := by
    rw [Bool.eq_iff_iff, String.isEmpty_iff, decide_eq_true_iff]
    exact canonicalText_eq_empty_iff h
  simp only [Arguments.report, hdump, hcheck, hempty, decide_eq_true_eq, Bool.false_eq_true,
    if_false, if_true, String.append_assoc]
  rfl

/-! ## The end of the output -/

/-- A text ends in one line only. -/
theorem not_suffix_of_suffix {line ending output : List Char} (h : ending <:+ output)
    (hlength : ending.length ≤ line.length) (hne : ¬ ending <:+ line) : ¬ line <:+ output :=
  fun hline => hne (List.suffix_of_suffix_length_le h hline hlength)

/-- The JSON form of a tree is an object, so its text ends in a brace. -/
theorem suffix_pretty (tree : Node) : ['}', '\n'] <:+ (tree.toJson.pretty ++ "\n").toList := by
  have hobject : ∃ front, tree.toJson.pretty = front ++ "\x7d" := by
    cases tree <;> exact ⟨_, rfl⟩
  obtain ⟨front, hfront⟩ := hobject
  rw [hfront]
  exact ⟨front.toList, by simp⟩

/-- The line for a check that fails. -/
def failedCheck : List Char := "Equals: false\n".toList

theorem not_failedCheck_suffix_of_nil : ¬ failedCheck <:+ "".toList := by
  decide

theorem not_failedCheck_suffix_report (hparse : parse text arguments.options = .ok tree) :
    ¬ failedCheck <:+ (arguments.report tree).output.toList := by
  cases hdump : arguments.dumpTree with
  | true =>
    rw [report_of_dumpTree hdump]
    exact not_suffix_of_suffix (suffix_pretty tree) (by decide) (by decide)
  | false =>
    rw [report_of_parse hdump hparse]
    split
    · exact not_failedCheck_suffix_of_nil
    · have hpassed : "Equals: true\n".toList <:+
          (tree.canonicalText ++ "\n\nEquals: true\n").toList :=
        ⟨(tree.canonicalText ++ "\n\n").toList, by simp⟩
      exact not_suffix_of_suffix hpassed (by decide) (by decide)

/-- What a request leaves behind does not end with the line for a check that fails. -/
theorem not_failedCheck_suffix_outcome (content : Except ReadFault (List UInt8)) :
    ¬ failedCheck <:+ (arguments.outcome content).output.toList := by
  cases htext : fileText content with
  | error reason =>
    simp only [Arguments.outcome, htext]
    exact not_failedCheck_suffix_of_nil
  | ok text =>
    cases hparse : parse text arguments.options with
    | error error =>
      simp only [Arguments.outcome, htext, hparse]
      exact not_failedCheck_suffix_of_nil
    | ok tree =>
      simp only [Arguments.outcome, htext, hparse]
      exact not_failedCheck_suffix_report hparse

theorem not_failedCheck_suffix_help : ¬ failedCheck <:+ Notice.help.outcome.output.toList := by
  have hlast : "help\n".toList <:+ helpText.toList := by
    obtain ⟨front, hfront⟩ : ∃ front, helpText =
        front ++ "  -h, --help                   Print help\n" := ⟨_, rfl⟩
    rw [hfront, String.toList_append]
    exact List.IsSuffix.trans (by decide) (List.suffix_append _ _)
  rw [Notice.outcome_help]
  exact not_suffix_of_suffix hlast (by decide) (by decide)

section Reader

variable (readArguments : List String → Except Notice Arguments)
  (readFile : String → Except ReadFault (List UInt8))

/-- A run gives the notice of the reader of its arguments, or else what it prints does not end
with the line for a check that fails. -/
theorem notice_or_not_failedCheck_suffix (arguments : List String) :
    (∃ notice, readArguments arguments = .error notice ∧
        runWith readArguments readFile arguments = notice.outcome) ∨
      ¬ failedCheck <:+ (runWith readArguments readFile arguments).output.toList := by
  cases hread : readArguments arguments with
  | error notice => exact .inl ⟨notice, rfl, by simp only [runWith, hread]⟩
  | ok request =>
    right
    simp only [runWith, hread]
    exact not_failedCheck_suffix_outcome _

/-- **No run ends its output with the line for a check that fails.**  The two notices of the
reader `Arguments.read` are known. -/
theorem not_failedCheck_suffix_run (arguments : List String) :
    ¬ failedCheck <:+ (run readFile arguments).output.toList := by
  obtain ⟨notice, hread, hrun⟩ | hrun :=
    notice_or_not_failedCheck_suffix Arguments.read readFile arguments
  · rw [run, hrun]
    obtain rfl | rfl := Arguments.answers_read arguments notice hread
    · exact not_failedCheck_suffix_help
    · exact not_failedCheck_suffix_of_nil
  · exact hrun

end Reader

/-! ## The whole run -/

/-- What a run without a dump leaves behind says what the bytes of the file are. -/
structure Outcome.Classifies (outcome : Outcome) (limit : Nat) (bytes : List UInt8) :
    Prop where
  unreadable : outcome.code = 2 ↔ ¬ ∃ text, Utf8.encode text = bytes
  rejected : outcome.code = 3 ↔
    ∃ text error, Utf8.encode text = bytes ∧ parse text ⟨limit⟩ = .error error
  empty : outcome.code = 4 ↔ bytes = []
  checked : outcome.code ≠ 2 → outcome.code ≠ 3 → outcome.code ≠ 4 →
    ∃ text tree, Utf8.encode text = bytes ∧ parse text ⟨limit⟩ = .ok tree ∧
      outcome = ⟨0, tree.canonicalText ++ "\n\nEquals: true\n", ""⟩

section Classifies

variable (file : String)

/-- Bytes that are no text are not read, and are not the empty file. -/
theorem classifies_of_unreadable (h : ¬ ∃ text, Utf8.encode text = bytes) :
    (Arguments.outcome ⟨file, false, ⟨limit⟩⟩ (.ok bytes)).Classifies limit bytes := by
  have hcode : (Arguments.outcome ⟨file, false, ⟨limit⟩⟩ (.ok bytes)).code = 2 :=
    code_outcome_of_unreadable h
  refine ⟨iff_of_true hcode h, ?_, ?_, fun hreadable => absurd hcode hreadable⟩
  · rw [hcode]
    refine iff_of_false (by decide) ?_
    rintro ⟨text, error, htext, -⟩
    exact h ⟨text, htext⟩
  · rw [hcode]
    refine iff_of_false (by decide) ?_
    rintro rfl
    exact h ⟨"", rfl⟩

/-- Bytes encode one text at most, and only no bytes encode the text without characters. -/
theorem eq_of_encode_eq {other : String} (htext : Utf8.encode text = bytes)
    (hother : Utf8.encode other = bytes) : other = text := by
  rw [← Utf8.decode_eq_ok_iff] at htext hother
  exact Except.ok.inj (hother.symm.trans htext)

theorem eq_nil_iff_of_encode (htext : Utf8.encode text = bytes) : bytes = [] ↔ text = "" := by
  constructor
  · rintro rfl
    exact (eq_of_encode_eq htext rfl).symm
  · rintro rfl
    exact htext.symm

theorem classifies_of_rejected {error : Error} (htext : Utf8.encode text = bytes)
    (hparse : parse text ⟨limit⟩ = .error error) :
    (Arguments.outcome ⟨file, false, ⟨limit⟩⟩ (.ok bytes)).Classifies limit bytes := by
  have hcode : (Arguments.outcome ⟨file, false, ⟨limit⟩⟩ (.ok bytes)).code = 3 :=
    code_outcome_of_rejected htext hparse
  refine ⟨?_, iff_of_true hcode ⟨text, error, htext, hparse⟩, ?_,
    fun _ haccepted => absurd hcode haccepted⟩
  · rw [hcode]
    exact iff_of_false (by decide) (not_not_intro ⟨text, htext⟩)
  · rw [hcode, eq_nil_iff_of_encode htext]
    refine iff_of_false (by decide) ?_
    rintro rfl
    rw [parse_empty] at hparse
    cases hparse

theorem classifies_of_accepted (htext : Utf8.encode text = bytes)
    (hparse : parse text ⟨limit⟩ = .ok tree) :
    (Arguments.outcome ⟨file, false, ⟨limit⟩⟩ (.ok bytes)).Classifies limit bytes := by
  have hreport : Arguments.outcome ⟨file, false, ⟨limit⟩⟩ (.ok bytes) =
      if text = "" then ⟨4, "", ""⟩ else ⟨0, tree.canonicalText ++ "\n\nEquals: true\n", ""⟩ :=
    (outcome_of_accepted htext hparse).trans (report_of_parse rfl hparse)
  have hreadable := not_not_intro (⟨text, htext⟩ : ∃ text, Utf8.encode text = bytes)
  have haccepted : ¬ ∃ text error, Utf8.encode text = bytes ∧
      parse text ⟨limit⟩ = .error error := by
    rintro ⟨other, error, hother, herror⟩
    rw [eq_of_encode_eq htext hother, hparse] at herror
    cases herror
  have hempty := eq_nil_iff_of_encode htext
  rw [hreport]
  by_cases hchars : text = ""
  · rw [if_pos hchars]
    exact ⟨iff_of_false (by decide) hreadable, iff_of_false (by decide) haccepted,
      iff_of_true rfl (hempty.mpr hchars), fun _ _ h => absurd rfl h⟩
  · rw [if_neg hchars]
    exact ⟨iff_of_false (by simp) hreadable, iff_of_false (by simp) haccepted,
      iff_of_false (by simp) (mt hempty.mp hchars),
      fun _ _ _ => ⟨text, tree, htext, hparse, rfl⟩⟩

/-- The code of a run without a dump says what the file is. -/
theorem classifies_outcome (limit : Nat) (bytes : List UInt8) :
    (Arguments.outcome ⟨file, false, ⟨limit⟩⟩ (.ok bytes)).Classifies limit bytes := by
  by_cases hutf8 : ∃ text, Utf8.encode text = bytes
  · obtain ⟨text, htext⟩ := hutf8
    cases hparse : parse text ⟨limit⟩ with
    | error error => exact classifies_of_rejected file htext hparse
    | ok tree => exact classifies_of_accepted file htext hparse
  · exact classifies_of_unreadable file hutf8

end Classifies

/-- **The program classifies every file, and its check never fails.**  Without a dump the
exit code says what the file is; with a dump the tree of every document is printed, that of
the empty one included; and no output ends with the line for a check that fails.  This is so
with every reader of the arguments, whose notices are all that is printed if it gives one. -/
theorem run_classifies (readArguments : List String → Except Notice Arguments)
    (readFile : String → Except ReadFault (List UInt8)) (arguments : List String)
    {file : String} {dumpTree : Bool} {limit : Nat} {bytes : List UInt8}
    (harguments : readArguments arguments = .ok ⟨file, dumpTree, ⟨limit⟩⟩)
    (hread : readFile file = .ok bytes) :
    (dumpTree = false →
        (runWith readArguments readFile arguments).Classifies limit bytes) ∧
      (dumpTree = true → ∀ text tree, Utf8.encode text = bytes → parse text ⟨limit⟩ = .ok tree →
        runWith readArguments readFile arguments = ⟨0, tree.toJson.pretty ++ "\n", ""⟩) ∧
      (dumpTree = true → bytes = [] →
        runWith readArguments readFile arguments =
          ⟨0, (Node.document []).toJson.pretty ++ "\n", ""⟩) ∧
      (∀ readFile arguments,
        (∃ notice, readArguments arguments = .error notice ∧
            runWith readArguments readFile arguments = notice.outcome) ∨
          ¬ "Equals: false\n".toList <:+
            (runWith readArguments readFile arguments).output.toList) ∧
      ∀ readFile arguments,
        ¬ "Equals: false\n".toList <:+ (run readFile arguments).output.toList := by
  have hrun : runWith readArguments readFile arguments =
      Arguments.outcome ⟨file, dumpTree, ⟨limit⟩⟩ (.ok bytes) := by
    simp only [runWith, harguments, hread]
  have hdump : dumpTree = true → ∀ text tree, Utf8.encode text = bytes →
      parse text ⟨limit⟩ = .ok tree →
        runWith readArguments readFile arguments = ⟨0, tree.toJson.pretty ++ "\n", ""⟩ := by
    rintro rfl text tree htext hparse
    rw [hrun, outcome_of_accepted htext hparse, report_of_dumpTree rfl]
  refine ⟨?_, hdump, ?_, notice_or_not_failedCheck_suffix readArguments,
    not_failedCheck_suffix_run⟩
  · rintro rfl
    rw [hrun]
    exact classifies_outcome file limit bytes
  · rintro htrue rfl
    exact hdump htrue "" _ rfl (parse_empty limit)

/-- Bytes that end inside a character, and no bytes at all, without a dump and with one; and
help that is asked for before a second path. -/
theorem run_classifies_of_bytes :
    Arguments.read ["--max-depth=0", "page"] = .ok ⟨"page", false, ⟨0⟩⟩ ∧
      Arguments.read ["page", "--ast"] = .ok ⟨"page", true, ⟨128⟩⟩ ∧
      (runWith Arguments.read (fun _ => .ok [0xC3]) ["--max-depth=0", "page"]).code = 2 ∧
      (runWith Arguments.read (fun _ => .ok []) ["--max-depth=0", "page"]).code = 4 ∧
      runWith Arguments.read (fun _ => .ok []) ["page", "--ast"] =
        ⟨0, (Node.document []).toJson.pretty ++ "\n", ""⟩ ∧
      ¬ "Equals: false\n".toList <:+
        (run (fun _ => .ok []) ["page", "--help", "other"]).output.toList := by
  have hplain : Arguments.read ["--max-depth=0", "page"] = .ok ⟨"page", false, ⟨0⟩⟩ := rfl
  have hdump : Arguments.read ["page", "--ast"] = .ok ⟨"page", true, ⟨128⟩⟩ := rfl
  have hbytes : ¬ ∃ text, Utf8.encode text = [0xC3] := by
    rintro ⟨text, htext⟩
    rw [← Utf8.decode_eq_ok_iff] at htext
    have herror : Utf8.decode [0xC3] = .error (.incomplete 0) := by decide
    rw [herror] at htext
    exact absurd htext (by simp)
  have hcut := (run_classifies Arguments.read (fun _ => .ok [0xC3]) _ hplain rfl).1 rfl
  have hempty := (run_classifies Arguments.read (fun _ => .ok []) _ hplain rfl).1 rfl
  obtain ⟨-, -, hnothing, -, hchecks⟩ :=
    run_classifies Arguments.read (fun _ => .ok []) _ hdump rfl
  exact ⟨hplain, hdump, hcut.unreadable.mpr hbytes, hempty.empty.mpr rfl,
    hnothing rfl rfl, hchecks _ _⟩

end CommandLine
end TagTemplate
