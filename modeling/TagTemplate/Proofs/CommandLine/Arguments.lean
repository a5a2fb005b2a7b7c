import TagTemplate.CommandLine.Run

/-!
# What the arguments are read as

Arguments that make no request are answered, and there are two answers only: the help, and the
complaint (`Answers`).  Every reader of `TagTemplate.CommandLine.Arguments` answers so, hence
`Arguments.answers_read`.

Help is not an error.  It is given where it is asked for after arguments with which nothing is
wrong so far, whatever follows and whatever the files are: `run_of_asksForHelp`.
-/

namespace TagTemplate
namespace CommandLine

/-- A result that is an answer if it is no value: the help, or the complaint. -/
def Answers {α : Type} (result : Except Notice α) : Prop :=
  ∀ notice, result = .error notice → notice = .help ∨ notice = .badArguments

section Answers

variable {α β : Type}

theorem answers_ok (value : α) : Answers (.ok value) :=
  fun _ h => nomatch h

theorem answers_help : Answers (.error .help : Except Notice α) :=
  fun _ h => .inl (Except.error.inj h).symm

theorem answers_badArguments : Answers (.error .badArguments : Except Notice α) :=
  fun _ h => .inr (Except.error.inj h).symm

theorem Answers.bind {result : Except Notice α} {next : α → Except Notice β}
    (hresult : Answers result) (hnext : ∀ value, Answers (next value)) :
    Answers (result.bind next) := by
  cases result with
  | error notice => exact fun other h => hresult other (congrArg _ (Except.error.inj h))
  | ok value => exact hnext value

/-- Two readings in a row succeed only if both do. -/
theorem exists_of_bind_eq_ok {result : Except Notice α} {next : α → Except Notice β} {last : β}
    (h : result.bind next = .ok last) : ∃ value, result = .ok value ∧ next value = .ok last := by
  cases result with
  | error notice => cases h
  | ok value => exact ⟨value, rfl, h⟩

end Answers

namespace Draft

theorem answers_addFile (draft : Draft) (file : String) : Answers (draft.addFile file) := by
  unfold addFile
  split
  · exact answers_badArguments
  · exact answers_ok _

theorem answers_addLimit (draft : Draft) (value : String) : Answers (draft.addLimit value) := by
  unfold addLimit
  split
  · exact answers_ok _
  · exact answers_badArguments

theorem answers_addDump (draft : Draft) : Answers draft.addDump := by
  unfold addDump
  split
  · exact answers_badArguments
  · exact answers_ok _

theorem answers_addArgument (draft : Draft) (argument : String) :
    Answers (draft.addArgument argument) := by
  fun_cases addArgument draft argument with
  | case1 hhelp => exact answers_help
  | case2 _ hdump => exact draft.answers_addDump
  | case3 _ _ value hvalue => exact draft.answers_addLimit value
  | case4 => exact answers_badArguments
  | case5 => exact draft.answers_addFile argument

theorem answers_readFiles (draft : Draft) (files : List String) :
    Answers (draft.readFiles files) := by
  induction files generalizing draft with
  | nil => exact answers_ok draft
  | cons file files ih => exact (draft.answers_addFile file).bind ih

theorem answers_read (draft : Draft) (arguments : List String) :
    Answers (draft.read arguments) := by
  fun_induction read draft arguments with
  | case1 draft => exact answers_ok draft
  | case2 => exact answers_badArguments
  | case3 draft value rest => exact draft.answers_readFiles (value :: rest)
  | case4 draft value rest _ ih => exact (draft.answers_addLimit value).bind ih
  | case5 draft argument value rest _ _ ih => exact (draft.answers_addArgument argument).bind ih
  | case6 draft => exact answers_ok draft
  | case7 draft argument _ _ => exact draft.answers_addArgument argument

theorem answers_complete (draft : Draft) : Answers draft.complete := by
  unfold complete
  split
  · exact answers_badArguments
  · exact answers_ok _

/-- An argument that asks for help ends the reading where it is met. -/
theorem read_of_asksForHelp {argument : String} (h : asksForHelp argument = true)
    (draft : Draft) (rest : List String) : draft.read (argument :: rest) = .error .help := by
  have hdashes : argument ≠ "--" := by
    rintro rfl
    exact absurd h (by decide)
  have hlimit : argument ≠ "--max-depth" := by
    rintro rfl
    exact absurd h (by decide)
  have hadd : draft.addArgument argument = .error .help := by
    rw [addArgument, if_pos h]
  cases rest with
  | nil => simp [read, hdashes, hadd]
  | cons value rest => simp [read, hdashes, hlimit, hadd, Except.bind]

/-- So does one that comes after arguments that are read, unless they have ended the options. -/
theorem read_append_of_asksForHelp {argument : String} (h : asksForHelp argument = true)
    (rest : List String) {draft draft' : Draft} {before : List String}
    (hbefore : draft.read before = .ok draft') (hdashes : "--" ∉ before) :
    draft.read (before ++ argument :: rest) = .error .help := by
  fun_induction read draft before with
  | case1 draft => exact read_of_asksForHelp h draft rest
  | case2 => cases hbefore
  | case3 => exact absurd List.mem_cons_self hdashes
  | case4 draft value later hne ih =>
    have hlater : "--" ∉ later := fun hmem => hdashes (.tail _ (.tail _ hmem))
    obtain ⟨next, hadd, hread⟩ := exists_of_bind_eq_ok hbefore
    simp [read, hadd, Except.bind, ih next hread hlater]
  | case5 draft first value later hne hlimit ih =>
    have hlater : "--" ∉ value :: later := fun hmem => hdashes (.tail _ hmem)
    obtain ⟨next, hadd, hread⟩ := exists_of_bind_eq_ok hbefore
    have hnext := ih next hread hlater
    rw [List.cons_append] at hnext
    simp [read, hne, hlimit, hadd, Except.bind, hnext]
  | case6 => exact absurd List.mem_cons_self hdashes
  | case7 draft last hlimit hne =>
    have hlimit : last ≠ "--max-depth" := hlimit
    simp [read, hne, hlimit, hbefore, Except.bind, read_of_asksForHelp h]

end Draft

/-- **Arguments that make no request are answered with the help or with the complaint.** -/
theorem Arguments.answers_read (arguments : List String) : Answers (Arguments.read arguments) :=
  (Draft.answers_read {} arguments).bind Draft.answers_complete

/-- To give help is a success. -/
theorem Notice.outcome_help : Notice.help.outcome = ⟨0, helpText, ""⟩ :=
  rfl

/-- **Whoever asks for help is given help**, if nothing was wrong with the arguments before. -/
theorem run_of_asksForHelp {argument : String} (h : Draft.asksForHelp argument = true)
    {before : List String} {draft : Draft} (hbefore : Draft.read {} before = .ok draft)
    (hdashes : "--" ∉ before) (readFile : String → Except ReadFault (List UInt8))
    (rest : List String) : run readFile (before ++ argument :: rest) = ⟨0, helpText, ""⟩ := by
  have hread : Arguments.read (before ++ argument :: rest) = .error .help := by
    rw [Arguments.read, Draft.read_append_of_asksForHelp h rest hbefore hdashes]
    rfl
  simp only [run, runWith, hread, Notice.outcome_help]

/-- Here the second path is never read, which would be one too many. -/
example (readFile : String → Except ReadFault (List UInt8)) :
    run readFile ["page", "--help", "other"] = ⟨0, helpText, ""⟩ :=
  have hpage : Draft.read {} ["page"] = .ok ⟨some "page", false, none⟩ := rfl
  have hhelp : Draft.asksForHelp "--help" = true := by decide
  run_of_asksForHelp hhelp hpage (by decide) readFile ["other"]

end CommandLine
end TagTemplate
