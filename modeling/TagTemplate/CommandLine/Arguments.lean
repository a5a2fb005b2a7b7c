import TagTemplate.Options

/-!
# Arguments of the command line

The program takes the path of one document, and two options in any place: `--ast`
to dump the tree, and `--max-depth` with a number, as the next argument or after an
equals sign.  Each option may be given once.  Two dashes alone end the options, so
that whatever follows is a path; one dash alone is a path too.  A path is not empty.

The arguments are read from left to right.  Whoever asks for help where an option may
stand is given help, whatever comes after, unless an earlier argument is wrong already.
So what is read is a request or else a `Notice`, which is either help or a complaint.
-/

namespace TagTemplate
namespace CommandLine

/-- What the program is asked to do. -/
structure Arguments where
  file : String
  /-- Whether the tree is dumped instead of the canonical text. -/
  dumpTree : Bool
  options : ParseOptions
  deriving DecidableEq, Repr

/-- What is said to whoever gives arguments that make no request. -/
structure Notice where
  text : String
  /-- Whether something is wrong with the arguments, so that the text is an error. -/
  isComplaint : Bool
  deriving DecidableEq, Repr

/-- The line that shows how the program is called. -/
def usage : String := "Usage: smartscript [OPTIONS] <FILE>\n"

/-- What is printed for whoever asks for help. -/
def helpText : String :=
  "Parses a SmartScript document and prints its canonical form\n\n" ++ usage ++
    "\nArguments:\n" ++
    "  <FILE>  Path to the document\n" ++
    "\nOptions:\n" ++
    "      --ast                    " ++
    "Print the parsed tree as JSON instead of the canonical text\n" ++
    "      --max-depth <MAX_DEPTH>  " ++
    "Maximum number of nested FOR loops [default: " ++
    toString ({} : ParseOptions).maxDepth ++ "]\n" ++
    "  -h, --help                   Print help\n"

/-- The help that was asked for. -/
def Notice.help : Notice := ⟨helpText, false⟩

/-- The complaint about arguments that are not well-formed.  Its wording does not say what
is wrong with them, and nothing depends on it. -/
def Notice.badArguments : Notice :=
  ⟨"error: these arguments are not understood\n\n" ++ usage, true⟩

/-- The arguments of which the first ones have been read. -/
structure Draft where
  file : Option String := none
  dumpTree : Bool := false
  maxDepth : Option Nat := none
  deriving DecidableEq, Repr

/-- A limit in decimal digits, with a plus sign in front or not. -/
def readLimit? (value : String) : Option Nat :=
  let digits :=
    match value.toList with
    | '+' :: digits => digits
    | digits => digits
  let limit := Nat.ofDigitChars 10 digits 0
  if digits ≠ [] ∧ digits.all Char.isDigit ∧ limit ≤ ParseOptions.largestLimit then some limit
  else none

namespace Draft

/-- Adds a path, unless it is empty or there is one already. -/
def addFile (draft : Draft) (file : String) : Except Notice Draft :=
  if file.isEmpty || draft.file.isSome then .error .badArguments
  else .ok { draft with file := some file }

/-- Adds a limit, unless it is malformed or there is one already. -/
def addLimit (draft : Draft) (value : String) : Except Notice Draft :=
  match draft.maxDepth, readLimit? value with
  | none, some limit => .ok { draft with maxDepth := some limit }
  | _, _ => .error .badArguments

/-- Adds the wish for a dump, unless it is there already. -/
def addDump (draft : Draft) : Except Notice Draft :=
  if draft.dumpTree then .error .badArguments else .ok { draft with dumpTree := true }

/-- Reads arguments that are all paths. -/
def readFiles (draft : Draft) : List String → Except Notice Draft
  | [] => .ok draft
  | file :: files => (draft.addFile file).bind (readFiles · files)

/-- The value of an argument that sets the limit with an equals sign. -/
def limitValue? (argument : String) : Option String :=
  let option := "--max-depth=".toList
  if option.isPrefixOf argument.toList then
    some (String.ofList (argument.toList.drop option.length))
  else none

/-- Whether an argument asks for help.  More letters may follow the short form. -/
def asksForHelp (argument : String) : Bool :=
  argument = "--help" || "-h".toList.isPrefixOf argument.toList

/-- Whether an argument is an option by its form. -/
def isOption (argument : String) : Bool :=
  match argument.toList with
  | '-' :: _ :: _ => true
  | _ => false

/-- Adds an argument that stands alone: an option with its value, or a path. -/
def addArgument (draft : Draft) (argument : String) : Except Notice Draft :=
  if asksForHelp argument then .error .help
  else if argument = "--ast" then draft.addDump
  else
    match limitValue? argument with
    | some value => draft.addLimit value
    | none => if isOption argument then .error .badArguments else draft.addFile argument

/-- Reads arguments and adds what they say. -/
def read (draft : Draft) : List String → Except Notice Draft
  | [] => .ok draft
  | ["--max-depth"] => .error .badArguments
  | argument :: value :: rest =>
      if argument = "--" then draft.readFiles (value :: rest)
      else if argument = "--max-depth" then (draft.addLimit value).bind (read · rest)
      else (draft.addArgument argument).bind (read · (value :: rest))
  | [argument] => if argument = "--" then .ok draft else draft.addArgument argument

/-- The request of a complete draft, which has a path. -/
def complete (draft : Draft) : Except Notice Arguments :=
  match draft.file with
  | none => .error .badArguments
  | some file => .ok ⟨file, draft.dumpTree, draft.maxDepth.elim {} fun limit => ⟨limit⟩⟩

end Draft

/-- Reads the arguments of the program. -/
def Arguments.read (arguments : List String) : Except Notice Arguments :=
  (Draft.read {} arguments).bind Draft.complete

end CommandLine
end TagTemplate
