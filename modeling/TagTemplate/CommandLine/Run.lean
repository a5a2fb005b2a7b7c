import TagTemplate.Canonical
import TagTemplate.CommandLine.Arguments
import TagTemplate.CommandLine.Folder
import TagTemplate.Json.Tree
import TagTemplate.Source

/-!
# The command line

The program prints the canonical text of a document and then checks that this text
reads back to a tree with the same text.  With `--ast` it prints the tree as JSON
instead.  Its exit code tells what went wrong: 1 for bad arguments, 2 for a file that
cannot be read, 3 for a document that cannot be parsed, and 4 for a document whose
canonical text is empty.  To give the help that was asked for is no failure.

How the arguments are read is left to a reader that is handed to the program,
`runWith`, like the files are; `run` is the program with the reader of
`TagTemplate.CommandLine.Arguments`.
-/

namespace TagTemplate
namespace CommandLine

/-- What a run of the program leaves behind. -/
structure Outcome where
  code : Nat
  output : String
  errors : String
  deriving DecidableEq, Repr

/-- What is left behind when there is only a notice to give: a complaint is printed as an
error, and help is printed as what was asked for. -/
def Notice.outcome (notice : Notice) : Outcome :=
  if notice.isComplaint then ⟨1, "", notice.text⟩ else ⟨0, notice.text, ""⟩

/-- Whether a canonical text reads back to a tree with the same text, and the line
for the standard error if it cannot be read at all. -/
def checkCanonical (options : ParseOptions) (canonical : String) : Bool × String :=
  match parse canonical options with
  | .ok document => (document.canonicalText = canonical, "")
  | .error error => (false, error.text ++ "\n")

/-- What the program prints for a document that has been read. -/
def Arguments.report (arguments : Arguments) (document : Node) : Outcome :=
  if arguments.dumpTree then ⟨0, document.toJson.pretty ++ "\n", ""⟩
  else
    let canonical := document.canonicalText
    if canonical.isEmpty then ⟨4, "", ""⟩
    else
      let check := checkCanonical arguments.options canonical
      ⟨0, canonical ++ "\n\nEquals: " ++ (if check.1 then "true" else "false") ++ "\n", check.2⟩

/-- The text of a file, or the reason why there is none. -/
def fileText (content : Except ReadFault (List UInt8)) : Except String String :=
  match content with
  | .error fault => .error fault.reason
  | .ok bytes => (Source.chunk bytes .done).readText

/-- What the program does when the file that it is given has the given content. -/
def Arguments.outcome (arguments : Arguments) (content : Except ReadFault (List UInt8)) :
    Outcome :=
  match fileText content with
  | .error reason => ⟨2, "", "Unable to read " ++ arguments.file ++ ": " ++ reason ++ "\n"⟩
  | .ok text =>
      match parse text arguments.options with
      | .error error => ⟨3, "", "Unable to parse document!\n" ++ error.text ++ "\n"⟩
      | .ok document => arguments.report document

/-- What the program does, when `readArguments` makes a request of its arguments and
`readFile` gives the content of files. -/
def runWith (readArguments : List String → Except Notice Arguments)
    (readFile : String → Except ReadFault (List UInt8)) (arguments : List String) : Outcome :=
  match readArguments arguments with
  | .error notice => notice.outcome
  | .ok request => request.outcome (readFile request.file)

/-- What the program does, when `readFile` gives the content of files. -/
def run (readFile : String → Except ReadFault (List UInt8)) (arguments : List String) : Outcome :=
  runWith Arguments.read readFile arguments

end CommandLine
end TagTemplate
