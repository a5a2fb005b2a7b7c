import TagTemplate.CommandLine.Run

/-!
# The program

Reads the file that the arguments name, and prints what `TagTemplate.CommandLine`
says.
-/

namespace TagTemplate
namespace CommandLine

/-- Why the system refused to read a file. -/
def readFault (error : IO.Error) : ReadFault :=
  match error with
  | .noFileOrDirectory _ _ _ => .missing
  | .inappropriateType none _ _ => .isFolder
  | .inappropriateType (some _) _ _ => .notFolder
  | .permissionDenied _ _ _ => .other "Permission denied (os error 13)"
  | error => .other (toString error)

/-- The content of a file of the system. -/
def readFile (path : String) : IO (Except ReadFault (List UInt8)) := do
  try
    let bytes ← IO.FS.readBinFile path
    return .ok bytes.data.toList
  catch error =>
    return .error (readFault error)

end CommandLine
end TagTemplate

open TagTemplate.CommandLine in
def main (arguments : List String) : IO UInt32 := do
  let content ←
    match Arguments.read arguments with
    | .error _ => pure (.error .missing)
    | .ok request => readFile request.file
  let outcome := run (fun _ => content) arguments
  IO.print outcome.output
  IO.eprint outcome.errors
  return outcome.code.toUInt32
