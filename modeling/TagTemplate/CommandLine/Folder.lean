/-!
# Files and folders

The files that the program can see, as a value.  A path is walked from folder to
folder, name by name.  A file has nothing inside, so a name, or a mere slash, after
the name of a file is an error of its own.
-/

namespace TagTemplate
namespace CommandLine

/-- A file with its bytes, or a folder with its entries by name. -/
inductive Entry where
  | file (bytes : List UInt8)
  | folder (entries : List (String × Entry))

/-- Why a path gives no bytes. -/
inductive ReadFault where
  /-- Nothing has the name. -/
  | missing
  /-- The path leads to a folder. -/
  | isFolder
  /-- The path goes on after a file. -/
  | notFolder
  /-- Any other reason, in words. -/
  | other (reason : String)
  deriving DecidableEq, Repr

/-- The wording of a reason, with the number by which the system knows it. -/
def ReadFault.reason : ReadFault → String
  | missing => "No such file or directory (os error 2)"
  | isFolder => "Is a directory (os error 21)"
  | notFolder => "Not a directory (os error 20)"
  | other reason => reason

/-- The names that a path is made of.  Two slashes in a row have an empty name
between them, and a slash at the front or at the end has one outside of it. -/
def pathNames (path : String) : List String :=
  (path.toList.splitOn '/').map String.ofList

/-- Walks from an entry inside of folders, the innermost one first, by the names of a
path.  An empty name and a single dot stay where they are, and two dots lead to the
folder around; the outermost folder is around itself. -/
def Entry.walk (here : Entry) (around : List Entry) : List String → Except ReadFault Entry
  | [] => .ok here
  | name :: names =>
      match here with
      | .file _ => .error .notFolder
      | .folder entries =>
          if name = "" ∨ name = "." then walk here around names
          else if name = ".." then
            match around with
            | [] => walk here [] names
            | outer :: around => walk outer around names
          else
            match entries.lookup name with
            | none => .error .missing
            | some entry => walk entry (here :: around) names

/-- The bytes of the file that a path leads to from the folder `here`, inside of the
folders `around`.  A path that starts with a slash starts at the outermost one. -/
def readPath (here : Entry) (around : List Entry) (path : String) :
    Except ReadFault (List UInt8) :=
  let walked :=
    if path.toList.head? = some '/' then (around.getLastD here).walk [] (pathNames path)
    else here.walk around (pathNames path)
  match walked with
  | .error fault => .error fault
  | .ok (.folder _) => .error .isFolder
  | .ok (.file bytes) => .ok bytes

end CommandLine
end TagTemplate
