import BinaryXml.Command.Outcome

/-!
# Directories and paths

A directory holds entries under names: regular files, folders with entries of their own, and others
that are neither. A path is told by the names that lead to it, with slashes between them.
-/

namespace BinaryXml.Command

/-- What stands in a directory under a name. -/
inductive Entry where
  | file (name : String) (content : Input)
  | folder (name : String) (entries : List Entry)
  /-- Neither of them, such as a link. -/
  | other (name : String)

def Entry.name : Entry → String
  | file name _ => name
  | folder name _ => name
  | other name => name

mutual

/-- The regular files at an entry or below it, each with the names that lead to it. -/
def Entry.files : Entry → List (List String × Input)
  | .file name content => [([name], content)]
  | .folder name entries =>
    (filesBelow entries).map fun (names, content) => (name :: names, content)
  | .other _ => []

/-- The regular files at some entries or below them. -/
def filesBelow : List Entry → List (List String × Input)
  | [] => []
  | entry :: rest => entry.files ++ filesBelow rest

end

def pathOf (names : List String) : String :=
  "/".intercalate names

/-- The regular files below a directory that holds these entries, each with its path there. -/
def filesIn (entries : List Entry) : List (String × Input) :=
  (filesBelow entries).map fun (names, content) => (pathOf names, content)

/-- The name of the file that a path leads to. -/
def fileName (path : String) : List Char :=
  (path.toList.reverse.takeWhile (· ≠ '/')).reverse

/-- What stands behind the last dot of a file name, if something stands ahead of it. -/
def extension? (name : List Char) : Option (List Char) :=
  let behind := (name.reverse.takeWhile (· ≠ '.')).reverse
  let ahead := (name.reverse.dropWhile (· ≠ '.')).tail
  if ahead.isEmpty then none else some behind

def isXmlPath (path : String) : Bool :=
  extension? (fileName path) = some "xml".toList

/-- The folders on the way to a path, given what is `done` of it, the last character first. -/
def foldersOnto (done : List Char) : List Char → List String
  | [] => []
  | c :: rest =>
    let behind := foldersOnto (c :: done) rest
    if c = '/' then String.ofList done.reverse :: behind else behind

/-- The folders on the way to a path, the outermost first. -/
def foldersAbove (path : String) : List String :=
  foldersOnto [] path.toList

end BinaryXml.Command
