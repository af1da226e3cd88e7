/-! # Files

A tree of files to read from, for runs without a file system.

* `ReadError`: why a file cannot be read.
* `FileTree`: files by the names on the way to them, and the directory in which paths begin.
* `FileTree.read`: the content of the file at a path.
-/

namespace MonkeySyntax.Command

/-- The reason **why a text cannot be read**. -/
inductive ReadError where
  /-- Nothing has that name. -/
  | notFound
  /-- Something on the way to the file is no directory. -/
  | notADirectory
  /-- A directory has that name. -/
  | isADirectory
  /-- The bytes are no text in UTF-8. -/
  | invalidText
  /-- Any other reason, in the words of the system. -/
  | other (description : String)
  deriving DecidableEq, Repr

/-- An error of the system as it is shown, with its number, name and wording. -/
def systemError (code : Nat) (kind message : String) : String :=
  "Os \x7b code: " ++ Nat.repr code ++ ", kind: " ++ kind ++ ", message: \"" ++ message ++ "\" \x7d"

/-- A reason as it is **shown**. -/
def ReadError.describe : ReadError → String
  | notFound => systemError 2 "NotFound" "No such file or directory"
  | notADirectory => systemError 20 "NotADirectory" "Not a directory"
  | isADirectory => systemError 21 "IsADirectory" "Is a directory"
  | invalidText =>
    "Error \x7b kind: InvalidData, message: \"stream did not contain valid UTF-8\" \x7d"
  | other description => description

/-- A **tree of files**. Directories are there by what they hold. -/
structure FileTree where
  /-- The contents of the files by the names on the way from the root. -/
  files : List (List String × ByteArray)
  /-- The directory in which relative paths begin. -/
  workingDirectory : List String

namespace FileTree

/-- The file at a place. -/
def file? (t : FileTree) (place : List String) : Option ByteArray :=
  t.files.lookup place

/-- Whether a directory is at a place: the root, the working directory with those around it, and
what lies on the way to a file. -/
def isDirectory (t : FileTree) (place : List String) : Bool :=
  place.isPrefixOf t.workingDirectory ||
    t.files.any fun (way, _) => place.isPrefixOf way && place.length < way.length

/-- One name further. A name leads on from a directory only; the empty name and `.` stay there, and
`..` leads to the directory around it. -/
def step (t : FileTree) (place : List String) (name : String) : Except ReadError (List String) :=
  if !t.isDirectory place then
    .error .notADirectory
  else if name = "" ∨ name = "." then
    .ok place
  else if name = ".." then
    .ok place.dropLast
  else
    let next := place ++ [name]
    if (t.file? next).isSome || t.isDirectory next then .ok next else .error .notFound

/-- The names in a path and the place in which it begins. -/
def start (t : FileTree) (path : String) : List String :=
  if path.startsWith "/" then [] else t.workingDirectory

/-- The **content** of the file at a path. -/
def read (t : FileTree) (path : String) : Except ReadError ByteArray := do
  let place ← (path.splitOn "/").foldlM t.step (t.start path)
  match t.file? place with
  | some content => .ok content
  | none => .error .isADirectory

end FileTree

/-- The name of the file that a path leads to: what stands behind its last slash. -/
def fileName (path : String) : String :=
  (path.splitOn "/").getLast?.getD path

end MonkeySyntax.Command
