import Codemod.Text.Utf8
/-!
# File access

What the program does with files, as a record of actions in some monad. The
actions of the machine it runs on are one such record, those on a file tree
held as a value another.
-/

namespace Codemod

/-- Why an action on files failed, as it is reported. -/
structure FileError where
  message : String
  deriving DecidableEq, Inhabited

namespace FileError

/-- A failure with the number that systems know it by. -/
def numbered (reason : String) (number : Nat) : FileError :=
  ⟨reason ++ " (os error " ++ toString number ++ ")"⟩

/-- Nothing stands at a path. -/
def notFound : FileError := numbered "No such file or directory" 2

/-- Something stands where a directory is to be made. -/
def alreadyExists : FileError := numbered "File exists" 17

/-- A file stands where a path goes on. -/
def notADirectory : FileError := numbered "Not a directory" 20

/-- A directory stands where a file is wanted. -/
def isADirectory : FileError := numbered "Is a directory" 21

/-- A name or a path has too many bytes. -/
def nameTooLong : FileError := numbered "File name too long" 36

/-- A path holds the character that ends it. -/
def nameWithNul : FileError := ⟨"file name contained an unexpected NUL byte"⟩

end FileError

/-- Actions on files. -/
structure FileAccess (m : Type → Type) where
  readFile : (path : String) → m (Except FileError Bytes)
  writeFile : (path : String) → Bytes → m (Except FileError Unit)
  /-- The names of the files directly in a directory, in any order. -/
  filesIn : (path : String) → m (Except FileError (List String))
  /-- Makes a directory, and those above it, unless it is there. -/
  createDirectory : (path : String) → m (Except FileError Unit)

namespace FileAccess

/-- The path begins at the root. -/
def isAbsolute (path : String) : Bool := path.toList.head? == some '/'

/-- The path of a name in a directory. A name that begins at the root stands
for itself. -/
def join (directory name : String) : String :=
  if directory = "" || isAbsolute name then name
  else if directory.toList.getLast? = some '/' then directory ++ name
  else directory ++ "/" ++ name

end FileAccess

end Codemod
