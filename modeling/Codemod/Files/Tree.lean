import Codemod.Dict
import Codemod.Files.Access
import Codemod.Name
/-!
# File trees

A file tree is the files and directories around a working directory, held as a
value. A place in it is a list of names, which leads down from the working
directory, up from it when it begins with `..`, or down from the root when it
begins with the empty name. The root and the directories that the working
directory stands in are there in every tree.
-/

namespace Codemod

/-- What may stand in a file tree. -/
inductive FileEntry where
  | file (content : Bytes)
  | directory

/-- Files and directories by their places, whose names are joined by
strokes. -/
abbrev FileTree := Dict FileEntry

namespace FileTree

/-- The greatest number of bytes that a name may have. -/
def maxName : Nat := 255

/-- The greatest number of bytes that a path may have. -/
def maxPath : Nat := 4095

/-- The path of a place. -/
def pathText (parts : List String) : String := "/".intercalate parts

/-- What stands at a path. -/
inductive At where
  | missing
  | file (content : Bytes)
  | directory

variable (tree : FileTree)

/-- The working directory, or one that it stands in. -/
def isAround (place : List String) : Bool := place.all (· == "..")

/-- The place that absolute paths lead down from. -/
def root : List String := [""]

/-- What stands at a place. -/
def entryAt (place : List String) : At :=
  if isAround place || place == root then .directory
  else
    match tree.get? (pathText place) with
    | none => .missing
    | some (.file content) => .file content
    | some .directory => .directory

/-- One part of a path, from a place in the tree. -/
def enter (here : List String) (part : String) : Except FileError (List String) :=
  match entryAt tree here with
  | .missing => .error .notFound
  | .file _ => .error .notADirectory
  | .directory =>
    if part = "" || part = "." then .ok here
    else if part = ".." then
      .ok (if here = root then here else if isAround here then here ++ [part] else here.dropLast)
    else if maxName < part.utf8ByteSize then .error .nameTooLong
    else .ok (here ++ [part])

/-- A path between its strokes. -/
def split (path : String) : List String := (path.toList.splitOn '/').map String.ofList

/-- Where a path begins, and its parts from there. -/
def startOf (path : String) : Except FileError (List String × List String) :=
  if path.toList.contains '\x00' then .error .nameWithNul
  else if maxPath < path.utf8ByteSize then .error .nameTooLong
  else if path = "" then .error .notFound
  else
    match split path with
    | "" :: parts => .ok (root, parts)
    | parts => .ok ([], parts)

/-- The place that a path leads to. Every part but the last must be there. -/
def resolve (path : String) : Except FileError (List String) := do
  let (start, parts) ← startOf path
  parts.foldlM (enter tree) start

/-- The content of the file that a path leads to. -/
def readFile (path : String) : Except FileError Bytes := do
  match entryAt tree (← resolve tree path) with
  | .missing => .error .notFound
  | .file content => .ok content
  | .directory => .error .isADirectory

/-- The tree with a file at a path, in the room of a file that is there. -/
def writeFile (path : String) (content : Bytes) : Except FileError FileTree := do
  let place ← resolve tree path
  match entryAt tree place with
  | .directory => .error .isADirectory
  | _ => .ok (tree.insert (pathText place) (.file content))

/-- The names of the files directly in a place. -/
def namesIn (place : List String) : List String :=
  let above := if place.isEmpty then [] else (pathText place).toList ++ ['/']
  tree.entries.filterMap fun (path, entry) =>
    match entry with
    | .directory => none
    | .file _ =>
      let name := path.toList.drop above.length
      if above.isPrefixOf path.toList && !name.contains '/' then some (String.ofList name)
      else none

/-- The names of the files directly in the directory that a path leads to. -/
def filesIn (path : String) : Except FileError (List String) := do
  let place ← resolve tree path
  match entryAt tree place with
  | .missing => .error .notFound
  | .file _ => .error .notADirectory
  | .directory => .ok (namesIn tree place)

/-- A path leads to a directory. -/
def isDirectory (path : String) : Bool :=
  match (resolve tree path).map (entryAt tree) with
  | .ok .directory => true
  | _ => false

/-- Makes one directory in another that is there. Strokes at the end of its
path do not count. -/
def makeDirectory (path : String) : Except FileError FileTree := do
  let (start, parts) ← startOf path
  let parts := (parts.reverse.dropWhile (· = "")).reverse
  let above ← parts.dropLast.foldlM (enter tree) start
  let name := parts.getLastD ""
  let place ← enter tree above name
  if name = "." || name = ".." then .error .alreadyExists
  else
    match entryAt tree place with
    | .missing => .ok (tree.insert (pathText place) .directory)
    | _ => .error .alreadyExists

/-- The files of the tree with their paths, by ascending path. -/
def files : List (String × Bytes) :=
  tree.entries.filterMap fun (path, entry) =>
    match entry with
    | .file content => some (path, content)
    | .directory => none

/-! ## The tree as a place to act on -/

/-- Reads from the tree. -/
def ask {α : Type} (question : FileTree → Except FileError α) :
    StateM FileTree (Except FileError α) := do
  return question (← get)

/-- Changes the tree, unless that fails. -/
def change (step : FileTree → Except FileError FileTree) :
    StateM FileTree (Except FileError Unit) := do
  match step (← get) with
  | .ok tree =>
    set tree
    return .ok ()
  | .error e => return .error e

/-- The parts of a path that count for what stands above it: those that lead
nowhere are left out after the first. -/
def lineage (path : String) : List String :=
  match split path with
  | [] => []
  | first :: rest => first :: rest.filter fun part => part != "." && part != ""

/-- A directory that cannot be made will do if it is there. -/
def unlessThere (path : String) (e : FileError) : StateM FileTree (Except FileError Unit) := do
  return if isDirectory (← get) path then .ok () else .error e

/-- Makes a directory. If something above it is missing, that is made first;
`above` is what stands above the path, from the inside out. What was made
stays, even if the rest fails. -/
def makeBelow (path : String) (above : List String) :
    StateM FileTree (Except FileError Unit) := do
  match ← change (makeDirectory · path) with
  | .ok () => return .ok ()
  | .error e =>
    if e ≠ .notFound then unlessThere path e
    else
      let made ← match above with
        | [] => pure (.ok ())
        | _ :: rest => makeBelow (pathText above.reverse) rest
      match made with
      | .error e => return .error e
      | .ok () =>
        match ← change (makeDirectory · path) with
        | .ok () => return .ok ()
        | .error e => unlessThere path e

/-- Makes a directory and those above it, unless they are there. -/
def createDirectory (path : String) : StateM FileTree (Except FileError Unit) := do
  if path = "" then return .ok () else makeBelow path (lineage path).reverse.tail

/-- The actions on files, carried out on a tree. -/
def access : FileAccess (StateM FileTree) where
  readFile path := ask (readFile · path)
  writeFile path content := change (writeFile · path content)
  filesIn path := ask (filesIn · path)
  createDirectory := createDirectory

end FileTree

end Codemod
