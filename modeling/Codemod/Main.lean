import Codemod.Command.Run
/-!
# The program

Runs the command that the arguments ask for on the files of the machine.
-/

namespace Codemod.Machine

/-- A failure as it is reported. -/
def fileError (e : IO.Error) : FileError :=
  match e with
  | .noFileOrDirectory _ number reason | .inappropriateType _ number reason
  | .permissionDenied _ number reason | .alreadyExists _ number reason =>
    .numbered reason number.toNat
  | .otherError number reason => .numbered reason number.toNat
  | e => ⟨toString e⟩

/-- An action, with its failure as a value. -/
def attempt {α : Type} (action : IO α) : IO (Except FileError α) := do
  match ← action.toBaseIO with
  | .ok a => return .ok a
  | .error e => return .error (fileError e)

/-- The names of the files directly in a directory. -/
def filesIn (path : String) : IO (List String) := do
  if path = "" then throw (.noFileOrDirectory path 2 "No such file or directory")
  let entries ← ((← IO.currentDir) / path).readDir
  let files ← entries.toList.filterM fun entry => do
    return (← entry.path.symlinkMetadata).type == .file
  return files.map (·.fileName)

/-- The files of the machine. -/
def files : FileAccess IO where
  readFile path := attempt do
    return (← IO.FS.readBinFile path).data.toList
  writeFile path content := attempt (IO.FS.writeBinFile path ⟨content.toArray⟩)
  filesIn path := attempt (filesIn path)
  createDirectory path := attempt do
    if path ≠ "" then IO.FS.createDirAll path

/-- The program on the files of the machine, for a `main` to call. It answers
the code to exit with. -/
def main (args : List String) : IO UInt32 := do
  let outcome ← Command.run files args
  let out ← IO.getStdout
  out.putStr outcome.output
  out.flush
  (← IO.getStderr).putStr (outcome.error.getD "")
  return UInt32.ofNat outcome.code

end Codemod.Machine
