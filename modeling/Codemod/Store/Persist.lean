import Codemod.Store.RuleSet
/-!
# Writing rule sets

A rule set is written to a directory, each artifact to a file of its own whose
name is that of the artifact with a suffix that tells its kind.
-/

namespace Codemod

/-- What the names of files end in. -/
structure Suffixes where
  rule : String
  migration : String
  deriving DecidableEq, Inhabited

namespace Suffixes

/-- The suffixes unless others are asked for. -/
def standard : Suffixes := ⟨".rule", ".migration"⟩

/-- The name of the file of an artifact. -/
def fileName (s : Suffixes) : Artifact → String
  | .rule r => r.name ++ s.rule
  | .migration p => p.name ++ s.migration

/-- Both suffixes. -/
def all (s : Suffixes) : List String := [s.rule, s.migration]

end Suffixes

namespace RuleSet

variable {m : Type → Type} [Monad m]

/-- The rules, then the migration pairs. -/
def artifacts (s : RuleSet) : List Artifact :=
  s.rules.map .rule ++ s.migrations.map .migration

/-- Writes artifacts to a directory, up to the first that cannot be
written. -/
def writeAll (access : FileAccess m) (directory : String) (suffixes : Suffixes) :
    List Artifact → m (Except FileError Unit)
  | [] => return .ok ()
  | a :: rest => do
    match ← access.writeFile (FileAccess.join directory (suffixes.fileName a)) (Blob.encode a) with
    | .error e => return .error e
    | .ok () => writeAll access directory suffixes rest

/-- Writes the set to a directory, which is made if it is missing, and says
how many files that took. -/
def persist (s : RuleSet) (access : FileAccess m) (directory : String) (suffixes : Suffixes) :
    m (Except StoreError Nat) := do
  match ← access.createDirectory directory with
  | .error e => return .error (.files e)
  | .ok () =>
    match ← writeAll access directory suffixes s.artifacts with
    | .error e => return .error (.files e)
    | .ok () => return .ok s.size

end RuleSet

end Codemod
