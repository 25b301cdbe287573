import Codemod.Blob.Artifact
import Codemod.Files.Access
import Codemod.Migration.Declaration
/-!
# Rule sets

A rule set holds rules and migration pairs in the order they were added. Names
are unique among all of them. Adding either extends the set or fails; a tree
is added as a whole or not at all. What can go wrong when rules are stored or
loaded is told first.
-/

namespace Codemod

/-! ## Errors -/

/-- Why rules cannot be stored or loaded. -/
inductive StoreError where
  /-- Reading failed as often as was tried. -/
  | read (resource : String) (attempts : Nat) (cause : FileError)
  /-- The bytes hold no artifact. -/
  | malformed (e : Blob.DecodeError)
  /-- They do not begin as an artifact does. -/
  | badMark (resource : String)
  /-- They are of another version. -/
  | unsupportedVersion (resource : String) (version : Nat)
  /-- An action on files failed. -/
  | files (cause : FileError)
  /-- The name of an artifact is taken. -/
  | duplicate (name : String)
  deriving DecidableEq, Inhabited

namespace StoreError

/-- What is reported. -/
def message : StoreError → String
  | .read resource attempts cause =>
    "Failed to read " ++ resource ++ " after " ++ toString attempts ++ " attempts: " ++
      cause.message
  | .malformed e => "Serialization error: " ++ e.message
  | .badMark resource => resource ++ " is not a compiled rule"
  | .unsupportedVersion resource version =>
    resource ++ " uses unsupported format version " ++ toString version
  | .files cause => "I/O error: " ++ cause.message
  | .duplicate name => "Duplicate rule name: " ++ name

/-- What is wrong with the bytes of a resource. -/
def ofBlob (resource : String) : Blob.BlobError → StoreError
  | .badMark => .badMark resource
  | .unsupportedVersion version => .unsupportedVersion resource version
  | .malformed e => .malformed e

end StoreError

/-- Why the declarations of a tree cannot be added to a set. -/
inductive UnitError where
  /-- A class declares no rule or no pair. -/
  | declaration (e : PairDeclarationError)
  /-- A name is taken. -/
  | store (e : StoreError)
  deriving DecidableEq, Inhabited

namespace UnitError

/-- What is reported. -/
def message : UnitError → String
  | .declaration e => e.message
  | .store e => "Storage error: " ++ e.message

end UnitError

/-- Rules and migration pairs, each in the order they were added. -/
structure RuleSet where
  rules : List Rule
  migrations : List MigrationPair
  deriving Inhabited

namespace RuleSet

/-- The set that sets are built from. -/
def empty : RuleSet := ⟨[], []⟩

variable (s : RuleSet)

/-- The rule of a name. -/
def rule? (name : String) : Option Rule := s.rules.find? (·.name == name)

/-- The migration pair of a name. -/
def migration? (name : String) : Option MigrationPair := s.migrations.find? (·.name == name)

/-- The names of the rules, then those of the migration pairs. -/
def names : List String := s.rules.map (·.name) ++ s.migrations.map (·.name)

/-- How many artifacts there are. -/
def size : Nat := s.rules.length + s.migrations.length

/-- There are no artifacts. -/
def isEmpty : Bool := s.size == 0

/-- Adds an artifact, whose name must be new. -/
def add (a : Artifact) : Except StoreError RuleSet :=
  if s.names.contains a.name then .error (.duplicate a.name)
  else
    match a with
    | .rule r => .ok { s with rules := s.rules ++ [r] }
    | .migration p => .ok { s with migrations := s.migrations ++ [p] }

/-- Adds artifacts one after another. -/
def addAll (artifacts : List Artifact) : Except StoreError RuleSet := artifacts.foldlM add s

/-- The rule is one direction of the pair. -/
def isGroupOf (r : Rule) (p : MigrationPair) : Bool :=
  r.name == p.forward.name || r.name == p.backward.name

/-- What a tree declares: its rules, except those that are one direction of a
pair, and then its pairs. -/
def declared (rejectComments : Bool) (root : Node) :
    Except PairDeclarationError (List Artifact) := do
  let pairs ← root.declaredPairs rejectComments
  let rules ← (root.declaredRules rejectComments).mapError .declaration
  return (rules.filter fun r => !pairs.any (isGroupOf r)).map .rule ++ pairs.map .migration

/-- Adds all that a tree declares. -/
def addUnit (rejectComments : Bool) (root : Node) : Except UnitError RuleSet := do
  let artifacts ← (declared rejectComments root).mapError .declaration
  (s.addAll artifacts).mapError .store

end RuleSet

end Codemod
