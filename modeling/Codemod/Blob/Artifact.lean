import Codemod.Blob.Rules
/-!
# Artifacts

An artifact is what one file of a rule directory holds: a rule or a migration
pair. Its bytes begin with a mark by which they are known and the version of
their format; whatever follows the artifact is passed over.
-/

namespace Codemod

/-- What one file of a rule directory holds. -/
inductive Artifact where
  | rule (r : Rule)
  | migration (p : MigrationPair)
  deriving Inhabited

namespace Artifact

/-- The name an artifact is stored under. -/
def name : Artifact → String
  | .rule r => r.name
  | .migration p => p.name

end Artifact

namespace Blob

/-- The bytes that every artifact begins with. -/
def mark : Bytes := Text.utf8 "REFIT" ++ [0]

/-- The version of the format. -/
def version : Nat := 1

/-- Why bytes hold no artifact. -/
inductive BlobError where
  /-- They do not begin as an artifact does. -/
  | badMark
  | unsupportedVersion (version : Nat)
  | malformed (e : DecodeError)
  deriving DecidableEq, Inhabited

namespace Encode

/-- An artifact behind its header. -/
def artifact : Artifact → Bytes
  | .rule r => tag 0 ++ rule r
  | .migration p => tag 1 ++ migrationPair p

end Encode

namespace Decode

/-- What stands behind a header. -/
def artifact : Decoder Artifact := do
  match ← tag with
  | 0 => return .rule (← rule)
  | 1 => return .migration (← migrationPair)
  | n => throw (.noVariant n 2)

end Decode

/-- The bytes of an artifact. -/
def encode (a : Artifact) : Bytes := mark ++ Encode.fixed 2 version ++ Encode.artifact a

/-- The artifact that bytes hold. -/
def decode (bytes : Bytes) : Except BlobError Artifact :=
  let header := mark.length + 2
  let found := Decode.number ((bytes.take header).drop mark.length)
  if bytes.length < header || bytes.take mark.length != mark then .error .badMark
  else if found != version then .error (.unsupportedVersion found)
  else
    match Decode.artifact (bytes.drop header) with
    | .ok (a, _) => .ok a
    | .error e => .error (.malformed e)

end Blob

end Codemod
