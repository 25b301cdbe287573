import Codemod.Store.RuleSet
/-!
# Loading rule sets

A loader lists resources and reads them, and both may fail. `RuleStore` loads
the set that they hold, reading each as often as it takes within a limit, and
keeps it from then on; a load that fails leaves nothing kept. A store is asked
for its rules as often as one likes. In between it may be told to forget them,
and then it loads them again.
-/

namespace Codemod

/-- A source of stored artifacts. -/
structure Loader (m : Type → Type) where
  /-- The names of the resources, in a fixed order. -/
  list : m (Except FileError (List String))
  read : (name : String) → m (Except FileError Bytes)

namespace Loader

variable {m : Type → Type} [Monad m]

/-- Reads a resource, and reads it again after a failure, but no more often
than that. -/
def readRetrying (loader : Loader m) (name : String) : (retries : Nat) →
    m (Except FileError Bytes)
  | 0 => loader.read name
  | retries + 1 => do
    match ← loader.read name with
    | .ok bytes => return .ok bytes
    | .error _ => readRetrying loader name retries

/-- The files of a directory whose names end in one of the suffixes, by
ascending name. -/
def ofDirectory (access : FileAccess m) (directory : String) (suffixes : List String) :
    Loader m where
  list := do
    let names ← access.filesIn directory
    return names.map fun names =>
      (names.filter fun name =>
        suffixes.any fun suffix => suffix.toList.isSuffixOf name.toList).mergeSort
          fun a b => decide (a ≤ b)
  read name := access.readFile (FileAccess.join directory name)

end Loader

/-- A loader, and how often it is asked for one resource at most. -/
structure RuleStore (m : Type → Type) where
  loader : Loader m
  maxAttempts : Nat

namespace RuleStore

variable {m : Type → Type} [Monad m] (store : RuleStore m)

/-- How often a resource is read at most; once in any case. -/
def attempts : Nat := max 1 store.maxAttempts

/-- The artifact that a resource holds. -/
def artifact (name : String) : m (Except StoreError Artifact) := do
  match ← store.loader.readRetrying name (store.attempts - 1) with
  | .error cause => return .error (.read name store.attempts cause)
  | .ok bytes => return (Blob.decode bytes).mapError (StoreError.ofBlob name)

/-- Adds the artifacts of resources to a set. -/
def loadAll : RuleSet → List String → m (Except StoreError RuleSet)
  | s, [] => return .ok s
  | s, name :: rest => do
    match (← store.artifact name).bind s.add with
    | .error e => return .error e
    | .ok s => loadAll s rest

/-- The set that all resources hold. -/
def load : m (Except StoreError RuleSet) := do
  match ← store.loader.list with
  | .error cause => return .error (.files cause)
  | .ok names => store.loadAll .empty names

/-- The set that is kept, or else the one that is loaded and then kept. The
second part is what is kept afterwards. -/
def rules (kept : Option RuleSet) : m (Except StoreError RuleSet × Option RuleSet) := do
  match kept with
  | some s => return (.ok s, some s)
  | none =>
    match ← store.load with
    | .ok s => return (.ok s, some s)
    | .error e => return (.error e, none)

/-! ## Stores in use -/

/-- What a store is called for. -/
inductive Call where
  /-- For its rules. -/
  | rules
  /-- To forget them. -/
  | invalidate
  deriving DecidableEq, Inhabited

/-- What a call answers, if it is for the rules, and what is kept after it. -/
def perform (kept : Option RuleSet) :
    Call → m (Option (Except StoreError RuleSet) × Option RuleSet)
  | .rules => do
    let (answer, kept) ← store.rules kept
    return (some answer, kept)
  | .invalidate => return (none, none)

/-- The answers to one call after another, and what is kept in the end. -/
def performAll (kept : Option RuleSet) :
    List Call → m (List (Option (Except StoreError RuleSet)) × Option RuleSet)
  | [] => return ([], kept)
  | call :: calls => do
    let (answer, kept) ← store.perform kept call
    let (answers, kept) ← performAll kept calls
    return (answer :: answers, kept)

end RuleStore

/-! ## Resources in memory

A loader over resources held as a value, which counts what is asked of it. It
can be told to fail, so that what becomes of failures can be seen. -/

/-- Named resources, what failures are to come, and what was asked so far. -/
structure MemoryResources where
  blobs : Dict Bytes
  /-- How many of the next readings and listings are to fail. -/
  failingReads : Nat
  failingLists : Nat
  /-- How many readings and listings there have been. -/
  reads : Nat
  lists : Nat

namespace MemoryResources

/-- No resources. -/
def empty : MemoryResources := ⟨∅, 0, 0, 0, 0⟩

/-- Puts a resource in the room of one of its name. -/
def put (r : MemoryResources) (name : String) (blob : Bytes) : MemoryResources :=
  { r with blobs := r.blobs.insert name blob }

/-- Takes a resource away. -/
def remove (r : MemoryResources) (name : String) : MemoryResources :=
  { r with blobs := Dict.ofList (r.blobs.entries.filter (·.1 != name)) }

/-- Lists the names, unless that is to fail. -/
def list : StateM MemoryResources (Except FileError (List String)) := do
  let r ← get
  set { r with lists := r.lists + 1, failingLists := r.failingLists - 1 }
  return if 0 < r.failingLists then .error ⟨"list failed"⟩ else .ok r.blobs.keys

/-- Reads a resource, unless that is to fail. -/
def read (name : String) : StateM MemoryResources (Except FileError Bytes) := do
  let r ← get
  set { r with reads := r.reads + 1, failingReads := r.failingReads - 1 }
  if 0 < r.failingReads then return .error ⟨"read failed"⟩
  match r.blobs.get? name with
  | some blob => return .ok blob
  | none => return .error ⟨"gone"⟩

/-- The resources as a loader. -/
def loader : Loader (StateM MemoryResources) := ⟨list, read⟩

end MemoryResources

end Codemod
