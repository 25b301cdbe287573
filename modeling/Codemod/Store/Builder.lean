import Codemod.Store.RuleSet
/-!
# Building rule sets

A builder grows by calls. It keeps its rules under names, in the order in which
the names came in, so that a name which came in twice would drop a rule: every
call first makes sure that its names are free. What a tree declares is put into
a copy, which takes the builder's place once all of it is in.
-/

namespace Codemod

/-- Rules under names, in the order in which the names came in. -/
structure RuleIndex where
  entries : List (String × Rule)
  deriving Inhabited

namespace RuleIndex

/-- No rule. -/
def empty : RuleIndex := ⟨[]⟩

variable (t : RuleIndex)

/-- The names, in the order in which they came in. -/
def keys : List String := t.entries.map (·.1)

/-- The rules, in the order of their names. -/
def values : List Rule := t.entries.map (·.2)

/-- The rule under a name. -/
def get? (key : String) : Option Rule := t.entries.lookup key

/-- A name that is known keeps its place and gets another rule. -/
def insert (key : String) (r : Rule) : RuleIndex :=
  if t.keys.contains key then ⟨t.entries.map fun e => if e.1 == key then (key, r) else e⟩
  else ⟨t.entries ++ [(key, r)]⟩

end RuleIndex

/-- A rule set in the making. -/
structure RuleSetBuilder where
  rules : RuleIndex
  migrations : List MigrationPair
  deriving Inhabited

namespace RuleSetBuilder

/-- Nothing has been added. -/
def new : RuleSetBuilder := ⟨.empty, []⟩

variable (b : RuleSetBuilder)

/-- The rule set that has been made. -/
def build : RuleSet := ⟨b.rules.values, b.migrations⟩

/-- The name is that of a rule or a migration pair. -/
def isTaken (name : String) : Bool :=
  b.rules.keys.contains name || b.migrations.any (·.name == name)

/-- Puts an artifact in, whatever its name. -/
def insert : Artifact → RuleSetBuilder
  | .rule r => { b with rules := b.rules.insert r.name r }
  | .migration p => { b with migrations := b.migrations ++ [p] }

/-- Artifacts go in one after another as long as their names are free. -/
def stage (b : RuleSetBuilder) : List Artifact → Except StoreError RuleSetBuilder
  | [] => .ok b
  | a :: rest =>
    if b.isTaken a.name then .error (.duplicate a.name)
    else stage (b.insert a) rest

/-! ## Calls -/

/-- A call may change the builder also when it fails. -/
abbrev Building (ε : Type) := ExceptT ε (StateM RuleSetBuilder)

/-- Fails if the name is taken. -/
def checkFree (name : String) : Building StoreError Unit := do
  if (← get).isTaken name then throw (.duplicate name)

/-- Adds a rule, whose name must be free. -/
def addRule (r : Rule) : Building StoreError Unit := do
  checkFree r.name
  modify (·.insert (.rule r))

/-- Adds a migration pair, whose name must be free. -/
def addMigration (p : MigrationPair) : Building StoreError Unit := do
  checkFree p.name
  modify (·.insert (.migration p))

/-- Adds either. -/
def addArtifact : Artifact → Building StoreError Unit
  | .rule r => addRule r
  | .migration p => addMigration p

/-- Adds all that a tree declares. -/
def compileUnit (rejectComments : Bool) (root : Node) : Building UnitError Unit := do
  let artifacts ←
    ((RuleSet.declared rejectComments root).mapError UnitError.declaration : Except _ _)
  let staged ← (((← get).stage artifacts).mapError UnitError.store : Except _ _)
  set staged

/-- What a builder is called for. -/
inductive Call where
  | addRule (r : Rule)
  | addMigration (p : MigrationPair)
  | addArtifact (a : Artifact)
  | compileUnit (rejectComments : Bool) (root : Node)

/-- What a call comes to, and the builder after it. -/
def perform (c : Call) : Except UnitError Unit × RuleSetBuilder :=
  match c with
  | .addRule r => ((addRule r).adapt .store).run b
  | .addMigration p => ((addMigration p).adapt .store).run b
  | .addArtifact a => ((addArtifact a).adapt .store).run b
  | .compileUnit rejectComments root => (compileUnit rejectComments root).run b

/-- The builder after calls, whether they failed or not. -/
def performAll (calls : List Call) : RuleSetBuilder :=
  calls.foldl (fun b c => (b.perform c).2) b

end RuleSetBuilder

end Codemod
