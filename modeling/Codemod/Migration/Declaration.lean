import Codemod.Migration.Pair
/-!
# Migration pairs as they are declared

A migration is declared by a class with two nested classes, the template
groups of its two directions, at least one of them annotated as such. Groups
that do not say which way they go are taken in the order of declaration.
-/

namespace Codemod

/-- Why declarations do not make the pairs they should. -/
inductive PairDeclarationError where
  /-- A class declares no rule. -/
  | declaration (e : DeclarationError)
  /-- Two rules make no pair. -/
  | migration (e : MigrationError)
  deriving DecidableEq, Inhabited

namespace PairDeclarationError

/-- What is reported. -/
def message : PairDeclarationError → String
  | .declaration e => "Compile error: " ++ e.message
  | .migration e => "Migration error: " ++ e.message

end PairDeclarationError

namespace ClassDeclaration

variable (c : ClassDeclaration)

/-- The class is a template group of a migration. -/
def isMigrationGroup : Bool := Annotation.isAmong c.head.annotations Marker.migration

/-- The class declares a migration. -/
def declaresMigration : Bool :=
  c.nested.length == 2 && c.nested.any (·.isMigrationGroup)

/-- The second rule is the forward one. -/
def isReversed (first second : Rule) : Bool :=
  first.descriptor.migration == some .backward || second.descriptor.migration == some .forward

/-- The pair that the class declares. -/
def migrationPair (rejectComments : Bool) : Except PairDeclarationError MigrationPair :=
  let name := Name.flat c.name
  match c.nested with
  | [first, second] => do
    let first ← (first.rule rejectComments).mapError .declaration
    let second ← (second.rule rejectComments).mapError .declaration
    let (forward, backward) := if isReversed first second then (second, first) else (first, second)
    (MigrationPair.ofRules name forward backward).mapError .migration
  | groups =>
    .error (.migration (.notAPair name
      ("expected two nested template groups, found " ++ toString groups.length)))

end ClassDeclaration

/-- The pairs that a tree declares. One that does not line up spoils all. -/
def Node.declaredPairs (rejectComments : Bool) (root : Node) :
    Except PairDeclarationError (List MigrationPair) :=
  (root.declaredClasses.filter (·.declaresMigration)).mapM (·.migrationPair rejectComments)

end Codemod
