import Codemod.Template.Basic
/-!
# Rules

A rule is a named group of templates: code that matches a Before-Template may
be replaced by what an After-Template makes of it. A rule without
After-Templates only flags the code. Half of a migration is a rule too; its
descriptor then says which way it goes and between which types.
-/

namespace Codemod

/-- Which way a rule of a migration goes. -/
inductive Direction where
  | forward
  | backward
  /-- Not declared; the order of declaration decides. -/
  | unspecified
  deriving DecidableEq, Inhabited

/-- What is fixed about a rule besides its templates. -/
structure RuleDescriptor where
  /-- Code that contains a comment is left alone. -/
  rejectComments : Bool
  migration : Option Direction
  /-- The declared types at the ends of a migration. -/
  fromTy : Option Ty
  toTy : Option Ty
  deriving DecidableEq, Inhabited

namespace RuleDescriptor

/-- A rule that is no half of a migration and leaves commented code alone. -/
def standard : RuleDescriptor := ⟨true, none, none, none⟩

end RuleDescriptor

/-- A named group of templates. -/
structure Rule where
  /-- The class that declares the rule, by its qualified name. -/
  name : String
  /-- The code that the rule finds. -/
  before : List Template
  /-- What may take its place. -/
  after : List Template
  descriptor : RuleDescriptor
  deriving Inhabited

namespace Rule

/-- The name of the declaring class alone. -/
def simpleName (r : Rule) : String := Name.simple r.name

/-- The rule only points out what it finds. -/
def isFlagOnly (r : Rule) : Bool := r.after.isEmpty

/-- Some Before-Template could match a node of this kind. -/
def appliesTo (r : Rule) (n : Node) : Bool :=
  (r.before.any (·.isExpression) && n.isExpression) ||
    (r.before.any (!·.isExpression) && n.isBlock)

end Rule

end Codemod
