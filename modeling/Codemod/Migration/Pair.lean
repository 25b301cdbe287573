import Codemod.Template.Declaration
/-!
# Migration pairs

A migration pair is two rules that convert a value between two types and back.
Each has one Before- and one After-Template of one parameter, and the types
must line up: what one direction makes, the other takes. Types are compared up
to the names of their variables, since the two rules may name them
differently.
-/

namespace Codemod

/-- Why two rules make no pair. -/
inductive MigrationError where
  /-- A template does not take one parameter. -/
  | parameterCount (pair rule template : String) (found : Nat)
  /-- A template uses another type than its rule expects. -/
  | shapeMismatch (pair rule template : String) (expected actual : Ty)
  /-- One direction makes what the other does not take. -/
  | asymmetricPair (pair rule : String) (produced consumed : Ty)
  /-- There are not two rules with one template on each side. -/
  | notAPair (pair reason : String)
  /-- A declared end is of another class than the templates use. -/
  | endpointMismatch (pair rule endpoint : String) (declared actual : Ty)
  deriving DecidableEq, Inhabited

namespace MigrationError

/-- What is reported. -/
def message : MigrationError → String
  | .parameterCount pair rule template found =>
    "Migration " ++ pair ++ ": " ++ template ++ " of " ++ rule ++
      " must take exactly one parameter, found " ++ toString found
  | .shapeMismatch pair rule template expected actual =>
    "Migration " ++ pair ++ ": " ++ rule ++ " expects " ++ expected.describe ++ " but " ++
      template ++ " uses " ++ actual.describe
  | .asymmetricPair pair rule produced consumed =>
    "Migration " ++ pair ++ ": " ++ rule ++ " produces " ++ produced.describe ++
      " but the reverse direction consumes " ++ consumed.describe
  | .notAPair pair reason => "Migration " ++ pair ++ ": " ++ reason
  | .endpointMismatch pair rule endpoint declared actual =>
    "Migration " ++ pair ++ ": " ++ rule ++ " declares " ++ endpoint ++ " = " ++
      declared.describe ++ " but its templates use " ++ actual.describe

end MigrationError

/-- Two rules that convert from one type to another and back. -/
structure MigrationPair where
  /-- The name of the declaring class without its package. -/
  name : String
  forward : Rule
  backward : Rule
  typeFrom : Ty
  typeTo : Ty
  deriving Inhabited

/-- One direction of a migration: the two templates of its rule. -/
structure MigrationHalf where
  rule : Rule
  before : Template
  after : Template

namespace MigrationHalf

open MigrationError

/-- A rule with one template on each side. -/
def ofRule (pair : String) (rule : Rule) : Except MigrationError MigrationHalf :=
  match rule.before, rule.after with
  | [before], [after] => .ok ⟨rule, before, after⟩
  | before, after =>
    .error (notAPair pair
      (rule.name ++ " must have exactly one @BeforeTemplate and one @AfterTemplate, found " ++
        toString before.length ++ " and " ++ toString after.length))

/-- The type of a template's only parameter. -/
def paramTy (pair : String) (rule : Rule) (t : Template) : Except MigrationError Ty :=
  match t.params with
  | [p] => .ok p.ty
  | params => .error (parameterCount pair rule.name t.name params.length)

/-- The types of the parameters of both templates. -/
def paramTys (pair : String) (h : MigrationHalf) : Except MigrationError (Ty × Ty) := do
  return (← paramTy pair h.rule h.before, ← paramTy pair h.rule h.after)

/-- A template uses a type equivalent to the one its rule expects. -/
def checkUse (pair : String) (rule : Rule) (t : Template) (expected actual : Ty) :
    Except MigrationError Unit :=
  if expected.equivalent actual then .ok ()
  else .error (shapeMismatch pair rule.name t.name expected actual)

/-- The Before-Template returns the type it takes, and the After-Template
takes it too. -/
def checkShape (pair : String) (h : MigrationHalf) (beforeTy afterTy : Ty) :
    Except MigrationError Unit := do
  checkUse pair h.rule h.before beforeTy h.before.returnType
  checkUse pair h.rule h.after beforeTy afterTy

/-- What the After-Template makes is what the other direction takes. -/
def checkProduct (pair : String) (h : MigrationHalf) (consumed : Ty) :
    Except MigrationError Unit :=
  if h.after.returnType.equivalent consumed then .ok ()
  else .error (asymmetricPair pair h.rule.name h.after.returnType consumed)

/-- A declared end of the migration is of the class that its templates use. -/
def checkEndpoint (pair : String) (rule : Rule) (endpoint : String) (declared : Option Ty)
    (actual : Ty) : Except MigrationError Unit :=
  match declared with
  | some declared =>
    if declared.name? = actual.name? then .ok ()
    else .error (endpointMismatch pair rule.name endpoint declared actual)
  | none => .ok ()

/-- Both declared ends of the migration are of the classes that its templates use. -/
def checkEndpoints (pair : String) (h : MigrationHalf) (beforeTy : Ty) :
    Except MigrationError Unit := do
  checkEndpoint pair h.rule "from" h.rule.descriptor.fromTy beforeTy
  checkEndpoint pair h.rule "to" h.rule.descriptor.toTy h.after.returnType

end MigrationHalf

namespace MigrationPair

open MigrationHalf

/-- The types between which two rules convert, when they line up. -/
def validate (name : String) (forward backward : Rule) : Except MigrationError (Ty × Ty) := do
  let f ← MigrationHalf.ofRule name forward
  let b ← MigrationHalf.ofRule name backward
  let (fBefore, fAfter) ← f.paramTys name
  let (bBefore, bAfter) ← b.paramTys name
  f.checkShape name fBefore fAfter
  b.checkShape name bBefore bAfter
  f.checkProduct name bBefore
  b.checkProduct name fBefore
  f.checkEndpoints name fBefore
  b.checkEndpoints name bBefore
  return (fBefore, f.after.returnType)

/-- The pair that two rules make. -/
def ofRules (name : String) (forward backward : Rule) : Except MigrationError MigrationPair := do
  let (typeFrom, typeTo) ← validate name forward backward
  return ⟨name, forward, backward, typeFrom, typeTo⟩

end MigrationPair

end Codemod
