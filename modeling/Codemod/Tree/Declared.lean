import Codemod.Tree.Basic
/-!
# Declared classes

The class declarations of a tree, outermost first. A class is found in a
compilation unit and among the members of another class, and nowhere else.
-/

namespace Codemod

/-- A class declaration. -/
structure ClassDeclaration where
  head : ClassHead
  members : List Node
  deriving Inhabited

namespace ClassDeclaration

/-- The qualified name of the class. -/
def name (c : ClassDeclaration) : String := c.head.name

/-- The methods among the members, each with its body. -/
def methods (c : ClassDeclaration) : List (MethodHead × Option Node) :=
  c.members.filterMap fun n =>
    match n with
    | .methodDecl _ head body => some (head, body)
    | _ => none

/-- The classes among the members. -/
def nested (c : ClassDeclaration) : List ClassDeclaration :=
  c.members.filterMap fun n =>
    match n with
    | .classDecl _ head members => some ⟨head, members⟩
    | _ => none

end ClassDeclaration

namespace Node

mutual

/-- The classes declared in a tree. -/
def declaredClasses : Node → List ClassDeclaration
  | .classDecl _ head members => ⟨head, members⟩ :: allDeclaredClasses members
  | .unit _ items => allDeclaredClasses items
  | _ => []
termination_by structural n => n

/-- The classes declared in several trees. -/
def allDeclaredClasses : List Node → List ClassDeclaration
  | [] => []
  | n :: rest => declaredClasses n ++ allDeclaredClasses rest
termination_by structural ns => ns

end

end Node

end Codemod
