import Codemod.Types.Basic
/-!
# Type oracles

Subtyping is a matter of the classes that exist around a tree, which the tree
does not hold. A `TypeOracle` answers for them. Everything it may answer goes
back to one question, how a type looks as an instance of some class, and
`TypeOracle.viewSubtype` is the subtyping that the answers to it give; an
oracle may know better and say so.
-/

namespace Codemod

/-- Answers about the classes around a tree. -/
structure TypeOracle where
  /-- The type seen as an instance of the class, with the arguments the class
  gets; nothing when it is no subtype of it. -/
  asSuper : Ty → String → Option Ty
  isSubtype : Ty → Ty → Bool
  /-- A value of the first type may be assigned to the second. -/
  isConvertible : Ty → Ty → Bool
  /-- The class exists. -/
  canResolve : String → Bool

namespace TypeOracle

/-- Subtyping as the views of a type give it. A class without arguments is
above all its instances; a type variable is above its equals only. -/
def viewSubtype (asSuper : Ty → String → Option Ty) (sub sup : Ty) : Bool :=
  match sup with
  | .named name args =>
    match asSuper sub name with
    | some viewed => viewed.equivalent (.named name args) || args.isEmpty
    | none => false
  | .var .. => sub.equivalent sup

/-- The oracle that knows nothing beyond the views: assignment is subtyping
and every class exists. -/
def ofViews (asSuper : Ty → String → Option Ty) : TypeOracle where
  asSuper := asSuper
  isSubtype := viewSubtype asSuper
  isConvertible := viewSubtype asSuper
  canResolve _ := true

end TypeOracle

end Codemod
