import Codemod.Tree.Literal
import Codemod.Types.Basic
/-!
# Annotations

An annotation marks a declaration by name and may carry values under keys, of
which `value` may be left unwritten. Annotations are found by the simple name
of their type, so a qualified name marks as well as a simple one.
-/

namespace Codemod

/-- What an annotation may carry under a key. -/
inductive AnnotationValue where
  | bool (value : Bool)
  | str (value : String)
  | type (value : Ty)
  | list (items : List AnnotationValue)
  deriving BEq, Inhabited

namespace AnnotationValue

/-- The value, if it is a truth value. -/
def asBool? : AnnotationValue → Option Bool
  | .bool b => some b
  | _ => none

/-- The value, if it is a type. -/
def asType? : AnnotationValue → Option Ty
  | .type ty => some ty
  | _ => none

mutual

/-- Every text in the value, lists flattened. -/
def strings : AnnotationValue → List String
  | .str s => [s]
  | .list items => allStrings items
  | .bool _ => []
  | .type _ => []

/-- Every text in several values. -/
def allStrings : List AnnotationValue → List String
  | [] => []
  | v :: rest => strings v ++ allStrings rest

end

mutual

/-- The value as source code spells it. -/
def toSource : AnnotationValue → String
  | .bool b => if b then "true" else "false"
  | .str s => (Literal.str s).toSource
  | .type ty => ty.toSource ++ ".class"
  | .list items => "\x7b" ++ ", ".intercalate (allToSource items) ++ "\x7d"

/-- Each value as source code spells it. -/
def allToSource : List AnnotationValue → List String
  | [] => []
  | v :: rest => toSource v :: allToSource rest

end

end AnnotationValue

/-- A mark on a declaration. -/
structure Annotation where
  /-- The annotation type, by qualified or simple name. -/
  name : String
  values : Dict AnnotationValue
  deriving BEq, Inhabited

namespace Annotation

/-- The annotation type has this simple name. -/
def isA (a : Annotation) (simple : String) : Bool := Name.simple a.name == simple

/-- What stands under the key that may be left unwritten. -/
def value? (a : Annotation) : Option AnnotationValue := a.values.get? "value"

/-- The annotation as source code spells it. -/
def toSource (a : Annotation) : String :=
  let name := "@" ++ Name.simple a.name
  match a.values.entries with
  | [] => name
  | [("value", v)] => name ++ "(" ++ v.toSource ++ ")"
  | entries =>
    name ++ "(" ++ ", ".intercalate (entries.map fun (k, v) => k ++ " = " ++ v.toSource) ++ ")"

/-- The first annotation of a simple name. -/
def find? (annotations : List Annotation) (simple : String) : Option Annotation :=
  List.find? (·.isA simple) annotations

/-- Some annotation has the simple name. -/
def isAmong (annotations : List Annotation) (simple : String) : Bool :=
  annotations.any (·.isA simple)

end Annotation

end Codemod
