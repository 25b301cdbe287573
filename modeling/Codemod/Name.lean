import Codemod.Text.Uppercase
/-!
# Names

A class is named by its qualified name, dotted from its outermost package
inwards, and written in source by its last segment alone.
-/

namespace Codemod.Name

/-- What follows the last occurrence of a character, or everything when it
does not occur. -/
def afterLast (c : Char) (cs : List Char) : List Char :=
  (cs.reverse.takeWhile (· != c)).reverse

/-- The last segment of a qualified name. -/
def simple (qualified : String) : String :=
  String.ofList (afterLast '.' qualified.toList)

/-- The segment names a class: it begins with an upper case letter. -/
def beginsUppercase (segment : List Char) : Bool :=
  match segment with
  | c :: _ => Text.isUppercase c
  | [] => false

/-- The segments of a qualified name. -/
def segments (qualified : String) : List (List Char) :=
  qualified.toList.splitOn '.'

/-- The name without its packages, nested classes after their outer ones with
a dollar sign between. Packages end before the first segment in upper case;
when no segment is, all but the last are packages. -/
def flat (qualified : String) : String :=
  let parts := segments qualified
  let classes := match parts.dropWhile (!beginsUppercase ·) with
    | [] => parts.drop (parts.length - 1)
    | classes => classes
  "$".intercalate (classes.map String.ofList)

/-- The eight primitive types and the empty return type are written the same
everywhere and are never imported. -/
def isPrimitive (name : String) : Bool :=
  ["boolean", "byte", "char", "short", "int", "long", "float", "double", "void"].contains name

/-- The root reference type. -/
def object : String := "java.lang.Object"

/-- The type of a method that returns nothing. -/
def void : String := "void"

end Codemod.Name
