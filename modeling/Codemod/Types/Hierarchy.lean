import Codemod.Types.Oracle
/-!
# Class hierarchies

A table of declared classes, each with its type parameters and direct
supertypes, and of the classes that box the primitives. `Hierarchy.asSuper`
climbs from a type to a class above it, depth first and in the order of
declaration, giving each class on the way the arguments that the one below it
passes on; `Hierarchy.oracle` answers by it.
-/

namespace Codemod

/-- A declared class: its type parameters by name, and its direct supertypes,
which may mention them. -/
structure ClassInfo where
  params : List String
  supers : List Ty

/-- Declared classes and boxes, the latest declaration of a name first. -/
structure Hierarchy where
  classes : List (String × ClassInfo) := []
  boxing : List (String × String) := []
  /-- Classes that are not declared do not exist. -/
  onlyDeclared : Bool := false

namespace Hierarchy

variable (h : Hierarchy)

/-- What is declared of a class. -/
def classInfo? (name : String) : Option ClassInfo := h.classes.lookup name

/-- Adds a class; an earlier class of the name is forgotten. -/
def declare (name : String) (params : List String) (supers : List Ty) : Hierarchy :=
  { h with classes := (name, ⟨params, supers⟩) :: h.classes.filter (·.1 != name) }

/-- Lets a class box a primitive, in place of any other. -/
def boxes (primitive boxed : String) : Hierarchy :=
  { h with boxing := (primitive, boxed) :: h.boxing.filter (·.1 != primitive) }

/-- Classes that are not declared do not exist any more. -/
def resolvingOnlyDeclared : Hierarchy := { h with onlyDeclared := true }

/-- The class that boxes a primitive. -/
def boxed? (primitive : String) : Option String := h.boxing.lookup primitive

/-- The primitive that a class boxes. -/
def unboxed? (boxed : String) : Option String :=
  (h.boxing.find? (·.2 == boxed)).map (·.1)

/-! ## Climbing -/

/-- The climb, given up after the number of steps. -/
def climb : Nat → Ty → String → Option Ty
  | 0, _, _ => none
  | steps + 1, .var _ upper _, target => climb steps (upper.getD (.plain Name.object)) target
  | steps + 1, .named name args, target =>
    if name = target then some (.named name args)
    else
      let above := match h.classInfo? name with
        | some info =>
          let types := Dict.ofList (info.params.zip args)
          info.supers.findSome? fun (sup : Ty) => climb steps (sup.substitute types) target
        | none => none
      above.or <|
        if target = Name.object && !Name.isPrimitive name then some (.plain Name.object)
        else none

mutual

/-- The number of classes and variables in a type, bounds included. -/
def mentions : Ty → Nat
  | .named _ args => 1 + allMentions args
  | .var _ upper lower => 1 + boundMentions upper + boundMentions lower

/-- The number of classes and variables in several types. -/
def allMentions : List Ty → Nat
  | [] => 0
  | ty :: rest => mentions ty + allMentions rest

/-- The number of classes and variables in a bound. -/
def boundMentions : Option Ty → Nat
  | none => 0
  | some ty => mentions ty

end

/-- The number of classes and variables in all declared supertypes. -/
def declaredMentions : Nat := h.classes.foldr (fun c n => allMentions c.2.supers + n) 0

/-- More steps than a climb can take. A class whose supertype is one of its own
parameters leads back to its argument, so a climb may pass every part of a
supertype, and for each part everything that stands above it. Without cycles no
class stands above itself, so this nests no deeper than there are classes, and
each level multiplies the steps by the parts of a supertype at most. -/
def stepBound (ty : Ty) : Nat :=
  (mentions ty + 2) * Nat.pow (h.declaredMentions + 2) (h.classes.length + 2)

/-- The type as an instance of a class at or above it. A type variable stands
where its upper bound stands, and every class but a primitive stands below the
root type. -/
def asSuper (ty : Ty) (target : String) : Option Ty := h.climb (h.stepBound ty) ty target

/-! ## Assignment -/

/-- The one type stands at or below the other. -/
def isSubtype (sub sup : Ty) : Bool := TypeOracle.viewSubtype h.asSuper sub sup

/-- Subtyping, or boxing and then subtyping, or unboxing. -/
def isConvertible (source target : Ty) : Bool :=
  h.isSubtype source target ||
    match source.name?, target.name? with
    | some s, some t =>
      if Name.isPrimitive s then
        match h.boxed? s with
        | some box => h.isSubtype (.plain box) target
        | none => false
      else Name.isPrimitive t && h.unboxed? s == some t
    | _, _ => false

/-- The class exists. -/
def canResolve (name : String) : Bool :=
  !h.onlyDeclared || (h.classInfo? name).isSome || Name.isPrimitive name

/-- The hierarchy as an oracle. -/
def oracle : TypeOracle where
  asSuper := h.asSuper
  isSubtype := h.isSubtype
  isConvertible := h.isConvertible
  canResolve := h.canResolve

/-! ## The classes every tree may count on -/

/-- Each primitive with its box, and whether it is a number. -/
def primitiveBoxes : List (String × String × Bool) :=
  [("boolean", "java.lang.Boolean", false), ("byte", "java.lang.Byte", true),
    ("char", "java.lang.Character", false), ("short", "java.lang.Short", true),
    ("int", "java.lang.Integer", true), ("long", "java.lang.Long", true),
    ("float", "java.lang.Float", true), ("double", "java.lang.Double", true)]

/-- The root type, text, numbers and the boxes. -/
def javaLang : Hierarchy :=
  primitiveBoxes.foldl
    (fun h (primitive, box, numeric) =>
      (h.declare box [] (if numeric then [.plain "java.lang.Number"] else [])).boxes primitive box)
    ((((Hierarchy.mk [] [] false).declare Name.object [] []).declare "java.lang.CharSequence" [] []
      |>.declare "java.lang.String" [] [.plain "java.lang.CharSequence"]).declare
        "java.lang.Number" [] [])

end Hierarchy

end Codemod
