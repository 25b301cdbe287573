import Codemod.Types.Oracle
/-!
# Type inference

Whether a value of some type may stand where another type is declared, when
the declared type has variables that are still free. The first use of a
variable decides what it stands for, provided its bounds hold; later uses are
held to that. Arguments of a generic class must agree exactly, while the type
itself need only be assignable.

Each step takes what the variables stand for so far and returns it extended,
or nothing when the types do not fit.
-/

namespace Codemod

namespace TypeOracle

variable (o : TypeOracle)

/-- How closely a type must fit a variable that already stands for one. -/
inductive Fit where
  /-- It may be assigned to it. -/
  | assignable
  /-- It is equivalent to it. -/
  | exact
  deriving DecidableEq

/-- Lets a variable stand for a type, or checks the type against what the
variable stands for. -/
def bindVar? (fit : Fit) (v : TypeVar) (actual : Ty) (types : Dict Ty) : Option (Dict Ty) :=
  match types.get? v.name with
  | some bound =>
    if bound.equivalent actual || (fit == .assignable && o.isConvertible actual bound) then
      some types
    else none
  | none =>
    let upperHolds := match v.upper with
      | some upper => o.isConvertible actual (upper.substitute types)
      | none => true
    let lowerHolds := match v.lower with
      | some lower => o.isSubtype (lower.substitute types) actual
      | none => true
    if upperHolds && lowerHolds then some (types.insert v.name actual) else none

mutual

/-- The types agree, but for variables of the declared one. -/
def agree? : (declared actual : Ty) → Dict Ty → Option (Dict Ty)
  | .var name upper lower, actual, types => o.bindVar? .exact ⟨name, upper, lower⟩ actual types
  | .named name args, .named name' args', types =>
    if name = name' then agreeAll? args args' types else none
  | .named .., .var .., _ => none
termination_by structural declared => declared

/-- There are as many types, and they agree one by one. -/
def agreeAll? : (declared actual : List Ty) → Dict Ty → Option (Dict Ty)
  | [], [], types => some types
  | d :: declared, a :: actual, types => (agree? d a types).bind (agreeAll? declared actual)
  | _, _, _ => none
termination_by structural declared => declared

end

/-- A value of the actual type may stand where the declared type is asked
for. -/
def assign? (declared actual : Ty) (types : Dict Ty) : Option (Dict Ty) :=
  match declared with
  | .var name upper lower => o.bindVar? .assignable ⟨name, upper, lower⟩ actual types
  | .named name [] => if o.isConvertible actual (.named name []) then some types else none
  | .named name args =>
    (o.asSuper actual name).bind fun viewed => o.agreeAll? args viewed.args types

/-- A value of the actual type may stand where the declared type is asked for,
all its variables free. -/
def accepts (declared actual : Ty) : Bool := (o.assign? declared actual ∅).isSome

end TypeOracle

end Codemod
