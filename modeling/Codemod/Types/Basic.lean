import Codemod.Dict
import Codemod.Name
/-!
# Types

A type names a class by its qualified name, with type arguments, or is a type
variable that carries its bounds with it. Carrying the bounds makes a type
portable: it can be compared with a type that was resolved elsewhere, where
the same variable may go by another name.

`Ty.equivalent` is that comparison. `Ty.substitute` replaces variables by the
types they stand for.
-/

namespace Codemod

/-- A class, interface or primitive with its type arguments, or a type
variable with its optional upper and lower bound. -/
inductive Ty where
  | named (name : String) (args : List Ty)
  | var (name : String) (upper lower : Option Ty)
  deriving Inhabited

/-- The declaration of a type variable. -/
structure TypeVar where
  name : String
  upper : Option Ty
  lower : Option Ty
  deriving Inhabited

namespace Ty

/-- A class without type arguments. -/
def plain (name : String) : Ty := .named name []

/-! ## Equality -/

mutual

/-- Structural equality, variable names included. -/
def beq : Ty → Ty → Bool
  | .named a as, .named b bs => a == b && beqAll as bs
  | .var a u l, .var b u' l' => a == b && beqBound u u' && beqBound l l'
  | _, _ => false

/-- There are as many types, one equal to the other. -/
def beqAll : List Ty → List Ty → Bool
  | [], [] => true
  | a :: as, b :: bs => beq a b && beqAll as bs
  | _, _ => false

/-- Both bounds are absent, or they are equal. -/
def beqBound : Option Ty → Option Ty → Bool
  | none, none => true
  | some a, some b => beq a b
  | _, _ => false

end

mutual

theorem beq_eq {a b : Ty} (h : beq a b = true) : a = b := by
  match a, b with
  | .named _ _, .named _ _ =>
    simp only [beq, Bool.and_eq_true, beq_iff_eq] at h
    rw [h.1, beqAll_eq h.2]
  | .var _ _ _, .var _ _ _ =>
    simp only [beq, Bool.and_eq_true, beq_iff_eq] at h
    rw [h.1.1, beqBound_eq h.1.2, beqBound_eq h.2]
  | .named _ _, .var _ _ _ => simp [beq] at h
  | .var _ _ _, .named _ _ => simp [beq] at h

theorem beqAll_eq {as bs : List Ty} (h : beqAll as bs = true) : as = bs := by
  match as, bs with
  | [], [] => rfl
  | _ :: _, _ :: _ =>
    simp only [beqAll, Bool.and_eq_true] at h
    rw [beq_eq h.1, beqAll_eq h.2]
  | [], _ :: _ => simp [beqAll] at h
  | _ :: _, [] => simp [beqAll] at h

theorem beqBound_eq {a b : Option Ty} (h : beqBound a b = true) : a = b := by
  match a, b with
  | none, none => rfl
  | some _, some _ => exact congrArg some (beq_eq (by simpa [beqBound] using h))
  | none, some _ => simp [beqBound] at h
  | some _, none => simp [beqBound] at h

end

mutual

theorem beq_refl (a : Ty) : beq a a = true := by
  match a with
  | .named _ as => simp [beq, beqAll_refl as]
  | .var _ u l => simp [beq, beqBound_refl u, beqBound_refl l]

theorem beqAll_refl (as : List Ty) : beqAll as as = true := by
  match as with
  | [] => rfl
  | a :: as => simp [beqAll, beq_refl a, beqAll_refl as]

theorem beqBound_refl (a : Option Ty) : beqBound a a = true := by
  match a with
  | none => rfl
  | some a => simp [beqBound, beq_refl a]

end

instance : BEq Ty := ⟨beq⟩

instance : LawfulBEq Ty where
  eq_of_beq := beq_eq
  rfl := beq_refl _

instance : DecidableEq Ty := fun a b =>
  decidable_of_iff (beq a b = true) ⟨beq_eq, fun h => h ▸ beq_refl a⟩

/-! ## Questions about one type -/

/-- The qualified class name; a type variable has none. -/
def name? : Ty → Option String
  | .named name _ => some name
  | .var .. => none

/-- The type arguments; a type variable has none. -/
def args : Ty → List Ty
  | .named _ args => args
  | .var .. => []

/-- The type is a use of the class, with any arguments. -/
def isNamed (ty : Ty) (name : String) : Bool := ty.name? == some name

/-- The type is a type variable. -/
def isVar : Ty → Bool
  | .named .. => false
  | .var .. => true

/-- The type is a primitive. -/
def isPrimitive : Ty → Bool
  | .named name _ => Name.isPrimitive name
  | .var .. => false

mutual

/-- A type variable occurs, bounds aside. -/
def mentionsVar : Ty → Bool
  | .named _ args => anyMentionsVar args
  | .var .. => true

/-- A type variable occurs in one of the types. -/
def anyMentionsVar : List Ty → Bool
  | [] => false
  | ty :: rest => mentionsVar ty || anyMentionsVar rest

end

mutual

/-- Every class the type names, outermost first, primitives left out. -/
def classNames : Ty → List String
  | .named name args =>
    if Name.isPrimitive name then allClassNames args else name :: allClassNames args
  | .var .. => []

/-- Every class that the types name. -/
def allClassNames : List Ty → List String
  | [] => []
  | ty :: rest => classNames ty ++ allClassNames rest

end

/-! ## Two types -/

mutual

/-- Replaces the variables that the dictionary holds; others stay as they
are, and so do bounds. -/
def substitute (types : Dict Ty) : Ty → Ty
  | .named name args => .named name (substituteAll types args)
  | .var name upper lower => (types.get? name).getD (.var name upper lower)

/-- Replaces the variables of several types. -/
def substituteAll (types : Dict Ty) : List Ty → List Ty
  | [] => []
  | ty :: rest => substitute types ty :: substituteAll types rest

end

mutual

/-- Equality in which variables compare by their bounds alone. -/
def equivalent : Ty → Ty → Bool
  | .named a as, .named b bs => a == b && equivalentAll as bs
  | .var _ u l, .var _ u' l' => equivalentBound u u' && equivalentBound l l'
  | _, _ => false

/-- There are as many types, one equivalent to the other. -/
def equivalentAll : List Ty → List Ty → Bool
  | [], [] => true
  | a :: as, b :: bs => equivalent a b && equivalentAll as bs
  | _, _ => false

/-- A bound that is the root reference type says no more than a missing
one. -/
def equivalentBound : Option Ty → Option Ty → Bool
  | none, none => true
  | some a, some b => equivalent a b
  | some a, none => a.isNamed Name.object
  | none, some b => b.isNamed Name.object

end

/-! ## Text -/

mutual

/-- The type as source code spells it, classes by their simple names. -/
def toSource : Ty → String
  | .named name [] => Name.simple name
  | .named name (arg :: args) =>
    Name.simple name ++ "<" ++ ", ".intercalate (toSource arg :: allToSource args) ++ ">"
  | .var name _ _ => name

/-- Each type as source code spells it. -/
def allToSource : List Ty → List String
  | [] => []
  | ty :: rest => toSource ty :: allToSource rest

end

mutual

/-- The type in full, with qualified names and the bounds of variables, as
messages show it. -/
def describe : Ty → String
  | .named name [] => name
  | .named name (arg :: args) =>
    name ++ "<" ++ ", ".intercalate (describe arg :: describeAll args) ++ ">"
  | .var name upper lower =>
    name ++ describeBound " extends " upper ++ describeBound " super " lower

/-- Each type in full. -/
def describeAll : List Ty → List String
  | [] => []
  | ty :: rest => describe ty :: describeAll rest

/-- A bound after its word. -/
def describeBound (word : String) : Option Ty → String
  | none => ""
  | some bound => word ++ describe bound

end

end Ty

namespace TypeVar

/-- The variable as a type. -/
def toTy (v : TypeVar) : Ty := .var v.name v.upper v.lower

/-- The bounds agree, whatever the names. -/
def sameBounds (v w : TypeVar) : Bool :=
  Ty.equivalentBound v.upper w.upper && Ty.equivalentBound v.lower w.lower

instance : DecidableEq TypeVar := fun v w =>
  decidable_of_iff (v.toTy = w.toTy) ⟨fun h => by cases v; cases w; simpa [toTy] using h,
    fun h => h ▸ rfl⟩

end TypeVar

end Codemod
