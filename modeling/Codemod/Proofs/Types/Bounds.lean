import Codemod.Proofs.Dict
import Codemod.Proofs.Types.Inference
/-!
# The bounds of a variable

A type is accepted for a variable when it converts to the upper bound of the
variable. The bound is compared as it is declared, before the variable stands
for anything (`TypeOracle.accepts_var_eq_isConvertible`). For a bound without
variables this is what the bound asks for. A bound that mentions its own
variable, as the one of `T extends Comparable<T>` does, is never met that way:
what stands above a type that is written out in full is written out in full
(`Hierarchy.mentionsVar_of_isConvertible`), so no type is accepted, those that
the bound was made for included (`Hierarchy.accepts_bounded`).
-/

namespace Codemod

/-! ## Types written out in full -/

/-- A use of the class has this many type arguments: one for each parameter it
is declared with. Primitives take none, and an undeclared class any number. -/
def Hierarchy.takes (h : Hierarchy) (name : String) (count : Nat) : Bool :=
  (h.classInfo? name).all (fun info => info.params.length == count) &&
    (!Name.isPrimitive name || count == 0)

namespace Ty

variable {h : Hierarchy} {vars params : List String} {types : Dict Ty}

mutual

/-- The type mentions no variables but these, and each class in it has its type
arguments. Over no variables it is written out in full. -/
def isFormedOver (h : Hierarchy) (vars : List String) : Ty → Bool
  | .named name args => h.takes name args.length && areFormedOver h vars args
  | .var name _ _ => vars.contains name

/-- Each of the types is formed over the variables. -/
def areFormedOver (h : Hierarchy) (vars : List String) : List Ty → Bool
  | [] => true
  | ty :: rest => isFormedOver h vars ty && areFormedOver h vars rest

end

theorem isFormedOver_of_mem {tys : List Ty} (h' : areFormedOver h vars tys = true) {ty : Ty}
    (hty : ty ∈ tys) : ty.isFormedOver h vars = true := by
  induction tys with
  | nil => exact absurd hty List.not_mem_nil
  | cons first rest ih =>
    rw [areFormedOver, Bool.and_eq_true] at h'
    rcases List.mem_cons.1 hty with rfl | hrest
    · exact h'.1
    · exact ih h'.2 hrest

mutual

/-- A type written out in full mentions no variables. -/
theorem mentionsVar_of_isFormedOver {ty : Ty} (hty : ty.isFormedOver h [] = true) :
    ty.mentionsVar = false := by
  match ty with
  | .named _ args =>
    rw [isFormedOver, Bool.and_eq_true] at hty
    rw [mentionsVar, anyMentionsVar_of_areFormedOver hty.2]
  | .var .. => exact absurd hty (by simp [isFormedOver])

theorem anyMentionsVar_of_areFormedOver {tys : List Ty} (htys : areFormedOver h [] tys = true) :
    anyMentionsVar tys = false := by
  match tys with
  | [] => rfl
  | ty :: rest =>
    rw [areFormedOver, Bool.and_eq_true] at htys
    rw [anyMentionsVar, mentionsVar_of_isFormedOver htys.1,
      anyMentionsVar_of_areFormedOver htys.2, Bool.or_false]

end

theorem length_substituteAll (tys : List Ty) : (substituteAll types tys).length = tys.length := by
  induction tys with
  | nil => rfl
  | cons ty rest ih => rw [substituteAll, List.length_cons, List.length_cons, ih]

mutual

/-- What the variables stand for takes their place. -/
theorem isFormedOver_substitute {ty : Ty} (hty : ty.isFormedOver h params = true)
    (htypes : ∀ param ∈ params,
      ∃ arg, types.get? param = some arg ∧ arg.isFormedOver h vars = true) :
    (ty.substitute types).isFormedOver h vars = true := by
  match ty with
  | .named name args =>
    rw [isFormedOver, Bool.and_eq_true] at hty
    rw [substitute, isFormedOver, length_substituteAll, hty.1,
      areFormedOver_substituteAll hty.2 htypes, Bool.and_true]
  | .var name _ _ =>
    obtain ⟨arg, harg, hformed⟩ := htypes name (by simpa [isFormedOver] using hty)
    rwa [substitute, harg, Option.getD_some]

theorem areFormedOver_substituteAll {tys : List Ty} (htys : areFormedOver h params tys = true)
    (htypes : ∀ param ∈ params,
      ∃ arg, types.get? param = some arg ∧ arg.isFormedOver h vars = true) :
    areFormedOver h vars (substituteAll types tys) = true := by
  match tys with
  | [] => rfl
  | ty :: rest =>
    rw [areFormedOver, Bool.and_eq_true] at htys
    rw [substituteAll, areFormedOver, isFormedOver_substitute htys.1 htypes,
      areFormedOver_substituteAll htys.2 htypes, Bool.and_true]

end

mutual

/-- Where nothing stands for a variable, a type is as it was. -/
theorem substitute_empty (ty : Ty) : ty.substitute ∅ = ty := by
  match ty with
  | .named name args => rw [substitute, substituteAll_empty args]
  | .var .. => rfl

theorem substituteAll_empty (tys : List Ty) : substituteAll ∅ tys = tys := by
  match tys with
  | [] => rfl
  | ty :: rest => rw [substituteAll, substitute_empty ty, substituteAll_empty rest]

end

/-- Types that agree mention variables together. -/
theorem mentionsVar_of_equivalent {a b : Ty} (hab : a.equivalent b = true)
    (ha : a.mentionsVar = false) : b.mentionsVar = false := by
  rwa [eq_of_equivalent (equivalent_symm hab) ha]

end Ty

/-! ## What stands above a type written out in full -/

namespace Hierarchy

variable {h : Hierarchy} {sub sup source target : Ty} {vars : List String}

/-- Supertypes mention only the parameters of the class that declares them, all
classes in them have their type arguments, and boxes take none. -/
def isProper (h : Hierarchy) : Bool :=
  h.classes.all (fun entry => entry.2.supers.all (·.isFormedOver h entry.2.params)) &&
    h.boxing.all fun entry => (Ty.plain entry.2).isFormedOver h []

theorem isFormedOver_super (hproper : h.isProper = true) {name : String} {info : ClassInfo}
    (hinfo : h.classInfo? name = some info) {sup : Ty} (hsup : sup ∈ info.supers) :
    sup.isFormedOver h info.params = true := by
  rw [isProper, Bool.and_eq_true, List.all_eq_true] at hproper
  obtain ⟨before, after, hsplit, -⟩ := List.lookup_eq_some_iff.1 hinfo
  exact List.all_eq_true.1 (hproper.1 (name, info) (by simp [hsplit])) sup hsup

theorem isFormedOver_box (hproper : h.isProper = true) {primitive box : String}
    (hbox : h.boxed? primitive = some box) : (Ty.plain box).isFormedOver h [] = true := by
  rw [isProper, Bool.and_eq_true, List.all_eq_true, List.all_eq_true] at hproper
  obtain ⟨before, after, hsplit, -⟩ := List.lookup_eq_some_iff.1 hbox
  exact hproper.2 (primitive, box) (by simp [hsplit])

/-- The arguments of a class take the place of its parameters in a supertype. -/
theorem isFormedOver_super_substitute (hproper : h.isProper = true) {name : String}
    {args : List Ty} (hty : (Ty.named name args).isFormedOver h vars = true) {info : ClassInfo}
    (hinfo : h.classInfo? name = some info) {sup : Ty} (hsup : sup ∈ info.supers) :
    (sup.substitute (Dict.ofList (info.params.zip args))).isFormedOver h vars = true := by
  rw [Ty.isFormedOver, Bool.and_eq_true, takes, hinfo] at hty
  obtain ⟨htakes, hargs⟩ := hty
  have hlength : info.params.length = args.length := by
    rw [Bool.and_eq_true, Option.all_some, beq_iff_eq] at htakes
    exact htakes.1
  refine Ty.isFormedOver_substitute (isFormedOver_super hproper hinfo hsup) fun param hparam => ?_
  rw [← List.map_fst_zip (Nat.le_of_eq hlength)] at hparam
  obtain ⟨arg, harg, hmem⟩ := Dict.exists_get?_ofList hparam
  exact ⟨arg, harg, Ty.isFormedOver_of_mem hargs (List.of_mem_zip hmem).2⟩

/-- A climb passes no variables when it begins at none. -/
theorem mentionsVar_of_climb (hproper : h.isProper = true) {steps : Nat} {ty viewed : Ty}
    {target : String} (hty : ty.isFormedOver h [] = true)
    (hclimb : h.climb steps ty target = some viewed) : viewed.mentionsVar = false := by
  induction steps generalizing ty with
  | zero => simp [climb] at hclimb
  | succ steps ih =>
    rcases climb_cases hclimb with ⟨args, rfl, rfl⟩ | ⟨_, _, _, rfl, -⟩ |
      ⟨name, args, info, sup, rfl, hinfo, hsup, habove⟩ | ⟨-, rfl⟩
    · exact Ty.mentionsVar_of_isFormedOver hty
    · exact absurd hty (by simp [Ty.isFormedOver])
    · exact ih (isFormedOver_super_substitute hproper hty hinfo hsup) habove
    · rfl

theorem mentionsVar_of_isSubtype (hproper : h.isProper = true)
    (hformed : sub.isFormedOver h [] = true) (hsub : h.isSubtype sub sup = true) :
    sup.mentionsVar = false := by
  cases sup with
  | var name upper lower =>
    exact Ty.mentionsVar_of_equivalent hsub (Ty.mentionsVar_of_isFormedOver hformed)
  | named name args =>
    obtain ⟨viewed, hview, hequiv | rfl⟩ := isSubtype_named_iff.1 hsub
    · exact Ty.mentionsVar_of_equivalent hequiv (mentionsVar_of_climb hproper hformed hview)
    · rfl

/-- **What a type written out in full converts to mentions no variables.** -/
theorem mentionsVar_of_isConvertible (hproper : h.isProper = true)
    (hsource : source.isFormedOver h [] = true) (htarget : target.isFormedOver h vars = true)
    (hconv : h.isConvertible source target = true) : target.mentionsVar = false := by
  rw [isConvertible, Bool.or_eq_true] at hconv
  rcases hconv with hsub | hboxing
  · exact mentionsVar_of_isSubtype hproper hsource hsub
  split at hboxing
  · rename_i s t _ hname
    split at hboxing
    · split at hboxing
      · rename_i box hbox
        exact mentionsVar_of_isSubtype hproper (isFormedOver_box hproper hbox) hboxing
      · exact absurd hboxing (by simp)
    · -- Unboxing leads to a primitive, which has no arguments to mention variables in.
      cases target with
      | var name upper lower => exact absurd hname (by simp [Ty.name?])
      | named name args =>
        obtain rfl : name = t := Option.some.inj hname
        rw [Bool.and_eq_true] at hboxing
        rw [Ty.isFormedOver, takes, hboxing.1] at htarget
        have hargs : args = [] := by
          simp only [Bool.not_true, Bool.false_or, Bool.and_eq_true, beq_iff_eq] at htarget
          exact List.length_eq_zero_iff.1 htarget.1.2
        rw [hargs]
        rfl
  · exact absurd hboxing (by simp)

end Hierarchy

/-! ## What is accepted for a variable -/

/-- **The bound is compared as it is declared.** Whether its own variable occurs
in it or not, nothing takes the place of the variable there. -/
theorem TypeOracle.accepts_var_eq_isConvertible (o : TypeOracle) (name : String)
    (upper actual : Ty) :
    o.accepts (.var name (some upper) none) actual = o.isConvertible actual upper := by
  rw [accepts, assign?, bindVar?, show (∅ : Dict Ty).get? name = none from rfl]
  dsimp only
  rw [Ty.substitute_empty, Bool.and_true]
  cases o.isConvertible actual upper <;> rfl

namespace Hierarchy

/-- **Which types a variable with an upper bound accepts.** If the bound mentions
no variables, it accepts those that convert to the bound with the type itself in
place of the variable, whatever the type and the classes around it. If the bound
mentions its own variable, the variable accepts no type at all that is written
out in full, not even one that converts to the bound in this sense. -/
theorem accepts_bounded (h : Hierarchy) (name : String) (upper actual : Ty) :
    (upper.mentionsVar = false →
      (h.oracle.accepts (.var name (some upper) none) actual = true ↔
        h.isConvertible actual (upper.substitute (Dict.ofList [(name, actual)])) = true)) ∧
    (upper.mentionsVar = true → h.isProper = true → upper.isFormedOver h [name] = true →
      actual.isFormedOver h [] = true →
      h.oracle.accepts (.var name (some upper) none) actual = false) := by
  rw [TypeOracle.accepts_var_eq_isConvertible,
    show h.oracle.isConvertible = h.isConvertible from rfl]
  refine ⟨fun hclosed => ?_, fun hmentions hproper hupper hactual => ?_⟩
  · rw [Ty.substitute_eq_self _ hclosed]
  · by_contra haccepted
    rw [Bool.not_eq_false] at haccepted
    rw [mentionsVar_of_isConvertible hproper hactual hupper haccepted] at hmentions
    exact absurd hmentions (by simp)

/-! ## Numbers in order -/

/-- A type whose values may be compared with those of another. -/
def comparableTo (ty : Ty) : Ty := .named "java.lang.Comparable" [ty]

/-- The type of boxed numbers. -/
def numberTy : Ty := .plain "java.lang.Number"

/-- The type of boxed whole numbers. -/
def boxedIntTy : Ty := .plain "java.lang.Integer"

/-- Numbers may be compared with numbers of their own class. -/
def comparableNumbers : Hierarchy :=
  (javaLang.declare "java.lang.Comparable" ["T"] []).declare "java.lang.Integer" []
    [numberTy, comparableTo boxedIntTy]

/-- `Comparable<T>`, the bound of `T extends Comparable<T>`. -/
def comparableBound : Ty := comparableTo (.var "T" none none)

/-- `T extends Number` accepts an `int`, which is boxed. `T extends Comparable<T>`
does not accept an `Integer`. -/
theorem accepts_bounded_integer :
    comparableNumbers.oracle.accepts (.var "T" (some numberTy) none) (.plain "int") = true ∧
      comparableNumbers.oracle.accepts (.var "T" (some comparableBound) none) boxedIntTy =
        false := by
  constructor
  · exact ((accepts_bounded comparableNumbers "T" numberTy (.plain "int")).1
      (by decide +kernel)).2 (by decide +kernel)
  · exact (accepts_bounded comparableNumbers "T" comparableBound boxedIntTy).2 (by decide +kernel)
      (by decide +kernel) (by decide +kernel) (by decide +kernel)

/-- **A bound that mentions its own variable may hold and not be met**: an
`Integer` converts to `Comparable<Integer>`, and is not accepted for
`T extends Comparable<T>`. -/
theorem not_accepts_comparable :
    boxedIntTy.mentionsVar = false ∧ comparableBound.isFormedOver comparableNumbers ["T"] = true ∧
      comparableNumbers.isConvertible boxedIntTy
        (comparableBound.substitute (Dict.ofList [("T", boxedIntTy)])) = true ∧
      comparableNumbers.oracle.accepts (.var "T" (some comparableBound) none) boxedIntTy =
        false := by
  refine ⟨rfl, ?_, ?_, ?_⟩ <;> decide +kernel

end Hierarchy

end Codemod
