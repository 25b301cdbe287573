import Codemod.Proofs.Types.Equivalence
/-!
# Types without names

Types agree exactly when they are equal once their variables have lost their
names, and those of their bounds that are the root type
(`Ty.equivalent_iff_nameless_eq`). So agreement is an equivalence where the root
type has no arguments, and it is equality on types without variables. A lower
bound that is the root type is lost like an upper one: a variable that only the
root type satisfies agrees with one that every type satisfies
(`Ty.equivalent_rootAlone`).
-/

namespace Codemod.Ty

/-! ## Without names -/

mutual

/-- The type without the names of its variables and without their upper bounds
that are the root type; if asked for, without such lower bounds as well. -/
def nameless (alsoLower : Bool) : Ty → Ty
  | .named name args => .named name (allNameless alsoLower args)
  | .var _ upper lower =>
    .var "" (boundNameless alsoLower true upper) (boundNameless alsoLower alsoLower lower)

/-- The types, each without those names and bounds. -/
def allNameless (alsoLower : Bool) : List Ty → List Ty
  | [] => []
  | ty :: rest => nameless alsoLower ty :: allNameless alsoLower rest

/-- The bound without them, and none at all if it is a root type to be left out. -/
def boundNameless (alsoLower dropsRoot : Bool) : Option Ty → Option Ty
  | none => none
  | some bound =>
    if dropsRoot && bound.isNamed Name.object then none else some (nameless alsoLower bound)

end

mutual

/-- Somewhere in the type, bounds included, the lower bound of a variable is the
root type. -/
def hasRootLower : Ty → Bool
  | .named _ args => anyHasRootLower args
  | .var _ upper lower =>
    lower.any (·.isNamed Name.object) || boundHasRootLower upper || boundHasRootLower lower

/-- Somewhere in one of the types a lower bound is the root type. -/
def anyHasRootLower : List Ty → Bool
  | [] => false
  | ty :: rest => hasRootLower ty || anyHasRootLower rest

/-- Somewhere in a bound a lower bound is the root type. -/
def boundHasRootLower : Option Ty → Bool
  | none => false
  | some bound => hasRootLower bound

end

mutual

/-- Where no lower bound is the root type, there is none to lose. -/
theorem nameless_eq_of_hasRootLower {ty : Ty} (h : ty.hasRootLower = false) :
    ty.nameless true = ty.nameless false := by
  match ty with
  | .named _ args =>
    rw [hasRootLower] at h
    rw [nameless, nameless, allNameless_eq_of_hasRootLower h]
  | .var _ upper lower =>
    simp only [hasRootLower, Bool.or_eq_false_iff] at h
    obtain ⟨⟨hroot, hupper⟩, hlower⟩ := h
    have hkept : boundNameless true true lower = boundNameless true false lower := by
      cases lower with
      | none => rfl
      | some bound =>
        rw [Option.any_some] at hroot
        rw [boundNameless, boundNameless, hroot, Bool.and_false, Bool.and_false]
    rw [nameless, nameless, hkept, boundNameless_eq_of_hasRootLower hupper,
      boundNameless_eq_of_hasRootLower hlower]

theorem allNameless_eq_of_hasRootLower {tys : List Ty} (h : anyHasRootLower tys = false) :
    allNameless true tys = allNameless false tys := by
  match tys with
  | [] => rfl
  | ty :: rest =>
    rw [anyHasRootLower, Bool.or_eq_false_iff] at h
    rw [allNameless, allNameless, nameless_eq_of_hasRootLower h.1,
      allNameless_eq_of_hasRootLower h.2]

theorem boundNameless_eq_of_hasRootLower {dropsRoot : Bool} {bound : Option Ty}
    (h : boundHasRootLower bound = false) :
    boundNameless true dropsRoot bound = boundNameless false dropsRoot bound := by
  match bound with
  | none => rfl
  | some bound =>
    rw [boundHasRootLower] at h
    rw [boundNameless, boundNameless, nameless_eq_of_hasRootLower h]

end

/-! ## Agreement -/

mutual

/-- Names and bounds that are the root type make no difference. -/
theorem equivalent_nameless (alsoLower : Bool) (a : Ty) :
    a.equivalent (a.nameless alsoLower) = true := by
  match a with
  | .named _ args => simp [nameless, equivalent, equivalentAll_allNameless alsoLower args]
  | .var _ upper lower =>
    simp [nameless, equivalent, equivalentBound_boundNameless alsoLower true upper,
      equivalentBound_boundNameless alsoLower alsoLower lower]

theorem equivalentAll_allNameless (alsoLower : Bool) (as : List Ty) :
    equivalentAll as (allNameless alsoLower as) = true := by
  match as with
  | [] => rfl
  | a :: rest => simp [allNameless, equivalentAll, equivalent_nameless alsoLower a,
      equivalentAll_allNameless alsoLower rest]

theorem equivalentBound_boundNameless (alsoLower dropsRoot : Bool) (bound : Option Ty) :
    equivalentBound bound (boundNameless alsoLower dropsRoot bound) = true := by
  match bound with
  | none => rfl
  | some a =>
    rw [boundNameless]
    split
    · rename_i hdropped
      exact (Bool.and_eq_true_iff.1 hdropped).2
    · exact equivalent_nameless alsoLower a

end

theorem boundNameless_of_isNamed {alsoLower : Bool} {bound : Ty}
    (h : bound.isNamed Name.object = true) :
    boundNameless alsoLower true (some bound) = none := by
  rw [boundNameless, h, Bool.and_self, if_pos rfl]

mutual

/-- **Types that agree are equal without names.** -/
theorem nameless_eq_of_equivalent {a b : Ty} (h : a.equivalent b = true) :
    a.nameless true = b.nameless true := by
  match a, b with
  | .named _ as, .named _ bs =>
    rw [equivalent, Bool.and_eq_true, beq_iff_eq] at h
    rw [nameless, nameless, h.1, allNameless_eq_of_equivalentAll h.2]
  | .var _ u l, .var _ u' l' =>
    rw [equivalent, Bool.and_eq_true] at h
    rw [nameless, nameless, boundNameless_eq_of_equivalentBound h.1,
      boundNameless_eq_of_equivalentBound h.2]
  | .named .., .var .. => exact absurd h nofun
  | .var .., .named .. => exact absurd h nofun

theorem allNameless_eq_of_equivalentAll {as bs : List Ty} (h : equivalentAll as bs = true) :
    allNameless true as = allNameless true bs := by
  match as, bs with
  | [], [] => rfl
  | a :: as, b :: bs =>
    rw [equivalentAll, Bool.and_eq_true] at h
    rw [allNameless, allNameless, nameless_eq_of_equivalent h.1,
      allNameless_eq_of_equivalentAll h.2]
  | [], _ :: _ => exact absurd h nofun
  | _ :: _, [] => exact absurd h nofun

theorem boundNameless_eq_of_equivalentBound {a b : Option Ty}
    (h : equivalentBound a b = true) : boundNameless true true a = boundNameless true true b := by
  match a, b with
  | none, none => rfl
  | some a, some b =>
    -- Both bounds are the root type, or neither is.
    rw [boundNameless, boundNameless, isNamed_of_equivalent h, nameless_eq_of_equivalent h]
  | some _, none => exact boundNameless_of_isNamed h
  | none, some _ => exact (boundNameless_of_isNamed h).symm

end

/-- Types that are equal without names agree, whether lower bounds were lost or not. -/
theorem equivalent_of_nameless_eq {alsoLower : Bool} {a b : Ty} (ha : a.hasPlainRoot = true)
    (hb : b.hasPlainRoot = true) (h : a.nameless alsoLower = b.nameless alsoLower) :
    a.equivalent b = true := by
  have hside : (a.nameless alsoLower).equivalent b = true :=
    h ▸ equivalent_symm (equivalent_nameless alsoLower b)
  exact equivalent_trans ha hb (equivalent_nameless alsoLower a) hside

/-- **Types agree exactly when they are equal without the names of their variables
and without the bounds that are the root type**, where that has no arguments. That
only upper bounds are lost in this is true unless the types differ by lower bounds
that are the root type, and so it is true where no lower bound is. Agreement is an
equivalence, and on types without variables it is equality. -/
theorem equivalent_iff_nameless_eq {a b : Ty} (ha : a.hasPlainRoot = true)
    (hb : b.hasPlainRoot = true) :
    (a.equivalent b = true ↔ a.nameless true = b.nameless true) ∧
      ((a.equivalent b = true ↔ a.nameless false = b.nameless false) ↔
        (a.nameless true = b.nameless true → a.nameless false = b.nameless false)) ∧
      (a.hasRootLower = false → b.hasRootLower = false →
        (a.equivalent b = true ↔ a.nameless false = b.nameless false)) ∧
      Equivalence (fun a b : { ty : Ty // ty.hasPlainRoot = true } =>
        a.val.equivalent b.val = true) ∧
      (a.mentionsVar = false → b.mentionsVar = false → (a.equivalent b = true ↔ a = b)) := by
  have hagree : a.equivalent b = true ↔ a.nameless true = b.nameless true :=
    ⟨nameless_eq_of_equivalent, equivalent_of_nameless_eq ha hb⟩
  refine ⟨hagree, ⟨fun h heq => h.1 (hagree.2 heq), fun h => ?_⟩, fun hla hlb => ?_,
    ⟨fun a => equivalent_refl a.val, equivalent_symm, fun {a _ c} => equivalent_trans a.2 c.2⟩,
    fun _ hvar => ⟨fun h => eq_of_equivalent h hvar, fun h => h ▸ equivalent_refl a⟩⟩
  · exact ⟨fun hequiv => h (hagree.1 hequiv), equivalent_of_nameless_eq ha hb⟩
  · rw [hagree, nameless_eq_of_hasRootLower hla, nameless_eq_of_hasRootLower hlb]

/-! ## Variables of one map -/

/-- A map from the type to a variable that integers satisfy. -/
def mapFrom (key : Ty) (value : String) : Ty :=
  .named "java.util.Map" [key, .var value none (some (.plain "java.lang.Integer"))]

/-- `Map<K extends Object, V super Integer>` agrees with `Map<T, U super Integer>`,
and it does not agree with `Map<Date, U super Integer>`. -/
theorem equivalent_mapFrom :
    (mapFrom (.var "K" (some (.plain Name.object)) none) "V").equivalent
        (mapFrom (.var "T" none none) "U") = true ∧
      (mapFrom (.var "K" (some (.plain Name.object)) none) "V").equivalent
        (mapFrom (.plain "java.util.Date") "U") = false ∧
      ((plain "java.util.Date").equivalent (.plain "java.time.Instant") = true ↔
        plain "java.util.Date" = .plain "java.time.Instant") := by
  refine ⟨?_, Bool.eq_false_iff.2 fun h => ?_, ?_⟩
  · obtain ⟨-, -, hupper, -⟩ := equivalent_iff_nameless_eq
      (a := mapFrom (.var "K" (some (.plain Name.object)) none) "V")
      (b := mapFrom (.var "T" none none) "U") (by decide +kernel) (by decide +kernel)
    exact (hupper (by decide +kernel) (by decide +kernel)).2 (by decide +kernel)
  · have heq := (equivalent_iff_nameless_eq (by decide +kernel) (by decide +kernel)).1.1 h
    exact absurd heq (by decide +kernel)
  · obtain ⟨-, -, -, -, hequal⟩ := equivalent_iff_nameless_eq
      (a := plain "java.util.Date") (b := plain "java.time.Instant") (by decide +kernel)
      (by decide +kernel)
    exact hequal rfl rfl

/-- **A lower bound may make a difference that agreement does not see**: a variable
that only the root type satisfies, and one that every type satisfies. -/
theorem equivalent_rootAlone :
    (var "T" none (some (.plain Name.object))).hasPlainRoot = true ∧
      (var "T" none none).hasPlainRoot = true ∧
      (var "T" none (some (.plain Name.object))).equivalent (.var "T" none none) = true ∧
      (var "T" none (some (.plain Name.object))).nameless false ≠
        (var "T" none none).nameless false := by
  refine ⟨?_, ?_, ?_, ?_⟩ <;> decide +kernel

end Codemod.Ty
