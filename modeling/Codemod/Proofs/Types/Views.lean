import Codemod.Proofs.Types.Equivalence
import Codemod.Types.Hierarchy
/-!
# Views of a type

What a class hierarchy answers about one type. A view as an instance of a class
is a use of that class (`asSuper_eq_named`), and a type is its own view as the
class it names (`asSuper_self`). So equivalent types are subtypes of one
another, which is why a type may always stand where an equivalent one is asked
for (`isConvertible_of_equivalent`).
-/

namespace Codemod.Hierarchy

variable {h : Hierarchy}

/-! ## The shape of a view -/

/-- **What a step of a climb can do.** It has arrived, goes on from the bound of
a variable or from a supertype of a class, or falls back on the root class. -/
theorem climb_cases {steps : Nat} {ty viewed : Ty} {target : String}
    (hclimb : h.climb (steps + 1) ty target = some viewed) :
    (∃ args, ty = .named target args ∧ viewed = ty) ∨
    (∃ name upper lower, ty = .var name upper lower ∧
      h.climb steps (upper.getD (.plain Name.object)) target = some viewed) ∨
    (∃ name args info sup, ty = .named name args ∧ h.classInfo? name = some info ∧
      sup ∈ info.supers ∧
      h.climb steps (sup.substitute (Dict.ofList (info.params.zip args))) target = some viewed) ∨
    (target = Name.object ∧ viewed = .plain Name.object) := by
  cases ty with
  | var name upper lower =>
    exact .inr (.inl ⟨name, upper, lower, rfl, by simpa only [climb] using hclimb⟩)
  | named name args =>
    rw [climb] at hclimb
    split at hclimb
    · rename_i heq
      exact .inl ⟨args, by rw [heq], (Option.some.inj hclimb).symm⟩
    rcases Option.or_eq_some_iff.1 hclimb with habove | ⟨-, hroot⟩
    · split at habove
      · rename_i info hinfo
        obtain ⟨sup, hmem, hsup⟩ := List.exists_of_findSome?_eq_some habove
        exact .inr (.inr (.inl ⟨name, args, info, sup, rfl, hinfo, hmem, hsup⟩))
      · exact absurd habove (by simp)
    · split at hroot
      · rename_i hobject
        simp only [Bool.and_eq_true, decide_eq_true_eq] at hobject
        exact .inr (.inr (.inr ⟨hobject.1, (Option.some.inj hroot).symm⟩))
      · exact absurd hroot (by simp)

/-- A climb ends at the class it looks for. -/
theorem climb_eq_named {steps : Nat} {ty viewed : Ty} {target : String}
    (hclimb : h.climb steps ty target = some viewed) :
    ∃ args, viewed = .named target args := by
  induction steps generalizing ty with
  | zero => simp [climb] at hclimb
  | succ steps ih =>
    rcases climb_cases hclimb with ⟨args, rfl, rfl⟩ | ⟨_, upper, _, -, habove⟩ |
      ⟨_, _, _, sup, -, -, -, habove⟩ | ⟨rfl, rfl⟩
    · exact ⟨args, rfl⟩
    · exact ih habove
    · exact ih habove
    · exact ⟨[], rfl⟩

/-- **A view is a use of the class it is taken at.** -/
theorem asSuper_eq_named {ty viewed : Ty} {target : String}
    (hview : h.asSuper ty target = some viewed) : ∃ args, viewed = .named target args :=
  climb_eq_named hview

theorem stepBound_pos (ty : Ty) : 0 < h.stepBound ty :=
  Nat.mul_pos (by omega) (Nat.pow_pos (by omega))

/-- A use of a class is its own view as that class. -/
theorem asSuper_self (name : String) (args : List Ty) :
    h.asSuper (.named name args) name = some (.named name args) := by
  have hpos : 0 < h.stepBound (.named name args) := stepBound_pos _
  obtain ⟨steps, hsteps⟩ := Nat.exists_eq_succ_of_ne_zero (Nat.ne_of_gt hpos)
  rw [asSuper, hsteps, climb, if_pos rfl]

/-! ## Types that agree may stand for one another -/

/-- A type is below a use of a class if its view as the class agrees with the use, or the
use has no arguments. -/
theorem isSubtype_named_iff {ty : Ty} {name : String} {args : List Ty} :
    h.isSubtype ty (.named name args) = true ↔
      ∃ viewed, h.asSuper ty name = some viewed ∧
        (viewed.equivalent (.named name args) = true ∨ args = []) := by
  rw [isSubtype, TypeOracle.viewSubtype]
  cases h.asSuper ty name <;> simp

theorem isSubtype_of_equivalent {a b : Ty} (hab : a.equivalent b = true) :
    h.isSubtype a b = true := by
  cases b with
  | var name upper lower => exact hab
  | named name args =>
    cases a with
    | var _ _ _ => exact absurd hab (by simp [Ty.equivalent])
    | named name' args' =>
      have hname : name' = name := by
        rw [Ty.equivalent, Bool.and_eq_true] at hab
        exact beq_iff_eq.1 hab.1
      subst hname
      -- Both name one class, so the first type is its own view there.
      exact isSubtype_named_iff.2 ⟨_, asSuper_self _ _, .inl hab⟩

theorem isConvertible_of_isSubtype {a b : Ty} (hab : h.isSubtype a b = true) :
    h.isConvertible a b = true := by
  rw [isConvertible, hab, Bool.true_or]

/-- **Assignment does not tell equivalent types apart.** -/
theorem isConvertible_of_equivalent {a b : Ty} (hab : a.equivalent b = true) :
    h.isConvertible a b = true :=
  isConvertible_of_isSubtype (isSubtype_of_equivalent hab)

theorem isConvertible_refl (a : Ty) : h.isConvertible a a = true :=
  isConvertible_of_equivalent (Ty.equivalent_refl a)

end Codemod.Hierarchy
