import Codemod.Types.Basic
/-!
# Types that agree

`Ty.equivalent` is reflexive and symmetric on all types, the bounds of their
variables included. Both are proved along the mutual recursion of the
comparison, with one statement for types, one for lists of arguments and one
for bounds. Without variables it is equality (`Ty.eq_of_equivalent`). It is
transitive as long as the root type has no arguments (`Ty.equivalent_trans`):
a missing bound agrees with every use of the root type, and two of these agree
with each other only when they are the same.
-/

namespace Codemod.Ty

mutual

theorem equivalent_refl (a : Ty) : a.equivalent a = true := by
  match a with
  | .named name args => simp [equivalent, equivalentAll_refl args]
  | .var _ upper lower =>
    simp [equivalent, equivalentBound_refl upper, equivalentBound_refl lower]

theorem equivalentAll_refl (as : List Ty) : equivalentAll as as = true := by
  match as with
  | [] => rfl
  | a :: rest => simp [equivalentAll, equivalent_refl a, equivalentAll_refl rest]

theorem equivalentBound_refl (bound : Option Ty) : equivalentBound bound bound = true := by
  match bound with
  | none => rfl
  | some a => exact equivalent_refl a

end

mutual

theorem equivalent_comm (a b : Ty) : a.equivalent b = b.equivalent a := by
  match a, b with
  | .named n as, .named m bs =>
    have hname : (n == m) = (m == n) := Bool.beq_comm
    rw [equivalent, equivalent, hname, equivalentAll_comm as bs]
  | .var _ u l, .var _ u' l' =>
    rw [equivalent, equivalent, equivalentBound_comm u u', equivalentBound_comm l l']
  | .named .., .var .. => rfl
  | .var .., .named .. => rfl

theorem equivalentAll_comm (as bs : List Ty) : equivalentAll as bs = equivalentAll bs as := by
  match as, bs with
  | [], [] => rfl
  | a :: as, b :: bs =>
    rw [equivalentAll, equivalentAll, equivalent_comm a b, equivalentAll_comm as bs]
  | [], _ :: _ => rfl
  | _ :: _, [] => rfl

theorem equivalentBound_comm (a b : Option Ty) : equivalentBound a b = equivalentBound b a := by
  match a, b with
  | none, none => rfl
  | some a, some b => exact equivalent_comm a b
  | some _, none => rfl
  | none, some _ => rfl

end

theorem equivalent_symm {a b : Ty} (h : a.equivalent b = true) : b.equivalent a = true :=
  equivalent_comm a b ▸ h

mutual

/-- **A type without variables is equivalent to itself only.** -/
theorem eq_of_equivalent {a b : Ty} (h : a.equivalent b = true) (hb : b.mentionsVar = false) :
    a = b := by
  match a, b with
  | .named _ as, .named _ bs =>
    rw [equivalent, Bool.and_eq_true, beq_iff_eq] at h
    rw [h.1, eqAll_of_equivalentAll h.2 (by simpa only [mentionsVar] using hb)]
  | .var .., .var .. => exact absurd hb (by simp [mentionsVar])
  | .named .., .var .. => exact absurd h (by simp [equivalent])
  | .var .., .named .. => exact absurd h (by simp [equivalent])

theorem eqAll_of_equivalentAll {as bs : List Ty} (h : equivalentAll as bs = true)
    (hbs : anyMentionsVar bs = false) : as = bs := by
  match as, bs with
  | [], [] => rfl
  | a :: as, b :: bs =>
    rw [equivalentAll, Bool.and_eq_true] at h
    rw [anyMentionsVar, Bool.or_eq_false_iff] at hbs
    rw [eq_of_equivalent h.1 hbs.1, eqAll_of_equivalentAll h.2 hbs.2]
  | [], _ :: _ => exact absurd h (by simp [equivalentAll])
  | _ :: _, [] => exact absurd h (by simp [equivalentAll])

end

/-! ## Transitivity -/

theorem isNamed_of_equivalent {a b : Ty} (h : a.equivalent b = true) (name : String) :
    a.isNamed name = b.isNamed name := by
  cases a <;> cases b <;> simp_all [equivalent, isNamed, name?]

mutual

/-- Nowhere in the type, bounds included, does the root type have arguments. -/
def hasPlainRoot : Ty → Bool
  | .named name args => (name != Name.object || args.isEmpty) && allHavePlainRoot args
  | .var _ upper lower => boundHasPlainRoot upper && boundHasPlainRoot lower

/-- Nowhere in the types does the root type have arguments. -/
def allHavePlainRoot : List Ty → Bool
  | [] => true
  | ty :: rest => hasPlainRoot ty && allHavePlainRoot rest

/-- Nowhere in a bound does the root type have arguments. -/
def boundHasPlainRoot : Option Ty → Bool
  | none => true
  | some bound => hasPlainRoot bound

end

/-- There is one root type. -/
theorem eq_plain_of_isNamed {a : Ty} (h : a.hasPlainRoot = true)
    (hroot : a.isNamed Name.object = true) : a = .plain Name.object := by
  cases a with
  | named name args =>
    obtain rfl : name = Name.object := by simpa [isNamed, name?] using hroot
    rw [hasPlainRoot, Bool.and_eq_true] at h
    have hargs : args = [] := by simpa using h.1
    rw [hargs, plain]
  | var => exact absurd hroot nofun

mutual

/-- **What agrees with one type agrees**, where the root type has no arguments. -/
theorem equivalent_trans {a b c : Ty} (ha : a.hasPlainRoot = true) (hc : c.hasPlainRoot = true)
    (hab : a.equivalent b = true) (hbc : b.equivalent c = true) : a.equivalent c = true := by
  match a, b, c with
  | .named _ as, .named _ bs, .named _ cs =>
    rw [hasPlainRoot, Bool.and_eq_true] at ha hc
    rw [equivalent, Bool.and_eq_true, beq_iff_eq] at hab hbc ⊢
    exact ⟨hab.1.trans hbc.1, equivalentAll_trans ha.2 hc.2 hab.2 hbc.2⟩
  | .var _ u l, .var _ u' l', .var _ u'' l'' =>
    rw [hasPlainRoot, Bool.and_eq_true] at ha hc
    rw [equivalent, Bool.and_eq_true] at hab hbc ⊢
    exact ⟨equivalentBound_trans ha.1 hc.1 hab.1 hbc.1,
      equivalentBound_trans ha.2 hc.2 hab.2 hbc.2⟩
  | .named .., .var .., _ => exact absurd hab nofun
  | .var .., .named .., _ => exact absurd hab nofun
  | _, .named .., .var .. => exact absurd hbc nofun
  | _, .var .., .named .. => exact absurd hbc nofun

theorem equivalentAll_trans {as bs cs : List Ty} (has : allHavePlainRoot as = true)
    (hcs : allHavePlainRoot cs = true) (hab : equivalentAll as bs = true)
    (hbc : equivalentAll bs cs = true) : equivalentAll as cs = true := by
  match as, bs, cs with
  | [], [], [] => rfl
  | a :: as, b :: bs, c :: cs =>
    rw [allHavePlainRoot, Bool.and_eq_true] at has hcs
    rw [equivalentAll, Bool.and_eq_true] at hab hbc ⊢
    exact ⟨equivalent_trans has.1 hcs.1 hab.1 hbc.1,
      equivalentAll_trans has.2 hcs.2 hab.2 hbc.2⟩
  | [], _ :: _, _ => exact absurd hab nofun
  | _ :: _, [], _ => exact absurd hab nofun
  | _, [], _ :: _ => exact absurd hbc nofun
  | _, _ :: _, [] => exact absurd hbc nofun

theorem equivalentBound_trans {a b c : Option Ty} (ha : boundHasPlainRoot a = true)
    (hc : boundHasPlainRoot c = true) (hab : equivalentBound a b = true)
    (hbc : equivalentBound b c = true) : equivalentBound a c = true := by
  match a, b, c with
  | some _, some _, some _ => exact equivalent_trans ha hc hab hbc
  | some a, none, some c =>
    -- Both bounds are the root type, and so they are the same.
    rw [eq_plain_of_isNamed ha hab, eq_plain_of_isNamed hc hbc]
    exact equivalentBound_refl _
  | some a, some b, none => exact (isNamed_of_equivalent hab Name.object).trans hbc
  | none, some b, some c => exact (isNamed_of_equivalent hbc Name.object).symm.trans hab
  | some _, none, none => exact hab
  | none, none, some _ => exact hbc
  | none, _, none => rfl

end

end Codemod.Ty
