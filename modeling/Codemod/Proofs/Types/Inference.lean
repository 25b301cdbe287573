import Codemod.Proofs.Types.Views
import Codemod.Types.Inference
/-!
# What inference establishes

A step of inference keeps the types that variables already stand for, and what
it adds lies within the bounds of a variable of the declared type
(`TypeOracle.Infers`). Once a declared type has been compared with an actual
one, all its variables stand for types, and substituting these, or any later
ones that keep them, makes the declared type equivalent to the actual one
(`equivalent_of_agree?`) or a type that the actual one may be assigned to
(`isConvertible_of_assign?`).

Types without variables infer nothing: they agree when they are equal
(`agree?_eq_some_iff`), and `Hierarchy.Assignable` says what may stand where
one is declared (`assign?_eq_some_iff`).
-/

namespace Codemod

namespace Dict

variable {α : Type}

/-- All entries of the first dictionary are entries of the second. -/
def ExtendedBy (d e : Dict α) : Prop :=
  ∀ key value, d.get? key = some value → e.get? key = some value

theorem ExtendedBy.refl (d : Dict α) : d.ExtendedBy d := fun _ _ h => h

theorem ExtendedBy.trans {d e f : Dict α} (hde : d.ExtendedBy e) (hef : e.ExtendedBy f) :
    d.ExtendedBy f :=
  fun key value h => hef key value (hde key value h)

/-- An entry under a new key displaces none. -/
theorem extendedBy_insert {d : Dict α} {key : String} (value : α) (hnew : d.get? key = none) :
    d.ExtendedBy (d.insert key value) := by
  intro other found hfound
  rw [get?_insert, if_neg]
  · exact hfound
  · rintro rfl
    rw [hnew] at hfound
    exact absurd hfound (by simp)

end Dict

/-! ## The variables of a type -/

namespace Ty

mutual

/-- The variables that occur in a type, in order; those that only its bounds
mention are left out. -/
def vars : Ty → List TypeVar
  | .named _ args => allVars args
  | .var name upper lower => [⟨name, upper, lower⟩]

/-- The variables that occur in several types, in order. -/
def allVars : List Ty → List TypeVar
  | [] => []
  | ty :: rest => vars ty ++ allVars rest

end

mutual

/-- A type without variables is not changed by what they stand for. -/
theorem substitute_eq_self (types : Dict Ty) {ty : Ty} (h : ty.mentionsVar = false) :
    ty.substitute types = ty := by
  match ty with
  | .named name args =>
    rw [substitute, substituteAll_eq_self types (by simpa only [mentionsVar] using h)]
  | .var _ _ _ => exact absurd h (by simp [mentionsVar])

theorem substituteAll_eq_self (types : Dict Ty) {tys : List Ty} (h : anyMentionsVar tys = false) :
    substituteAll types tys = tys := by
  match tys with
  | [] => rfl
  | ty :: rest =>
    rw [anyMentionsVar, Bool.or_eq_false_iff] at h
    rw [substituteAll, substitute_eq_self types h.1, substituteAll_eq_self types h.2]

end

end Ty

/-- The type lies within the bounds of the variable, as far as these mention no
variables themselves. -/
structure TypeVar.Admits (o : TypeOracle) (v : TypeVar) (ty : Ty) : Prop where
  upper : ∀ bound, v.upper = some bound → bound.mentionsVar = false →
    o.isConvertible ty bound = true
  lower : ∀ bound, v.lower = some bound → bound.mentionsVar = false →
    o.isSubtype bound ty = true

namespace TypeOracle

variable {o : TypeOracle}

/-- Inference that meets some variables leads from one state to another. -/
structure Infers (o : TypeOracle) (vars : List TypeVar) (before after : Dict Ty) : Prop where
  keeps : before.ExtendedBy after
  admitted : ∀ name ty, after.get? name = some ty →
    before.get? name = some ty ∨ ∃ v ∈ vars, v.name = name ∧ v.Admits o ty

namespace Infers

theorem refl (vars : List TypeVar) (types : Dict Ty) : Infers o vars types types :=
  ⟨.refl types, fun _ _ h => .inl h⟩

theorem trans {vars : List TypeVar} {first second third : Dict Ty}
    (h : Infers o vars first second) (h' : Infers o vars second third) :
    Infers o vars first third where
  keeps := h.keeps.trans h'.keeps
  admitted name ty hty := by
    rcases h'.admitted name ty hty with hbefore | hnew
    · exact h.admitted name ty hbefore
    · exact .inr hnew

theorem mono {vars more : List TypeVar} {before after : Dict Ty} (h : Infers o vars before after)
    (hsub : vars ⊆ more) : Infers o more before after where
  keeps := h.keeps
  admitted name ty hty := by
    rcases h.admitted name ty hty with hbefore | ⟨v, hv, hname, hadmits⟩
    · exact .inl hbefore
    · exact .inr ⟨v, hsub hv, hname, hadmits⟩

end Infers

/-! ## One variable -/

/-- **What meeting a variable can do.** Either it already stands for a type
that the actual one fits, or it is new and the actual type satisfies its bounds
under what is inferred so far. -/
theorem bindVar?_cases {fit : Fit} {v : TypeVar} {actual : Ty} {types types' : Dict Ty}
    (h : o.bindVar? fit v actual types = some types') :
    (∃ bound, types.get? v.name = some bound ∧ types' = types ∧
      (bound.equivalent actual = true ∨
        fit = .assignable ∧ o.isConvertible actual bound = true)) ∨
    (types.get? v.name = none ∧ types' = types.insert v.name actual ∧
      (∀ upper, v.upper = some upper → o.isConvertible actual (upper.substitute types) = true) ∧
      (∀ lower, v.lower = some lower → o.isSubtype (lower.substitute types) actual = true)) := by
  unfold bindVar? at h
  split at h
  · rename_i bound hbound
    left
    split at h
    · rename_i hfits
      refine ⟨bound, hbound, (Option.some.inj h).symm, ?_⟩
      simpa using hfits
    · exact absurd h (by simp)
  · rename_i hnew
    right
    simp only [Option.ite_none_right_eq_some, Bool.and_eq_true, Option.some.injEq] at h
    obtain ⟨⟨hupper, hlower⟩, htypes⟩ := h
    refine ⟨hnew, htypes.symm, fun upper hu => ?_, fun lower hl => ?_⟩
    · simpa only [hu] using hupper
    · simpa only [hl] using hlower

theorem infers_of_bindVar? {fit : Fit} {v : TypeVar} {actual : Ty} {types types' : Dict Ty}
    (h : o.bindVar? fit v actual types = some types') : Infers o [v] types types' := by
  rcases bindVar?_cases h with ⟨bound, -, rfl, -⟩ | ⟨hnew, rfl, hupper, hlower⟩
  · exact .refl _ _
  refine ⟨Dict.extendedBy_insert actual hnew, fun name ty hty => ?_⟩
  rw [Dict.get?_insert] at hty
  split at hty
  · rename_i hname
    obtain rfl := Option.some.inj hty
    -- The bounds were checked with what was inferred before; closed ones do not depend on it.
    refine .inr ⟨v, List.mem_singleton_self v, hname.symm, fun bound hb hclosed => ?_,
      fun bound hb hclosed => ?_⟩
    · rw [← Ty.substitute_eq_self types hclosed]
      exact hupper bound hb
    · rw [← Ty.substitute_eq_self types hclosed]
      exact hlower bound hb
  · exact .inl hty

/-- A variable that was met stands for a type that the actual one fits. -/
theorem exists_bound_of_bindVar? {fit : Fit} {v : TypeVar} {actual : Ty} {types types' : Dict Ty}
    (h : o.bindVar? fit v actual types = some types') :
    ∃ bound, types'.get? v.name = some bound ∧
      (bound.equivalent actual = true ∨
        fit = .assignable ∧ o.isConvertible actual bound = true) := by
  rcases bindVar?_cases h with ⟨bound, hbound, rfl, hfits⟩ | ⟨-, rfl, -, -⟩
  · exact ⟨bound, hbound, hfits⟩
  · exact ⟨actual, by rw [Dict.get?_insert, if_pos rfl], .inl (Ty.equivalent_refl actual)⟩

/-- A variable that was met is met again by the same type, and stays as it is. -/
theorem bindVar?_again {fit : Fit} {v : TypeVar} {actual : Ty} {types types' final : Dict Ty}
    (h : o.bindVar? fit v actual types = some types') (hfinal : types'.ExtendedBy final) :
    o.bindVar? fit v actual final = some final := by
  obtain ⟨bound, hbound, hfits⟩ := exists_bound_of_bindVar? h
  rw [bindVar?, hfinal _ _ hbound]
  dsimp only
  rw [if_pos]
  rcases hfits with hequiv | ⟨rfl, hconv⟩
  · simp [hequiv]
  · simp [hconv]

/-! ## Types that must agree -/

mutual

theorem infers_of_agree? {declared actual : Ty} {types types' : Dict Ty}
    (h : o.agree? declared actual types = some types') :
    Infers o declared.vars types types' := by
  match declared, actual with
  | .var _ _ _, _ => exact infers_of_bindVar? h
  | .named name args, .named name' args' =>
    rw [agree?] at h
    split at h
    · exact infers_of_agreeAll? h
    · exact absurd h (by simp)
  | .named _ _, .var _ _ _ => exact absurd h (by simp [agree?])

theorem infers_of_agreeAll? {declared actual : List Ty} {types types' : Dict Ty}
    (h : o.agreeAll? declared actual types = some types') :
    Infers o (Ty.allVars declared) types types' := by
  match declared, actual with
  | [], [] =>
    obtain rfl := Option.some.inj h
    exact .refl _ _
  | d :: declared, a :: actual =>
    obtain ⟨middle, hd, hrest⟩ := Option.bind_eq_some_iff.1 h
    have hleft : d.vars ⊆ Ty.allVars (d :: declared) := List.subset_append_left _ _
    have hright : Ty.allVars declared ⊆ Ty.allVars (d :: declared) :=
      List.subset_append_right _ _
    exact ((infers_of_agree? hd).mono hleft).trans ((infers_of_agreeAll? hrest).mono hright)
  | [], _ :: _ => exact absurd h (by simp [agreeAll?])
  | _ :: _, [] => exact absurd h (by simp [agreeAll?])

end

mutual

/-- Every variable of a declared type that was compared stands for a type. -/
theorem isSome_of_agree? {declared actual : Ty} {types types' : Dict Ty}
    (h : o.agree? declared actual types = some types') {v : TypeVar} (hv : v ∈ declared.vars) :
    ∃ bound, types'.get? v.name = some bound := by
  match declared, actual with
  | .var _ _ _, _ =>
    obtain rfl := List.mem_singleton.1 hv
    obtain ⟨bound, hbound, -⟩ := exists_bound_of_bindVar? h
    exact ⟨bound, hbound⟩
  | .named name args, .named name' args' =>
    rw [agree?] at h
    split at h
    · exact isSome_of_agreeAll? h hv
    · exact absurd h (by simp)
  | .named _ _, .var _ _ _ => exact absurd h (by simp [agree?])

theorem isSome_of_agreeAll? {declared actual : List Ty} {types types' : Dict Ty}
    (h : o.agreeAll? declared actual types = some types') {v : TypeVar}
    (hv : v ∈ Ty.allVars declared) : ∃ bound, types'.get? v.name = some bound := by
  match declared, actual with
  | [], _ => exact absurd hv (by simp [Ty.allVars])
  | d :: declared, a :: actual =>
    obtain ⟨middle, hd, hrest⟩ := Option.bind_eq_some_iff.1 h
    rcases List.mem_append.1 hv with hleft | hright
    · obtain ⟨bound, hbound⟩ := isSome_of_agree? hd hleft
      exact ⟨bound, (infers_of_agreeAll? hrest).keeps _ _ hbound⟩
    · exact isSome_of_agreeAll? hrest hright
  | _ :: _, [] => exact absurd h (by simp [agreeAll?])

end

mutual

/-- **Agreement is equivalence after substitution**, by what was inferred and by
all that is inferred later. -/
theorem equivalent_of_agree? {declared actual : Ty} {types types' final : Dict Ty}
    (h : o.agree? declared actual types = some types') (hfinal : types'.ExtendedBy final) :
    (declared.substitute final).equivalent actual = true := by
  match declared, actual with
  | .var name _ _, _ =>
    obtain ⟨bound, hbound, hequiv | ⟨hfit, -⟩⟩ := exists_bound_of_bindVar? h
    · rw [Ty.substitute, hfinal name bound hbound]
      exact hequiv
    · exact absurd hfit (by simp)
  | .named name args, .named name' args' =>
    rw [agree?] at h
    split at h
    · rename_i hname
      rw [Ty.substitute, Ty.equivalent, equivalentAll_of_agreeAll? h hfinal, hname]
      simp
    · exact absurd h (by simp)
  | .named _ _, .var _ _ _ => exact absurd h (by simp [agree?])

theorem equivalentAll_of_agreeAll? {declared actual : List Ty} {types types' final : Dict Ty}
    (h : o.agreeAll? declared actual types = some types') (hfinal : types'.ExtendedBy final) :
    Ty.equivalentAll (Ty.substituteAll final declared) actual = true := by
  match declared, actual with
  | [], [] => rfl
  | d :: declared, a :: actual =>
    obtain ⟨middle, hd, hrest⟩ := Option.bind_eq_some_iff.1 h
    -- The other arguments keep what the first one inferred.
    have hmiddle : middle.ExtendedBy final := (infers_of_agreeAll? hrest).keeps.trans hfinal
    rw [Ty.substituteAll, Ty.equivalentAll, equivalent_of_agree? hd hmiddle,
      equivalentAll_of_agreeAll? hrest hfinal]
    rfl
  | [], _ :: _ => exact absurd h (by simp [agreeAll?])
  | _ :: _, [] => exact absurd h (by simp [agreeAll?])

end

mutual

/-- Without variables to stand for anything, types agree when they are equal. -/
theorem agree?_eq_some_iff {declared actual : Ty} {types types' : Dict Ty}
    (hclosed : declared.mentionsVar = false) :
    o.agree? declared actual types = some types' ↔ actual = declared ∧ types' = types := by
  match declared, actual with
  | .var _ _ _, _ => exact absurd hclosed (by simp [Ty.mentionsVar])
  | .named name args, .named name' args' =>
    rw [agree?, Option.ite_none_right_eq_some, agreeAll?_eq_some_iff hclosed, Ty.named.injEq,
      eq_comm (a := name'), and_assoc]
  | .named _ _, .var _ _ _ => simp [agree?]

theorem agreeAll?_eq_some_iff {declared actual : List Ty} {types types' : Dict Ty}
    (hclosed : Ty.anyMentionsVar declared = false) :
    o.agreeAll? declared actual types = some types' ↔ actual = declared ∧ types' = types := by
  match declared, actual with
  | [], [] => simp [agreeAll?, eq_comm]
  | d :: declared, a :: actual =>
    rw [Ty.anyMentionsVar, Bool.or_eq_false_iff] at hclosed
    rw [agreeAll?, Option.bind_eq_some_iff, List.cons.injEq]
    constructor
    · rintro ⟨middle, hd, hrest⟩
      obtain ⟨rfl, rfl⟩ := (agree?_eq_some_iff hclosed.1).1 hd
      obtain ⟨rfl, rfl⟩ := (agreeAll?_eq_some_iff hclosed.2).1 hrest
      exact ⟨⟨rfl, rfl⟩, rfl⟩
    · rintro ⟨⟨rfl, rfl⟩, rfl⟩
      exact ⟨types', (agree?_eq_some_iff hclosed.1).2 ⟨rfl, rfl⟩,
        (agreeAll?_eq_some_iff hclosed.2).2 ⟨rfl, rfl⟩⟩
  | [], _ :: _ => simp [agreeAll?]
  | _ :: _, [] => simp [agreeAll?]

end

mutual

/-- **What agreed agrees again**, and then infers nothing more. -/
theorem agree?_again {declared actual : Ty} {types types' final : Dict Ty}
    (h : o.agree? declared actual types = some types') (hfinal : types'.ExtendedBy final) :
    o.agree? declared actual final = some final := by
  match declared, actual with
  | .var _ _ _, _ => exact bindVar?_again h hfinal
  | .named name args, .named name' args' =>
    rw [agree?] at h ⊢
    split at h
    · rename_i hname
      rw [if_pos hname, agreeAll?_again h hfinal]
    · exact absurd h (by simp)
  | .named _ _, .var _ _ _ => exact absurd h (by simp [agree?])

theorem agreeAll?_again {declared actual : List Ty} {types types' final : Dict Ty}
    (h : o.agreeAll? declared actual types = some types') (hfinal : types'.ExtendedBy final) :
    o.agreeAll? declared actual final = some final := by
  match declared, actual with
  | [], [] => rfl
  | d :: declared, a :: actual =>
    obtain ⟨middle, hd, hrest⟩ := Option.bind_eq_some_iff.1 h
    have hmiddle : middle.ExtendedBy final := (infers_of_agreeAll? hrest).keeps.trans hfinal
    rw [agreeAll?, agree?_again hd hmiddle, Option.bind_some, agreeAll?_again hrest hfinal]
  | [], _ :: _ => exact absurd h (by simp [agreeAll?])
  | _ :: _, [] => exact absurd h (by simp [agreeAll?])

end

/-! ## A type that must be assignable -/

/-- **What asking for a declared type can do.** It is a variable, a class
without arguments that the actual type converts to, or a class whose arguments
agree with those of the actual type seen as that class. -/
theorem assign?_cases {declared actual : Ty} {types types' : Dict Ty}
    (h : o.assign? declared actual types = some types') :
    (∃ v : TypeVar, declared = v.toTy ∧ o.bindVar? .assignable v actual types = some types') ∨
    (∃ name, declared = .plain name ∧ types' = types ∧
      o.isConvertible actual declared = true) ∨
    (∃ name args viewed, declared = .named name args ∧ args ≠ [] ∧
      o.asSuper actual name = some viewed ∧
      o.agreeAll? args viewed.args types = some types') := by
  unfold assign? at h
  split at h
  · rename_i name upper lower
    exact .inl ⟨⟨name, upper, lower⟩, rfl, h⟩
  · rename_i name
    split at h
    · rename_i hconv
      exact .inr (.inl ⟨name, rfl, (Option.some.inj h).symm, hconv⟩)
    · exact absurd h (by simp)
  · rename_i name args hargs
    obtain ⟨viewed, hview, hagree⟩ := Option.bind_eq_some_iff.1 h
    exact .inr (.inr ⟨name, args, viewed, rfl, fun hnil => hargs (by rw [hnil]), hview, hagree⟩)

theorem infers_of_assign? {declared actual : Ty} {types types' : Dict Ty}
    (h : o.assign? declared actual types = some types') :
    Infers o declared.vars types types' := by
  rcases assign?_cases h with ⟨v, rfl, hbind⟩ | ⟨name, rfl, rfl, -⟩ |
    ⟨name, args, viewed, rfl, -, -, hagree⟩
  · exact infers_of_bindVar? hbind
  · exact .refl _ _
  · exact infers_of_agreeAll? hagree

/-- **What could be assigned can be assigned again**, and then infers nothing
more. -/
theorem assign?_again {declared actual : Ty} {types types' : Dict Ty}
    (h : o.assign? declared actual types = some types') :
    o.assign? declared actual types' = some types' := by
  rcases assign?_cases h with ⟨v, rfl, hbind⟩ | ⟨name, rfl, rfl, -⟩ |
    ⟨name, args, viewed, rfl, hargs, hview, hagree⟩
  · exact bindVar?_again hbind (.refl _)
  · exact h
  · obtain ⟨first, rest, rfl⟩ := List.exists_cons_of_ne_nil hargs
    rw [assign?, hview, Option.bind_some, agreeAll?_again hagree (.refl _)]
    exact nofun

theorem isSome_of_assign? {declared actual : Ty} {types types' : Dict Ty}
    (h : o.assign? declared actual types = some types') {v : TypeVar} (hv : v ∈ declared.vars) :
    ∃ bound, types'.get? v.name = some bound := by
  rcases assign?_cases h with ⟨w, rfl, hbind⟩ | ⟨name, rfl, -, -⟩ |
    ⟨name, args, viewed, rfl, -, -, hagree⟩
  · obtain rfl := List.mem_singleton.1 hv
    obtain ⟨bound, hbound, -⟩ := exists_bound_of_bindVar? hbind
    exact ⟨bound, hbound⟩
  · exact absurd hv (by simp [Ty.plain, Ty.vars, Ty.allVars])
  · exact isSome_of_agreeAll? hagree hv

end TypeOracle

namespace Hierarchy

open TypeOracle

variable {h : Hierarchy}

/-- **What fits a declared type may be assigned to it** once its variables are
replaced, by what was inferred and by all that is inferred later. -/
theorem isConvertible_of_assign? {declared actual : Ty} {types types' final : Dict Ty}
    (hassign : h.oracle.assign? declared actual types = some types')
    (hfinal : types'.ExtendedBy final) :
    h.isConvertible actual (declared.substitute final) = true := by
  rcases assign?_cases hassign with ⟨v, rfl, hbind⟩ | ⟨name, rfl, -, hconv⟩ |
    ⟨name, args, viewed, rfl, -, hview, hagree⟩
  · obtain ⟨bound, hbound, hfits⟩ := exists_bound_of_bindVar? hbind
    rw [TypeVar.toTy, Ty.substitute, hfinal _ _ hbound]
    rcases hfits with hequiv | ⟨-, hconv⟩
    · exact isConvertible_of_equivalent (Ty.equivalent_symm hequiv)
    · exact hconv
  · exact hconv
  · obtain ⟨viewArgs, rfl⟩ := asSuper_eq_named hview
    apply isConvertible_of_isSubtype
    -- The arguments of the view are those of the declared type, up to equivalence.
    have hequiv := equivalentAll_of_agreeAll? hagree hfinal
    rw [Ty.args, Ty.equivalentAll_comm] at hequiv
    rw [isSubtype, Ty.substitute, viewSubtype]
    simp only [show h.asSuper actual name = _ from hview]
    simp [Ty.equivalent, hequiv]

/-- A value of the actual type may stand where a type without variables is
declared: it converts to a class without arguments, and a class with arguments
is exactly how the actual type looks as an instance of it. -/
def Assignable (h : Hierarchy) (declared actual : Ty) : Prop :=
  (declared.args = [] ∧ h.isConvertible actual declared = true) ∨
    (declared.args ≠ [] ∧
      ∃ name, declared.name? = some name ∧ h.asSuper actual name = some declared)

/-- **Asking for a type without variables infers nothing**, and succeeds when
the actual type is assignable to it. -/
theorem assign?_eq_some_iff {declared actual : Ty} {types types' : Dict Ty}
    (hclosed : declared.mentionsVar = false) :
    h.oracle.assign? declared actual types = some types' ↔
      h.Assignable declared actual ∧ types' = types := by
  cases declared with
  | var _ _ _ => exact absurd hclosed (by simp [Ty.mentionsVar])
  | named name args =>
    cases args with
    | nil =>
      rw [assign?, Option.ite_none_right_eq_some, Option.some.injEq, eq_comm (a := types)]
      simp [oracle, Assignable, Ty.args]
    | cons arg rest =>
      rw [assign?, Option.bind_eq_some_iff]
      · constructor
        · rintro ⟨viewed, hview, hagree⟩
          obtain ⟨hargs, rfl⟩ := (agreeAll?_eq_some_iff hclosed).1 hagree
          obtain ⟨viewArgs, rfl⟩ := asSuper_eq_named hview
          obtain rfl : viewArgs = arg :: rest := hargs
          exact ⟨.inr ⟨by simp [Ty.args], name, rfl, hview⟩, rfl⟩
        · rintro ⟨⟨hnil, -⟩ | ⟨-, name', hname, hview⟩, rfl⟩
          · exact absurd hnil (by simp [Ty.args])
          · obtain rfl : name = name' := Option.some.inj hname
            exact ⟨_, hview, (agreeAll?_eq_some_iff hclosed).2 ⟨rfl, rfl⟩⟩
      · simp

end Hierarchy

end Codemod
