import Codemod.Proofs.Types.Inference
/-!
# Types up to the names of their variables

Equivalent types have variables in the same places, and the bounds of these are
equivalent, but whether two places have the same variable goes unasked. It is
the same if one renaming takes the names that the one type mentions to those
that the other does. Then the types come to the same whatever the variables
stand for (`Ty.substitute_eq_of_renamed`), and so do their bounds, provided the
root type bounds both alike (`TypeVar.RootBoundsAlike`).
-/

namespace Codemod

variable {r : String → String}

namespace Ty

mutual

/-- The names of the variables that a type mentions, as it reads, bounds
included. The root type as a bound mentions none. -/
def varNames : Ty → List String
  | .named _ args => allVarNames args
  | .var name upper lower => name :: (boundVarNames upper ++ boundVarNames lower)

/-- The names of the variables that several types mention. -/
def allVarNames : List Ty → List String
  | [] => []
  | ty :: rest => varNames ty ++ allVarNames rest

/-- The names that a bound mentions, none if it is the root type. -/
def boundVarNames : Option Ty → List String
  | none => []
  | some bound => if bound.isNamed Name.object then [] else varNames bound

end

mutual

/-- Equivalent types mention as many variables. -/
theorem length_varNames {a b : Ty} (h : a.equivalent b = true) :
    a.varNames.length = b.varNames.length := by
  match a, b with
  | .named _ as, .named _ bs =>
    rw [equivalent, Bool.and_eq_true] at h
    rw [varNames, varNames, length_allVarNames h.2]
  | .var _ u l, .var _ u' l' =>
    rw [equivalent, Bool.and_eq_true] at h
    simp only [varNames, List.length_cons, List.length_append, length_boundVarNames h.1,
      length_boundVarNames h.2]
  | .named .., .var .. => exact absurd h (by simp [equivalent])
  | .var .., .named .. => exact absurd h (by simp [equivalent])

theorem length_allVarNames {as bs : List Ty} (h : equivalentAll as bs = true) :
    (allVarNames as).length = (allVarNames bs).length := by
  match as, bs with
  | [], [] => rfl
  | a :: as, b :: bs =>
    rw [equivalentAll, Bool.and_eq_true] at h
    rw [allVarNames, allVarNames, List.length_append, List.length_append, length_varNames h.1,
      length_allVarNames h.2]
  | [], _ :: _ => exact absurd h (by simp [equivalentAll])
  | _ :: _, [] => exact absurd h (by simp [equivalentAll])

theorem length_boundVarNames {a b : Option Ty} (h : equivalentBound a b = true) :
    (boundVarNames a).length = (boundVarNames b).length := by
  match a, b with
  | none, none => rfl
  | some a, some b =>
    rw [equivalentBound] at h
    rw [boundVarNames, boundVarNames, isNamed_of_equivalent h]
    split
    · rfl
    · exact length_varNames h
  | some a, none =>
    rw [equivalentBound] at h
    simp [boundVarNames, h]
  | none, some b =>
    rw [equivalentBound] at h
    simp [boundVarNames, h]

end

theorem map_append_eq_iff {as as' bs bs' : List String} (hlength : as.length = bs.length) :
    (as ++ as').map r = bs ++ bs' ↔ as.map r = bs ∧ as'.map r = bs' := by
  rw [List.map_append]
  constructor
  · exact fun h => List.append_inj h (by rw [List.length_map, hlength])
  · rintro ⟨rfl, rfl⟩
    rfl

end Ty

/-- The variables are one but for their names, which the renaming takes from the
first to the second, and those in their bounds too. -/
structure TypeVar.Corresponds (r : String → String) (v w : TypeVar) : Prop where
  name : r v.name = w.name
  upper : Ty.equivalentBound v.upper w.upper = true
  lower : Ty.equivalentBound v.lower w.lower = true
  upperNames : (Ty.boundVarNames v.upper).map r = Ty.boundVarNames w.upper
  lowerNames : (Ty.boundVarNames v.lower).map r = Ty.boundVarNames w.lower

/-- The root type is a bound without arguments, and only as an upper one it says
no more than a missing bound. -/
structure TypeVar.RootBoundsAlike (v w : TypeVar) : Prop where
  upper : ∀ bound, v.upper = some bound ∨ w.upper = some bound →
    bound.isNamed Name.object = true → bound = .plain Name.object
  lower : ∀ bound, v.lower = some bound →
    w.lower ≠ none ∧ (bound.isNamed Name.object = true → bound = .plain Name.object)

namespace Ty

mutual

/-- **Of types that differ by a renaming, every variable of the one corresponds
to one of the other.** -/
theorem exists_corresponding {a b : Ty} (h : a.equivalent b = true)
    (hnames : a.varNames.map r = b.varNames) {v : TypeVar} (hv : v ∈ a.vars) :
    ∃ w ∈ b.vars, v.Corresponds r w := by
  match a, b with
  | .named _ as, .named _ bs =>
    rw [equivalent, Bool.and_eq_true] at h
    exact exists_corresponding_all h.2 hnames hv
  | .var _ u l, .var name u' l' =>
    rw [equivalent, Bool.and_eq_true] at h
    obtain rfl := List.mem_singleton.1 hv
    obtain ⟨hname, hbounds⟩ := List.cons.inj hnames
    obtain ⟨hupper, hlower⟩ := (map_append_eq_iff (length_boundVarNames h.1)).1 hbounds
    exact ⟨⟨name, u', l'⟩, List.mem_singleton_self _, hname, h.1, h.2, hupper, hlower⟩
  | .named .., .var .. => exact absurd h (by simp [equivalent])
  | .var .., .named .. => exact absurd h (by simp [equivalent])

theorem exists_corresponding_all {as bs : List Ty} (h : equivalentAll as bs = true)
    (hnames : (allVarNames as).map r = allVarNames bs) {v : TypeVar} (hv : v ∈ allVars as) :
    ∃ w ∈ allVars bs, v.Corresponds r w := by
  match as, bs with
  | [], _ => exact absurd hv List.not_mem_nil
  | a :: as, b :: bs =>
    rw [equivalentAll, Bool.and_eq_true] at h
    obtain ⟨hfirst, hrest⟩ := (map_append_eq_iff (length_varNames h.1)).1 hnames
    rcases List.mem_append.1 hv with hv | hv
    · obtain ⟨w, hw, hcorresponds⟩ := exists_corresponding h.1 hfirst hv
      exact ⟨w, List.mem_append_left _ hw, hcorresponds⟩
    · obtain ⟨w, hw, hcorresponds⟩ := exists_corresponding_all h.2 hrest hv
      exact ⟨w, List.mem_append_right _ hw, hcorresponds⟩
  | _ :: _, [] => exact absurd h (by simp [equivalentAll])

end

variable {types types' : Dict Ty}

mutual

/-- What a type comes to depends on its variables only. -/
theorem substitute_congr {a : Ty} (h : ∀ v ∈ a.vars, types.get? v.name = types'.get? v.name) :
    a.substitute types = a.substitute types' := by
  match a with
  | .named name as => rw [substitute, substitute, substituteAll_congr h]
  | .var name u l => rw [substitute, substitute, h ⟨name, u, l⟩ (List.mem_singleton_self _)]

theorem substituteAll_congr {as : List Ty}
    (h : ∀ v ∈ allVars as, types.get? v.name = types'.get? v.name) :
    substituteAll types as = substituteAll types' as := by
  match as with
  | [] => rfl
  | a :: as =>
    rw [substituteAll, substituteAll,
      substitute_congr fun v hv => h v (List.mem_append_left _ hv),
      substituteAll_congr fun v hv => h v (List.mem_append_right _ hv)]

end

mutual

/-- **Types that differ by a renaming come to the same** where the variables
stand for the same. -/
theorem substitute_eq_of_renamed {a b : Ty} (h : a.equivalent b = true)
    (hnames : a.varNames.map r = b.varNames)
    (hsame : ∀ v ∈ a.vars, ∃ ty, types.get? v.name = some ty ∧ types'.get? (r v.name) = some ty) :
    a.substitute types = b.substitute types' := by
  match a, b with
  | .named _ as, .named _ bs =>
    rw [equivalent, Bool.and_eq_true, beq_iff_eq] at h
    rw [substitute, substitute, h.1, substituteAll_eq_of_renamed h.2 hnames hsame]
  | .var name u l, .var name' u' l' =>
    obtain ⟨hname, -⟩ := List.cons.inj hnames
    obtain ⟨ty, hty, hty'⟩ := hsame ⟨name, u, l⟩ (List.mem_singleton_self _)
    rw [substitute, substitute, hty, ← hname, hty']
    rfl
  | .named .., .var .. => exact absurd h (by simp [equivalent])
  | .var .., .named .. => exact absurd h (by simp [equivalent])

theorem substituteAll_eq_of_renamed {as bs : List Ty} (h : equivalentAll as bs = true)
    (hnames : (allVarNames as).map r = allVarNames bs)
    (hsame : ∀ v ∈ allVars as,
      ∃ ty, types.get? v.name = some ty ∧ types'.get? (r v.name) = some ty) :
    substituteAll types as = substituteAll types' bs := by
  match as, bs with
  | [], [] => rfl
  | a :: as, b :: bs =>
    rw [equivalentAll, Bool.and_eq_true] at h
    obtain ⟨hfirst, hrest⟩ := (map_append_eq_iff (length_varNames h.1)).1 hnames
    rw [substituteAll, substituteAll,
      substitute_eq_of_renamed h.1 hfirst fun v hv => hsame v (List.mem_append_left _ hv),
      substituteAll_eq_of_renamed h.2 hrest fun v hv => hsame v (List.mem_append_right _ hv)]
  | [], _ :: _ => exact absurd h (by simp [equivalentAll])
  | _ :: _, [] => exact absurd h (by simp [equivalentAll])

end

section

variable {bound bound' : Ty}

/-- Bounds that differ by a renaming come to the same. -/
theorem substitute_bound_eq (h : bound.equivalent bound' = true)
    (hnames : (boundVarNames (some bound)).map r = boundVarNames (some bound'))
    (hroot : bound.isNamed Name.object = true → bound = .plain Name.object)
    (hsame : ∀ v ∈ bound.vars,
      ∃ ty, types.get? v.name = some ty ∧ types'.get? (r v.name) = some ty) :
    bound.substitute types = bound'.substitute types' := by
  cases hobject : bound.isNamed Name.object with
  | true =>
    obtain rfl := hroot hobject
    obtain rfl : bound' = .plain Name.object := eq_of_equivalent (equivalent_symm h) rfl
    rfl
  | false =>
    rw [boundVarNames, boundVarNames, ← isNamed_of_equivalent h, hobject] at hnames
    exact substitute_eq_of_renamed h hnames hsame

/-- What a bound mentions corresponds to what the other mentions. -/
theorem exists_corresponding_bound {other : Option Ty}
    (h : equivalentBound (some bound) other = true)
    (hnames : (boundVarNames (some bound)).map r = boundVarNames other)
    (hroot : bound.isNamed Name.object = true → bound = .plain Name.object) {v : TypeVar}
    (hv : v ∈ bound.vars) :
    ∃ bound', other = some bound' ∧ ∃ w ∈ bound'.vars, v.Corresponds r w := by
  have hobject : bound.isNamed Name.object = false := by
    refine Bool.eq_false_iff.2 fun hobject => ?_
    rw [hroot hobject] at hv
    exact absurd hv List.not_mem_nil
  cases other with
  | none => exact Bool.noConfusion (hobject.symm.trans h)
  | some bound' =>
    rw [boundVarNames, boundVarNames, ← isNamed_of_equivalent h, hobject] at hnames
    exact ⟨bound', rfl, exists_corresponding h hnames hv⟩

end

end Ty

end Codemod
