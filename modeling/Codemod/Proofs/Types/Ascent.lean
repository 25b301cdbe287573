import Codemod.Proofs.Types.Views
/-!
# Looking for a class above a type

A view is found by a search that knows no bound on its steps (`Hierarchy.Finds`): it
goes from a variable to its upper bound and from a class to its declared supertypes,
in their order, until it meets the class it looks for. Type arguments may grow on the
way, so no measure of the type gets smaller.

Where the declared supertypes are classes and nothing inherits from itself, the search
ends for every type, and the climb that counts its steps gives its answer
(`Hierarchy.finds_iff`): classes do not recur along a path, so there are no longer paths
than there are classes. Whether it succeeds is a matter of the paths between classes
alone, whatever their arguments (`Hierarchy.isSome_iff_of_finds`).
-/

namespace Codemod

/-- The class at which a type stands: a variable stands where its upper bound does. -/
def Ty.head : Ty → String
  | .named name _ => name
  | .var _ (some upper) _ => head upper
  | .var _ none _ => Name.object
termination_by structural ty => ty

namespace Hierarchy

variable {h : Hierarchy} {name target : String} {args : List Ty} {ty viewed : Ty}
  {answer : Option Ty} {steps : Nat}

/-! ## The search -/

/-- The supertypes that a class declares. -/
def declaredSupers (h : Hierarchy) (name : String) : List Ty :=
  ((h.classInfo? name).map (·.supers)).getD []

/-- What the parameters of a class stand for where it has these arguments. -/
def arguments (h : Hierarchy) (name : String) (args : List Ty) : Dict Ty :=
  Dict.ofList ((((h.classInfo? name).map (·.params)).getD []).zip args)

/-- The supertypes of a class with these arguments. -/
def supertypes (h : Hierarchy) (name : String) (args : List Ty) : List Ty :=
  (h.declaredSupers name).map (·.substitute (h.arguments name args))

/-- What a class is seen as where no declared supertype leads to the target: every class
but a primitive stands below the root class. -/
def rootView (name target : String) : Option Ty :=
  if target = Name.object && !Name.isPrimitive name then some (.plain Name.object) else none

theorem eq_plain_of_rootView (hroot : rootView name target = some viewed) :
    viewed = .plain Name.object := by
  rw [rootView] at hroot
  split at hroot
  · exact (Option.some.inj hroot).symm
  · exact absurd hroot (by simp)

/-- A step of a climb from a class. -/
theorem climb_named : h.climb (steps + 1) (.named name args) target =
    if name = target then some (.named name args)
    else ((h.supertypes name args).findSome? (h.climb steps · target)).or
      (rootView name target) := by
  rw [climb, supertypes, declaredSupers, arguments, List.findSome?_map]
  cases h.classInfo? name <;> rfl

/-- **The search for a class from a type ends with the answer.** -/
inductive Finds (h : Hierarchy) : Ty → String → Option Ty → Prop
  | bound {name target : String} {upper lower : Option Ty} {answer : Option Ty} :
    Finds h (upper.getD (.plain Name.object)) target answer →
    Finds h (.var name upper lower) target answer
  | here {name : String} {args : List Ty} :
    Finds h (.named name args) name (some (.named name args))
  | above {name target : String} {args before after : List Ty} {sup viewed : Ty} :
    name ≠ target → h.supertypes name args = before ++ sup :: after →
    (∀ ty ∈ before, Finds h ty target none) → Finds h sup target (some viewed) →
    Finds h (.named name args) target (some viewed)
  | root {name target : String} {args : List Ty} :
    name ≠ target → (∀ ty ∈ h.supertypes name args, Finds h ty target none) →
    Finds h (.named name args) target (rootView name target)

/-! ## Paths between classes -/

/-- The classes of the supertypes that a class declares. -/
def superNames (h : Hierarchy) (name : String) : List String :=
  (h.declaredSupers name).filterMap Ty.name?

/-- One class is above another along the path of classes that leads there. -/
inductive Inherits (h : Hierarchy) : String → List String → String → Prop
  | self {name : String} : Inherits h name [] name
  | step {name sup above : String} {path : List String} : sup ∈ h.superNames name →
    Inherits h sup path above → Inherits h name (sup :: path) above

theorem Inherits.trans {below middle above : String} {path path' : List String}
    (hpath : h.Inherits below path middle) (hpath' : h.Inherits middle path' above) :
    h.Inherits below (path ++ path') above := by
  induction hpath with
  | self => exact hpath'
  | step hsup _ ih => exact .step hsup (ih hpath')

/-- Every class on a path is above its start. -/
theorem Inherits.exists_of_mem {above other : String} {path : List String}
    (hpath : h.Inherits name path above) (hmem : other ∈ name :: path) :
    ∃ path', h.Inherits name path' other := by
  induction hpath with
  | self =>
    obtain rfl := List.mem_singleton.1 hmem
    exact ⟨[], .self⟩
  | step hsup _ ih =>
    rcases List.mem_cons.1 hmem with rfl | hmem
    · exact ⟨[], .self⟩
    · obtain ⟨path', hpath'⟩ := ih hmem
      exact ⟨_, .step hsup hpath'⟩

/-- Declared supertypes are classes, with type arguments or without. -/
def HasClassSupers (h : Hierarchy) : Prop :=
  ∀ name, ∀ sup ∈ h.declaredSupers name, ∃ other args, sup = .named other args

/-- No class inherits from itself. -/
def IsAcyclic (h : Hierarchy) : Prop :=
  ∀ name path, h.Inherits name path name → path = []

theorem mem_superNames_of_mem_supertypes (hclass : h.HasClassSupers)
    (hty : ty ∈ h.supertypes name args) : ty.head ∈ h.superNames name := by
  obtain ⟨sup, hsup, rfl⟩ := List.mem_map.1 hty
  obtain ⟨other, args', rfl⟩ := hclass name sup hsup
  exact List.mem_filterMap.2 ⟨_, hsup, rfl⟩

theorem exists_named_of_mem_supertypes (hclass : h.HasClassSupers)
    (hty : ty ∈ h.supertypes name args) : ∃ other args', ty = .named other args' := by
  obtain ⟨sup, hsup, rfl⟩ := List.mem_map.1 hty
  obtain ⟨other, args', rfl⟩ := hclass name sup hsup
  exact ⟨other, _, rfl⟩

theorem exists_mem_supertypes {other : String} (hother : other ∈ h.superNames name)
    (args : List Ty) : ∃ ty ∈ h.supertypes name args, ty.head = other := by
  obtain ⟨sup, hsup, hname⟩ := List.mem_filterMap.1 hother
  refine ⟨_, List.mem_map.2 ⟨sup, hsup, rfl⟩, ?_⟩
  cases sup with
  | named other' args' => exact Option.some.inj hname
  | var => exact absurd hname nofun

theorem exists_mem_classes_of_mem_declaredSupers {sup : Ty} (hsup : sup ∈ h.declaredSupers name) :
    ∃ info, (name, info) ∈ h.classes ∧ sup ∈ info.supers := by
  rw [declaredSupers] at hsup
  cases hinfo : h.classInfo? name with
  | none => exact absurd hsup (by simp [hinfo])
  | some info =>
    obtain ⟨before, after, hsplit, -⟩ := List.lookup_eq_some_iff.1 hinfo
    rw [hinfo] at hsup
    exact ⟨info, by simp [hsplit], hsup⟩

/-- Only declared classes inherit. -/
theorem mem_classes_of_mem_superNames {other : String} (hother : other ∈ h.superNames name) :
    name ∈ h.classes.map Prod.fst := by
  obtain ⟨sup, hsup, -⟩ := List.mem_filterMap.1 hother
  obtain ⟨info, hinfo, -⟩ := exists_mem_classes_of_mem_declaredSupers hsup
  exact List.mem_map.2 ⟨_, hinfo, rfl⟩

/-- Classes do not recur along a path. -/
theorem Inherits.nodup (hacyclic : h.IsAcyclic) {above : String} {path : List String}
    (hpath : h.Inherits name path above) : (name :: path).Nodup := by
  induction hpath with
  | self => exact List.nodup_cons.2 ⟨List.not_mem_nil, List.nodup_nil⟩
  | step hsup hrest ih =>
    refine List.nodup_cons.2 ⟨fun hmem => ?_, ih⟩
    obtain ⟨path', hback⟩ := hrest.exists_of_mem hmem
    exact absurd (hacyclic _ _ (.step hsup hback)) (List.cons_ne_nil _ _)

theorem Inherits.dropLast_subset {above : String} {path : List String}
    (hpath : h.Inherits name path above) :
    (name :: path).dropLast ⊆ h.classes.map Prod.fst := by
  induction hpath with
  | self => exact List.nil_subset _
  | step hsup _ ih => exact List.cons_subset.2 ⟨mem_classes_of_mem_superNames hsup, ih⟩

/-- **There are no longer paths than there are classes.** -/
theorem Inherits.length_le (hacyclic : h.IsAcyclic) {above : String} {path : List String}
    (hpath : h.Inherits name path above) : path.length ≤ h.classes.length := by
  have hnodup : (name :: path).dropLast.Nodup :=
    (hpath.nodup hacyclic).sublist (List.dropLast_sublist _)
  simpa using hnodup.length_le_of_subset hpath.dropLast_subset

/-! ## Enough steps -/

/-- The steps suffice for every climb from the type. -/
inductive Fits (h : Hierarchy) : Nat → Ty → Prop
  | var {name : String} {upper lower : Option Ty} {steps : Nat} :
    Fits h steps (upper.getD (.plain Name.object)) → Fits h (steps + 1) (.var name upper lower)
  | named {name : String} {args : List Ty} {steps : Nat} :
    (∀ path above, h.Inherits name path above → path.length < steps) →
    Fits h steps (.named name args)

/-- Every climb takes a step. -/
theorem Fits.exists_succ (hfits : h.Fits steps ty) : ∃ n, steps = n + 1 := by
  cases hfits with
  | var _ => exact ⟨_, rfl⟩
  | named hpaths => exact Nat.exists_eq_add_one.2 (hpaths [] _ .self)

/-- How many steps suffice is a matter of the class. -/
theorem Fits.named_congr (hfits : h.Fits steps (.named name args)) (args' : List Ty) :
    h.Fits steps (.named name args') := by
  cases hfits with
  | named hpaths => exact .named hpaths

theorem Fits.of_mem_supertypes (hclass : h.HasClassSupers)
    (hfits : h.Fits (steps + 1) (.named name args)) (hty : ty ∈ h.supertypes name args) :
    h.Fits steps ty := by
  have hsup := mem_superNames_of_mem_supertypes hclass hty
  obtain ⟨other, args', rfl⟩ := exists_named_of_mem_supertypes hclass hty
  cases hfits with
  | named hpaths =>
    refine .named fun path above hpath => ?_
    exact Nat.lt_of_succ_lt_succ (hpaths _ _ (.step hsup hpath))

theorem fits_of_mentions_lt (hacyclic : h.IsAcyclic) (ty : Ty) {steps : Nat}
    (hsteps : mentions ty + h.classes.length < steps) : h.Fits steps ty := by
  have hnamed {name : String} {args : List Ty} {steps : Nat} (hlt : h.classes.length < steps) :
      h.Fits steps (.named name args) :=
    .named fun path above hpath => Nat.lt_of_le_of_lt (hpath.length_le hacyclic) hlt
  match ty with
  | .named name args => exact hnamed (by omega)
  | .var name upper lower =>
    rw [mentions] at hsteps
    obtain ⟨steps, rfl⟩ : ∃ n, steps = n + 1 := ⟨steps - 1, by omega⟩
    match upper with
    | some upper =>
      rw [boundMentions] at hsteps
      exact .var (fits_of_mentions_lt hacyclic upper (by omega))
    | none => exact .var (hnamed (by omega))

theorem fits_stepBound (hacyclic : h.IsAcyclic) (ty : Ty) : h.Fits (h.stepBound ty) ty := by
  refine fits_of_mentions_lt hacyclic ty ?_
  have hpow : h.classes.length + 2 < Nat.pow (h.declaredMentions + 2) (h.classes.length + 2) :=
    Nat.lt_pow_self (by omega)
  have hmul := Nat.mul_le_mul_left (mentions ty + 2) (Nat.le_of_lt hpow)
  rw [stepBound]
  refine Nat.lt_of_lt_of_le ?_ hmul
  rw [Nat.add_mul, Nat.mul_add]
  omega

/-! ## The climb is the search -/

/-- With enough steps the climb gives an answer that the search ends with. -/
theorem finds_climb (hclass : h.HasClassSupers) (target : String) (hfits : h.Fits steps ty) :
    h.Finds ty target (h.climb steps ty target) := by
  induction steps generalizing ty with
  | zero => exact absurd hfits.exists_succ (by simp)
  | succ steps ih =>
    cases ty with
    | var name upper lower =>
      cases hfits with
      | var hfits => exact .bound (ih hfits)
    | named name args =>
      have hsupers : ∀ ty ∈ h.supertypes name args, h.Finds ty target (h.climb steps ty target) :=
        fun ty hty => ih (hfits.of_mem_supertypes hclass hty)
      rw [climb_named]
      split
      · rename_i hname
        subst hname
        exact .here
      · rename_i hname
        cases hfound : (h.supertypes name args).findSome? (h.climb steps · target) with
        | some viewed =>
          obtain ⟨before, sup, after, hsplit, hsup, hbefore⟩ := List.findSome?_eq_some_iff.1 hfound
          rw [hsplit, List.forall_mem_append, List.forall_mem_cons] at hsupers
          refine .above hname hsplit (fun ty hty => ?_) (hsup ▸ hsupers.2.1)
          exact hbefore ty hty ▸ hsupers.1 ty hty
        | none =>
          refine .root hname fun ty hty => ?_
          exact List.findSome?_eq_none_iff.1 hfound ty hty ▸ hsupers ty hty

/-- What the search ends with is the answer of a climb with enough steps. -/
theorem climb_eq_of_finds (hclass : h.HasClassSupers) (hfinds : h.Finds ty target answer)
    (hfits : h.Fits steps ty) : h.climb steps ty target = answer := by
  induction hfinds generalizing steps with
  | bound _ ih =>
    cases hfits with
    | var hfits => exact ih hfits
  | here =>
    obtain ⟨steps, rfl⟩ := hfits.exists_succ
    rw [climb_named, if_pos rfl]
  | @above name target args before after sup viewed hname hsplit _ _ ihbefore ih =>
    obtain ⟨steps, rfl⟩ := hfits.exists_succ
    have hsupers : ∀ ty ∈ h.supertypes name args, h.Fits steps ty :=
      fun ty hty => hfits.of_mem_supertypes hclass hty
    rw [hsplit, List.forall_mem_append, List.forall_mem_cons] at hsupers
    have hfound : (h.supertypes name args).findSome? (h.climb steps · target) = some viewed :=
      List.findSome?_eq_some_iff.2 ⟨before, sup, after, hsplit, ih hsupers.2.1,
        fun ty hty => ihbefore ty hty (hsupers.1 ty hty)⟩
    rw [climb_named, if_neg hname, hfound, Option.some_or]
  | @root name target args hname _ ih =>
    obtain ⟨steps, rfl⟩ := hfits.exists_succ
    have hnone : (h.supertypes name args).findSome? (h.climb steps · target) = none :=
      List.findSome?_eq_none_iff.2 fun ty hty => ih ty hty (hfits.of_mem_supertypes hclass hty)
    rw [climb_named, if_neg hname, hnone, Option.none_or]

/-- **The search ends for every type and every class**, with the answer that the
hierarchy gives. -/
theorem finds_iff (hclass : h.HasClassSupers) (hacyclic : h.IsAcyclic) :
    h.Finds ty target answer ↔ h.asSuper ty target = answer := by
  constructor
  · exact fun hfinds => climb_eq_of_finds hclass hfinds (fits_stepBound hacyclic ty)
  · rintro rfl
    exact finds_climb hclass target (fits_stepBound hacyclic ty)

/-- Which steps are counted does not matter, so long as they suffice. -/
theorem asSuper_eq_climb (hclass : h.HasClassSupers) (hacyclic : h.IsAcyclic)
    (hfits : h.Fits steps ty) : h.asSuper ty target = h.climb steps ty target :=
  (finds_iff hclass hacyclic).1 (finds_climb hclass target hfits)

/-! ## Where the search succeeds -/

/-- The search for a class ends at this one: it is the class, or any but a primitive
where the root class is looked for. -/
def EndsAt (target above : String) : Prop :=
  above = target ∨ target = Name.object ∧ Name.isPrimitive above = false

theorem isSome_rootView_iff (hname : name ≠ target) :
    (rootView name target).isSome = true ↔ EndsAt target name := by
  rw [rootView, EndsAt, or_iff_right hname]
  by_cases htarget : target = Name.object <;> cases Name.isPrimitive name <;> simp [htarget]

/-- **The search succeeds where a path leads to the end of it**, whatever the type
arguments are. -/
theorem isSome_iff_of_finds (hclass : h.HasClassSupers) (hfinds : h.Finds ty target answer) :
    answer.isSome = true ↔
      ∃ path above, h.Inherits ty.head path above ∧ EndsAt target above := by
  induction hfinds with
  | @bound name target upper lower answer _ ih =>
    cases upper <;> exact ih
  | here => exact iff_of_true rfl ⟨[], _, .self, .inl rfl⟩
  | @above name target args before after sup viewed hname hsplit _ _ _ ih =>
    obtain ⟨path, above, hpath, hends⟩ := ih.1 rfl
    have hsup : sup ∈ h.supertypes name args := hsplit ▸ List.mem_append_right _ List.mem_cons_self
    exact iff_of_true rfl
      ⟨_, above, .step (mem_superNames_of_mem_supertypes hclass hsup) hpath, hends⟩
  | @root name target args hname _ ih =>
    rw [isSome_rootView_iff hname]
    refine ⟨fun hends => ⟨[], name, .self, hends⟩, ?_⟩
    rintro ⟨path, above, hpath, hends⟩
    cases hpath with
    | self => exact hends
    | step hsup hpath =>
      obtain ⟨ty, hty, rfl⟩ := exists_mem_supertypes hsup args
      exact absurd ((ih ty hty).2 ⟨_, above, hpath, hends⟩) (by simp)

end Hierarchy

end Codemod
