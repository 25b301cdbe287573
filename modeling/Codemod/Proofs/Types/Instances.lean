import Codemod.Proofs.Types.Renaming
import Mathlib.Data.List.Basic
/-!
# Inference on instances

A declared type in which every variable stands for a type within its bounds is
accepted where the declared type is asked for, and inference finds what the
variables stand for (`TypeOracle.exists_assign?_substitute`). It has to meet the
variables in order, though: a bound is checked when its variable is first met,
and it can only be checked then if it mentions no variable that comes later.
-/

namespace Codemod

namespace Dict

variable {α : Type}

/-- A dictionary may hold whatever is asked for under some keys. -/
theorem exists_get?_eq (f : String → Option α) (keys : List String) :
    ∃ d : Dict α, (∀ key ∈ keys, d.get? key = f key) ∧ ∀ key ∉ keys, d.get? key = none := by
  induction keys with
  | nil => exact ⟨∅, nofun, fun _ _ => rfl⟩
  | cons first rest ih =>
    obtain ⟨d, hrest, hother⟩ := ih
    cases hfirst : f first with
    | some value =>
      refine ⟨d.insert first value, fun key hkey => ?_, fun key hkey => ?_⟩
      · rw [get?_insert]
        split_ifs with heq
        · rw [heq, hfirst]
        · exact hrest key ((List.mem_cons.1 hkey).resolve_left heq)
      · obtain ⟨hne, hkey⟩ := not_or.1 fun h => hkey (List.mem_cons.2 h)
        rw [get?_insert, if_neg hne]
        exact hother key hkey
    | none =>
      refine ⟨d, fun key hkey => ?_, fun key hkey => hother key fun h => hkey (.tail _ h)⟩
      by_cases hmem : key ∈ rest
      · exact hrest key hmem
      · rw [hother key hmem, ← hfirst, (List.mem_cons.1 hkey).resolve_right hmem]

theorem ExtendedBy.get?_eq {d e : Dict α} (h : d.ExtendedBy e) {key : String}
    (hkey : ∃ value, d.get? key = some value) : d.get? key = e.get? key := by
  obtain ⟨value, hvalue⟩ := hkey
  rw [hvalue, h key value hvalue]

end Dict

namespace TypeVar

/-- The variables that the bounds mention. -/
def boundVars (v : TypeVar) : List TypeVar := (v.upper.toList ++ v.lower.toList).flatMap Ty.vars

theorem mem_boundVars {v w : TypeVar} : w ∈ v.boundVars ↔
    (∃ upper, v.upper = some upper ∧ w ∈ upper.vars) ∨
      ∃ lower, v.lower = some lower ∧ w ∈ lower.vars := by
  simp [boundVars]

/-- The bounds mention only variables that are known, or come before. -/
def BoundsInOrder (known : List String) : List TypeVar → Prop
  | [] => True
  | v :: rest => (∀ w ∈ v.boundVars, w.name ∈ known) ∧ BoundsInOrder (v.name :: known) rest

theorem boundsInOrder_append {known : List String} {vars vars' : List TypeVar} :
    BoundsInOrder known (vars ++ vars') ↔ BoundsInOrder known vars ∧
      BoundsInOrder ((vars.map (·.name)).reverse ++ known) vars' := by
  induction vars generalizing known with
  | nil => simp [BoundsInOrder]
  | cons v rest ih => simp [BoundsInOrder, ih, and_assoc]

theorem BoundsInOrder.exists_name_eq {known : List String} {vars : List TypeVar}
    (h : BoundsInOrder known vars) {v : TypeVar} (hv : v ∈ vars) {w : TypeVar}
    (hw : w ∈ v.boundVars) : w.name ∈ known ∨ ∃ u ∈ vars, u.name = w.name := by
  induction vars generalizing known with
  | nil => exact absurd hv List.not_mem_nil
  | cons first rest ih =>
    obtain ⟨hfirst, hrest⟩ := h
    rcases List.mem_cons.1 hv with rfl | hv
    · exact .inl (hfirst w hw)
    · rcases ih hrest hv with hknown | ⟨u, hu, hname⟩
      · rcases List.mem_cons.1 hknown with hname | hknown
        · exact .inr ⟨first, List.mem_cons_self, hname.symm⟩
        · exact .inl hknown
      · exact .inr ⟨u, List.mem_cons_of_mem _ hu, hname⟩

/-- The variable stands for the type, which lies within its bounds. -/
structure StandsFor (o : TypeOracle) (types : Dict Ty) (v : TypeVar) (ty : Ty) : Prop where
  get?_eq : types.get? v.name = some ty
  upper : ∀ upper, v.upper = some upper → o.isConvertible ty (upper.substitute types) = true
  lower : ∀ lower, v.lower = some lower → o.isSubtype (lower.substitute types) ty = true

/-- The bounds stand for types themselves, a missing upper one for the root type. -/
structure StandsWithin (o : TypeOracle) (types : Dict Ty) (v : TypeVar) (ty : Ty) : Prop
    extends StandsFor o types v ty where
  known : ∀ w ∈ v.boundVars, ∃ ty, types.get? w.name = some ty
  root : v.upper = none → o.isConvertible ty (.plain Name.object) = true

section

variable {r : String → String} {o : TypeOracle} {types types' : Dict Ty} {v w : TypeVar} {ty : Ty}

theorem Corresponds.exists_boundVar (h : v.Corresponds r w) (hroots : v.RootBoundsAlike w)
    {u : TypeVar} (hu : u ∈ v.boundVars) : ∃ u' ∈ w.boundVars, r u.name = u'.name := by
  rcases mem_boundVars.1 hu with ⟨upper, hupper, hu⟩ | ⟨lower, hlower, hu⟩
  · obtain ⟨upper', hupper', u', hu', hcorresponds⟩ := Ty.exists_corresponding_bound
      (hupper ▸ h.upper) (hupper ▸ h.upperNames) (hroots.upper upper (.inl hupper)) hu
    exact ⟨u', mem_boundVars.2 (.inl ⟨upper', hupper', hu'⟩), hcorresponds.name⟩
  · obtain ⟨lower', hlower', u', hu', hcorresponds⟩ := Ty.exists_corresponding_bound
      (hlower ▸ h.lower) (hlower ▸ h.lowerNames) (hroots.lower lower hlower).2 hu
    exact ⟨u', mem_boundVars.2 (.inr ⟨lower', hlower', hu'⟩), hcorresponds.name⟩

/-- **A type within the bounds of a variable is within those of the corresponding
one.** -/
theorem StandsWithin.of_corresponds (hw : w.StandsWithin o types ty) (h : v.Corresponds r w)
    (hroots : v.RootBoundsAlike w) (hself : types'.get? v.name = types.get? (r v.name))
    (hbounds : ∀ u ∈ v.boundVars, types'.get? u.name = types.get? (r u.name)) :
    v.StandsWithin o types' ty := by
  have hsame : ∀ u ∈ v.boundVars,
      ∃ ty, types'.get? u.name = some ty ∧ types.get? (r u.name) = some ty := by
    intro u hu
    obtain ⟨u', hu', hname⟩ := h.exists_boundVar hroots hu
    obtain ⟨ty, hty⟩ := hw.known u' hu'
    rw [hbounds u hu, hname]
    exact ⟨ty, hty, hty⟩
  refine ⟨⟨?_, fun upper hupper => ?_, fun lower hlower => ?_⟩, fun u hu => ?_, fun hnone => ?_⟩
  · rw [hself, h.name, hw.get?_eq]
  · cases hupper' : w.upper with
    | none =>
      -- The other variable has no upper bound, so this one is the root type.
      have hobject := h.upper
      rw [hupper, hupper'] at hobject
      obtain rfl := hroots.upper upper (.inl hupper) hobject
      exact hw.root hupper'
    | some upper' =>
      have hnames := h.upperNames
      have hequivalent := h.upper
      rw [hupper, hupper'] at hnames hequivalent
      rw [Ty.substitute_bound_eq hequivalent hnames (hroots.upper upper (.inl hupper))
        fun u hu => hsame u (mem_boundVars.2 (.inl ⟨upper, hupper, hu⟩))]
      exact hw.upper upper' hupper'
  · obtain ⟨hsome, hroot⟩ := hroots.lower lower hlower
    obtain ⟨lower', hlower'⟩ := Option.ne_none_iff_exists'.1 hsome
    have hnames := h.lowerNames
    have hequivalent := h.lower
    rw [hlower, hlower'] at hnames hequivalent
    rw [Ty.substitute_bound_eq hequivalent hnames hroot
      fun u hu => hsame u (mem_boundVars.2 (.inr ⟨lower, hlower, hu⟩))]
    exact hw.lower lower' hlower'
  · obtain ⟨ty, hty, -⟩ := hsame u hu
    exact ⟨ty, hty⟩
  · cases hupper' : w.upper with
    | none => exact hw.root hupper'
    | some upper' =>
      have hobject := h.upper
      rw [hnone, hupper'] at hobject
      obtain rfl := hroots.upper upper' (.inr hupper') hobject
      exact hw.upper _ hupper'

end

end TypeVar

namespace TypeOracle

variable {o : TypeOracle} {final : Dict Ty}

/-- The oracle knows that a class is itself. -/
structure IsReflexive (o : TypeOracle) : Prop where
  asSuper_self : ∀ name args, o.asSuper (.named name args) name = some (.named name args)
  isConvertible_self : ∀ name, o.isConvertible (.plain name) (.plain name) = true

/-- Inference goes on to types that are part of the final ones, and that hold
the variables it met. -/
structure Approaches (final before after : Dict Ty) (vars : List TypeVar) : Prop where
  within : after.ExtendedBy final
  keeps : before.ExtendedBy after
  met : ∀ v ∈ vars, ∃ ty, after.get? v.name = some ty

/-- A variable that stands for a type is met with it. -/
theorem exists_bindVar? (fit : Fit) {v : TypeVar} {ty : Ty} {types : Dict Ty}
    (hv : v.StandsFor o final ty) (hwithin : types.ExtendedBy final)
    (hbounds : ∀ w ∈ v.boundVars, ∃ ty, types.get? w.name = some ty) :
    ∃ types', o.bindVar? fit v ty types = some types' ∧ Approaches final types types' [v] := by
  unfold bindVar?
  cases hknown : types.get? v.name with
  | some bound =>
    obtain rfl : bound = ty := Option.some.inj ((hwithin _ _ hknown).symm.trans hv.get?_eq)
    refine ⟨types, by simp [Ty.equivalent_refl], hwithin, .refl _, ?_⟩
    exact List.forall_mem_singleton.2 ⟨bound, hknown⟩
  | none =>
    -- The bounds mention known variables only, so they are as they are in the end.
    have hbound {bound : Ty} (h : ∀ w ∈ bound.vars, w ∈ v.boundVars) :
        bound.substitute types = bound.substitute final :=
      Ty.substitute_congr fun w hw => hwithin.get?_eq (hbounds w (h w hw))
    refine ⟨types.insert v.name ty, ?_, ?_, Dict.extendedBy_insert ty hknown, ?_⟩
    · dsimp only
      rw [if_pos]
      rw [Bool.and_eq_true]
      constructor
      · split
        · rename_i upper hupper
          rw [hbound fun w hw => TypeVar.mem_boundVars.2 (.inl ⟨upper, hupper, hw⟩)]
          exact hv.upper upper hupper
        · rfl
      · split
        · rename_i lower hlower
          rw [hbound fun w hw => TypeVar.mem_boundVars.2 (.inr ⟨lower, hlower, hw⟩)]
          exact hv.lower lower hlower
        · rfl
    · intro name bound hget
      rw [Dict.get?_insert] at hget
      split_ifs at hget with heq
      · rw [heq, ← Option.some.inj hget]
        exact hv.get?_eq
      · exact hwithin name bound hget
    · refine List.forall_mem_singleton.2 ⟨ty, ?_⟩
      rw [Dict.get?_insert, if_pos rfl]

mutual

/-- **A declared type agrees with its instances.** -/
theorem exists_agree?_substitute (declared : Ty) {types : Dict Ty} {known : List String}
    (hvars : ∀ v ∈ declared.vars, ∃ ty, v.StandsFor o final ty)
    (hwithin : types.ExtendedBy final) (hknown : ∀ name ∈ known, ∃ ty, types.get? name = some ty)
    (horder : TypeVar.BoundsInOrder known declared.vars) :
    ∃ types', o.agree? declared (declared.substitute final) types = some types' ∧
      Approaches final types types' declared.vars := by
  match declared with
  | .var name upper lower =>
    obtain ⟨ty, hty⟩ := hvars ⟨name, upper, lower⟩ (List.mem_singleton_self _)
    rw [Ty.substitute, hty.get?_eq, Option.getD_some, agree?]
    exact exists_bindVar? .exact hty hwithin fun w hw => hknown _ (horder.1 w hw)
  | .named name args =>
    obtain ⟨types', hagree, happroaches⟩ :=
      exists_agreeAll?_substitute args hvars hwithin hknown horder
    exact ⟨types', by rw [Ty.substitute, agree?, if_pos rfl, hagree], happroaches⟩

theorem exists_agreeAll?_substitute (declared : List Ty) {types : Dict Ty} {known : List String}
    (hvars : ∀ v ∈ Ty.allVars declared, ∃ ty, v.StandsFor o final ty)
    (hwithin : types.ExtendedBy final) (hknown : ∀ name ∈ known, ∃ ty, types.get? name = some ty)
    (horder : TypeVar.BoundsInOrder known (Ty.allVars declared)) :
    ∃ types', o.agreeAll? declared (Ty.substituteAll final declared) types = some types' ∧
      Approaches final types types' (Ty.allVars declared) := by
  match declared with
  | [] => exact ⟨types, rfl, hwithin, .refl _, nofun⟩
  | ty :: rest =>
    obtain ⟨hfirst, hlater⟩ := TypeVar.boundsInOrder_append.1 horder
    obtain ⟨mid, hmid, hmidWithin, hmidKeeps, hmidMet⟩ := exists_agree?_substitute ty
      (fun v hv => hvars v (List.mem_append_left _ hv)) hwithin hknown hfirst
    have hmidKnown : ∀ name ∈ ((Ty.vars ty).map (·.name)).reverse ++ known,
        ∃ ty, mid.get? name = some ty := by
      intro name hname
      rcases List.mem_append.1 hname with hmet | hknown'
      · obtain ⟨v, hv, rfl⟩ := List.mem_map.1 (List.mem_reverse.1 hmet)
        exact hmidMet v hv
      · obtain ⟨ty, hty⟩ := hknown name hknown'
        exact ⟨ty, hmidKeeps _ _ hty⟩
    obtain ⟨types', htypes', hwithin', hkeeps', hmet'⟩ := exists_agreeAll?_substitute rest
      (fun v hv => hvars v (List.mem_append_right _ hv)) hmidWithin hmidKnown hlater
    refine ⟨types', ?_, hwithin', hmidKeeps.trans hkeeps', fun v hv => ?_⟩
    · rw [Ty.substituteAll, agreeAll?, hmid, Option.bind_some, htypes']
    · rcases List.mem_append.1 hv with hv | hv
      · obtain ⟨bound, hbound⟩ := hmidMet v hv
        exact ⟨bound, hkeeps' _ _ hbound⟩
      · exact hmet' v hv

end

/-- **An instance of a declared type is accepted**, and inference finds what its
variables stand for. -/
theorem exists_assign?_substitute (ho : o.IsReflexive) {declared : Ty}
    (hvars : ∀ v ∈ declared.vars, ∃ ty, v.StandsFor o final ty)
    (horder : TypeVar.BoundsInOrder [] declared.vars) :
    ∃ types, o.assign? declared (declared.substitute final) ∅ = some types ∧
      ∀ v ∈ declared.vars, types.get? v.name = final.get? v.name := by
  have hempty : (∅ : Dict Ty).ExtendedBy final := fun _ _ h => absurd h nofun
  have hfound {types : Dict Ty} (h : Approaches final ∅ types declared.vars) (v : TypeVar)
      (hv : v ∈ declared.vars) : types.get? v.name = final.get? v.name :=
    h.within.get?_eq (h.met v hv)
  cases declared with
  | var name upper lower =>
    obtain ⟨ty, hty⟩ := hvars ⟨name, upper, lower⟩ (List.mem_singleton_self _)
    obtain ⟨types, hbind, happroaches⟩ := exists_bindVar? .assignable hty hempty
      fun w hw => absurd (horder.1 w hw) List.not_mem_nil
    refine ⟨types, ?_, hfound happroaches⟩
    rw [Ty.substitute, hty.get?_eq, Option.getD_some, assign?]
    exact hbind
  | named name args =>
    cases args with
    | nil =>
      refine ⟨∅, ?_, fun v hv => absurd hv List.not_mem_nil⟩
      rw [Ty.substitute, Ty.substituteAll, assign?]
      exact if_pos (ho.isConvertible_self name)
    | cons arg args =>
      obtain ⟨types, hagree, happroaches⟩ := exists_agreeAll?_substitute (arg :: args)
        hvars hempty (fun _ h => absurd h List.not_mem_nil) horder
      refine ⟨types, ?_, hfound happroaches⟩
      rw [Ty.substitute, assign?, ho.asSuper_self, Option.bind_some]
      · exact hagree
      · simp

end TypeOracle

namespace Hierarchy

/-- Class hierarchies know that a class is itself. -/
theorem isReflexive_oracle (h : Hierarchy) : h.oracle.IsReflexive where
  asSuper_self _ _ := asSuper_self _ _
  isConvertible_self _ := isConvertible_refl _

end Hierarchy

end Codemod
