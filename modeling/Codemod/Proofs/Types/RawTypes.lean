import Codemod.Proofs.Dict
import Codemod.Proofs.Types.Ascent
import Mathlib.Data.List.Forall2
/-!
# What stands above a class without arguments

A class that has type parameters may be used without arguments. Its supertypes then
mention the parameters, where those of an instance mention the arguments
(`Ty.Generalizes`). So a climb from the class takes the same way as a climb from an
instance, and what it comes to covers what the other comes to
(`Hierarchy.covers_asSuper`). If it mentions no variables, both come to the same.
-/

namespace Codemod

namespace Ty

mutual

/-- The second type is the first with other types in place of variables. -/
def Generalizes : Ty → Ty → Prop
  | .var .., _ => True
  | .named a as, .named b bs => a = b ∧ AllGeneralize as bs
  | .named .., .var .. => False

/-- There are as many types, and each generalizes the other at its place. -/
def AllGeneralize : List Ty → List Ty → Prop
  | [], [] => True
  | a :: as, b :: bs => Generalizes a b ∧ AllGeneralize as bs
  | _, _ => False

end

mutual

/-- Without variables there is nothing to replace. -/
theorem eq_of_generalizes {a b : Ty} (hab : a.Generalizes b) (ha : a.mentionsVar = false) :
    a = b := by
  match a, b with
  | .var .., _ => exact absurd ha (by simp [mentionsVar])
  | .named _ as, .named _ bs =>
    rw [Generalizes] at hab
    rw [hab.1, eq_of_allGeneralize hab.2 (by simpa only [mentionsVar] using ha)]
  | .named .., .var .. => exact absurd hab (by simp [Generalizes])

theorem eq_of_allGeneralize {as bs : List Ty} (hab : AllGeneralize as bs)
    (has : anyMentionsVar as = false) : as = bs := by
  match as, bs with
  | [], [] => rfl
  | a :: as, b :: bs =>
    rw [AllGeneralize] at hab
    rw [anyMentionsVar, Bool.or_eq_false_iff] at has
    rw [eq_of_generalizes hab.1 has.1, eq_of_allGeneralize hab.2 has.2]
  | [], _ :: _ => exact absurd hab (by simp [AllGeneralize])
  | _ :: _, [] => exact absurd hab (by simp [AllGeneralize])

end

/-- What the first says a variable stands for generalizes what the second says. -/
def DictGeneralizes (types types' : Dict Ty) : Prop :=
  ∀ name ty, types.get? name = some ty →
    ∃ ty', types'.get? name = some ty' ∧ ty.Generalizes ty'

mutual

theorem generalizes_substitute {types types' : Dict Ty} (htypes : DictGeneralizes types types')
    (ty : Ty) : (ty.substitute types).Generalizes (ty.substitute types') := by
  match ty with
  | .named name args =>
    rw [substitute, substitute, Generalizes]
    exact ⟨rfl, allGeneralize_substituteAll htypes args⟩
  | .var name upper lower =>
    rw [substitute, substitute]
    cases hname : types.get? name with
    | none => trivial
    | some ty =>
      obtain ⟨ty', hname', hgeneral⟩ := htypes name ty hname
      rwa [hname']

theorem allGeneralize_substituteAll {types types' : Dict Ty}
    (htypes : DictGeneralizes types types') (tys : List Ty) :
    AllGeneralize (substituteAll types tys) (substituteAll types' tys) := by
  match tys with
  | [] => trivial
  | ty :: rest => exact ⟨generalizes_substitute htypes ty, allGeneralize_substituteAll htypes rest⟩

end

/-- The first type is the class of the second without arguments, or with arguments that
generalize those of the second. -/
inductive Covers : Ty → Ty → Prop
  | raw {name : String} {args : List Ty} : Covers (.named name []) (.named name args)
  | args {name : String} {args args' : List Ty} : AllGeneralize args args' →
    Covers (.named name args) (.named name args')

/-- Without variables, arguments are covered by themselves only. -/
theorem Covers.eq_of_mentionsVar {name : String} {args : List Ty} {ty : Ty}
    (hcovers : (Ty.named name args).Covers ty) (hargs : args ≠ [])
    (hclosed : (Ty.named name args).mentionsVar = false) : ty = .named name args := by
  cases hcovers with
  | raw => exact absurd rfl hargs
  | args hgeneral => rw [eq_of_allGeneralize hgeneral (by simpa only [mentionsVar] using hclosed)]

theorem forall₂_zip_of_allGeneralize {as bs : List Ty} (hab : AllGeneralize as bs)
    (params : List String) :
    List.Forall₂ (fun a b : String × Ty => a.1 = b.1 ∧ a.2.Generalizes b.2) (params.zip as)
      (params.zip bs) := by
  induction params generalizing as bs with
  | nil => exact .nil
  | cons param params ih =>
    match as, bs with
    | [], [] => exact .nil
    | a :: as, b :: bs => exact .cons ⟨rfl, hab.1⟩ (ih hab.2)
    | [], _ :: _ => exact absurd hab (by simp [AllGeneralize])
    | _ :: _, [] => exact absurd hab (by simp [AllGeneralize])

end Ty

/-- Dictionaries made of related entries have related values under one key. -/
theorem Dict.rel_get?_ofList {α β : Type} {r : α → β → Prop} {l : List (String × α)}
    {l' : List (String × β)} (h : List.Forall₂ (fun e e' => e.1 = e'.1 ∧ r e.2 e'.2) l l')
    (key : String) : Option.Rel r ((ofList l).get? key) ((ofList l').get? key) := by
  have hfold (d : Dict α) (d' : Dict β) (hd : Option.Rel r (d.get? key) (d'.get? key)) :
      Option.Rel r ((l.foldl (fun d e => d.insert e.1 e.2) d).get? key)
        ((l'.foldl (fun d e => d.insert e.1 e.2) d').get? key) := by
    induction h generalizing d d' with
    | nil => exact hd
    | cons hentry _ ih =>
      refine ih _ _ ?_
      rw [get?_insert, get?_insert, hentry.1]
      split
      · exact .some hentry.2
      · exact hd
  exact hfold _ _ .none

namespace Hierarchy

variable {h : Hierarchy} {name target : String} {args args' : List Ty} {ty ty' viewed : Ty}
  {steps : Nat}

open Ty

/-- The parameters of a class stand for less where it covers an instance. -/
theorem dictGeneralizes_arguments (hcovers : (Ty.named name args).Covers (.named name args')) :
    DictGeneralizes (h.arguments name args) (h.arguments name args') := by
  intro param ty hparam
  cases hcovers with
  | raw => exact absurd hparam (by simp [arguments, Dict.ofList, Dict.get?, Dict.empty])
  | args hargs =>
    have hrel := Dict.rel_get?_ofList (forall₂_zip_of_allGeneralize hargs
      (((h.classInfo? name).map (·.params)).getD [])) param
    rw [arguments] at hparam
    rw [hparam] at hrel
    generalize hparam' : (Dict.ofList _).get? param = found at hrel
    cases hrel with
    | some hgeneral => exact ⟨_, hparam', hgeneral⟩

/-- **The supertypes of a class cover those of an instance of it**, one by one. -/
theorem forall₂_covers_supertypes (hclass : h.HasClassSupers)
    (hcovers : (Ty.named name args).Covers (.named name args')) :
    List.Forall₂ Covers (h.supertypes name args) (h.supertypes name args') := by
  refine List.forall₂_map_left_iff.2 (List.forall₂_map_right_iff.2 (List.forall₂_same.2 ?_))
  intro sup hsup
  obtain ⟨other, params, rfl⟩ := hclass name sup hsup
  exact .args (allGeneralize_substituteAll (dictGeneralizes_arguments hcovers) params)

/-- The first results at related elements are related. -/
theorem rel_findSome? {α β : Type} {r : α → α → Prop} {s : β → β → Prop} {f : α → Option β}
    {as bs : List α} (hlists : List.Forall₂ r as bs)
    (hf : ∀ a b, r a b → Option.Rel s (f a) (f b)) :
    Option.Rel s (as.findSome? f) (bs.findSome? f) := by
  induction hlists with
  | nil => exact .none
  | @cons a b as bs hab _ ih =>
    have hfirst := hf a b hab
    rw [List.findSome?_cons, List.findSome?_cons]
    generalize f a = x at hfirst
    generalize f b = y at hfirst
    cases hfirst with
    | none => exact ih
    | some hs => exact .some hs

/-- **A climb from a class takes the way of a climb from an instance.** -/
theorem covers_climb (hclass : h.HasClassSupers) (hcovers : ty.Covers ty') :
    Option.Rel Covers (h.climb steps ty target) (h.climb steps ty' target) := by
  induction steps generalizing ty ty' with
  | zero => exact .none
  | succ steps ih =>
    obtain ⟨name, args, args', rfl, rfl⟩ :
        ∃ name args args', ty = .named name args ∧ ty' = .named name args' := by
      cases hcovers <;> exact ⟨_, _, _, rfl, rfl⟩
    rw [climb_named, climb_named]
    split
    · exact .some hcovers
    · have hsupers := rel_findSome? (forall₂_covers_supertypes hclass hcovers)
        fun a b hab => @ih a b hab
      generalize (h.supertypes name args).findSome? (h.climb steps · target) = found at hsupers
      generalize (h.supertypes name args').findSome? (h.climb steps · target) = found' at hsupers
      cases hsupers with
      | some hviewed => exact .some hviewed
      | none =>
        rw [rootView]
        split
        · exact .some .raw
        · exact .none

/-- **What is seen from a class covers what is seen from an instance of it.** -/
theorem covers_asSuper (hclass : h.HasClassSupers) (hacyclic : h.IsAcyclic)
    (hviewed : h.asSuper (.named name []) target = some viewed) (args : List Ty) :
    ∃ viewed', h.asSuper (.named name args) target = some viewed' ∧ viewed.Covers viewed' := by
  have hfits := fits_stepBound hacyclic (.named name [])
  rw [asSuper_eq_climb hclass hacyclic (hfits.named_congr args)]
  have hrel := @covers_climb h target _ _ (h.stepBound (.named name [])) hclass
    (.raw : (Ty.named name []).Covers (.named name args))
  rw [asSuper] at hviewed
  rw [hviewed] at hrel
  generalize h.climb _ (.named name args) target = found at hrel
  cases hrel with
  | some hcovers => exact ⟨_, rfl, hcovers⟩

end Hierarchy

end Codemod
