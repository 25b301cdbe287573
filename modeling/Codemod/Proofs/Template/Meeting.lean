import Codemod.Proofs.Template.Demands
import Codemod.Proofs.Types.Inference
/-!
# What meeting demands does to bindings

Meeting a demand only adds to the bindings (`meet?_keeps`): what a placeholder
is bound to stays, and only a use binds one, to the expression it is for
(`get?_of_meet?`). So after demands were met every placeholder that is used is
bound (`isSome_of_meetAll?`), and to an expression of one of its uses
(`get?_of_meetAll?`).
-/

namespace Codemod

namespace Bindings

@[simp] theorem get?_empty (name : String) : Bindings.empty.get? name = none := rfl

theorem get?_bindExpr (b : Bindings) (name other : String) (bound : Bound) :
    (b.bindExpr name bound).get? other = if other = name then some bound else b.get? other :=
  Dict.get?_insert b.exprs name other bound

/-- Locals do not touch expressions and types. -/
theorem of_bindLocal? {b b' : Bindings} {template code : String}
    (h : b.bindLocal? template code = some b') : b'.exprs = b.exprs ∧ b'.types = b.types := by
  unfold bindLocal? at h
  split at h
  · obtain ⟨-, hsame⟩ := Option.ite_none_right_eq_some.1 h
    obtain rfl := Option.some.inj hsame
    exact ⟨rfl, rfl⟩
  · split at h
    · exact absurd h (by simp)
    · obtain rfl := Option.some.inj h
      exact ⟨rfl, rfl⟩

/-- A local that may stand for another does so from then on, and the others
stand for what they did. -/
theorem locals_of_bindLocal? {b b' : Bindings} {template code : String}
    (h : b.bindLocal? template code = some b') :
    b.locals.ExtendedBy b'.locals ∧ b'.locals.get? template = some code := by
  unfold bindLocal? at h
  split at h
  · rename_i bound hbound
    obtain ⟨rfl, hsame⟩ := Option.ite_none_right_eq_some.1 h
    obtain rfl := Option.some.inj hsame
    exact ⟨.refl _, hbound⟩
  · rename_i hnew
    split at h
    · exact absurd h (by simp)
    · obtain rfl := Option.some.inj h
      exact ⟨Dict.extendedBy_insert code hnew, by rw [Dict.get?_insert, if_pos rfl]⟩

end Bindings

namespace Template

variable {o : TypeOracle} {t : Template}

/-! ## A use of a placeholder -/

/-- **What a use of a placeholder can do.** A bound placeholder must stand for
an expression of the same shape. An unbound one is bound, when the expression's
type is accepted and its guard holds. -/
theorem matchPlaceholder?_eq_some_iff {name : String} {node : Node} {parent : Option Node}
    {b b' : Bindings} :
    t.matchPlaceholder? o name node parent b = some b' ↔
      ∃ p, t.placeholder? name = some p ∧ node.isExpression = true ∧
        ((∃ bound, b.get? name = some bound ∧ bound.node.sameShape node = true ∧ b' = b) ∨
          (b.get? name = none ∧ ∃ ty types, node.ty? = some ty ∧
            o.assign? p.ty ty b.types = some types ∧
            (∀ guard, p.guard = some guard → guard.holds node parent = true) ∧
            b' = { b with types }.bindExpr name ⟨node, ty⟩)) := by
  unfold matchPlaceholder?
  rw [Option.bind_eq_bind, Option.bind_eq_some_iff]
  refine exists_congr fun p => and_congr_right fun _ => ?_
  cases hexpr : node.isExpression
  case false => simp
  simp only [Bool.not_true, Bool.false_eq_true, if_false, true_and, Option.pure_def,
    Option.bind_eq_bind]
  cases hbound : b.get? name with
  | some bound =>
    simp [Option.ite_none_right_eq_some, eq_comm (a := b)]
  | none =>
    simp only [reduceCtorEq, false_and, exists_false, false_or, true_and]
    rw [Option.bind_eq_some_iff]
    refine exists_congr fun ty => ?_
    rw [Option.bind_eq_some_iff, ← exists_and_left]
    refine exists_congr fun types => ?_
    cases p.guard with
    | none => simp [eq_comm (a := b')]
    | some guard =>
      cases guard.holds node parent <;> simp [eq_comm (a := b')]

/-! ## One demand -/

namespace Demand

/-- **Meeting a demand keeps what is bound.** -/
theorem meet?_keeps {d : Demand} {b b' : Bindings} (h : d.meet? o t b = some b') :
    b.exprs.ExtendedBy b'.exprs := by
  cases d with
  | use name node parent =>
    obtain ⟨p, -, -, ⟨bound, -, -, rfl⟩ | ⟨hnew, ty, types, -, -, -, rfl⟩⟩ :=
      matchPlaceholder?_eq_some_iff.1 h
    · exact .refl _
    · exact Dict.extendedBy_insert _ hnew
  | rename template code =>
    rw [(Bindings.of_bindLocal? h).1]
    exact .refl _
  | agree declared actual =>
    obtain ⟨types, -, rfl⟩ := Option.map_eq_some_iff.1 h
    exact .refl _
  | fit declared actual =>
    obtain ⟨types, -, rfl⟩ := Option.map_eq_some_iff.1 h
    exact .refl _

/-- What is bound after a demand was bound before, or the demand is a use of it
for that expression. -/
theorem get?_of_meet? {d : Demand} {b b' : Bindings} (h : d.meet? o t b = some b')
    {name : String} {bound : Bound} (hbound : b'.get? name = some bound) :
    b.get? name = some bound ∨ d.use? = some (name, bound.node) := by
  cases d with
  | use name' node parent =>
    obtain ⟨p, -, -, ⟨-, -, -, rfl⟩ | ⟨-, ty, types, -, -, -, rfl⟩⟩ :=
      matchPlaceholder?_eq_some_iff.1 h
    · exact .inl hbound
    · rw [Bindings.get?_bindExpr] at hbound
      split at hbound
      · rename_i hname
        obtain rfl := Option.some.inj hbound
        exact .inr (by rw [use?, hname])
      · exact .inl hbound
  | rename template code =>
    rw [Bindings.get?, (Bindings.of_bindLocal? h).1] at hbound
    exact .inl hbound
  | agree declared actual =>
    obtain ⟨types, -, rfl⟩ := Option.map_eq_some_iff.1 h
    exact .inl hbound
  | fit declared actual =>
    obtain ⟨types, -, rfl⟩ := Option.map_eq_some_iff.1 h
    exact .inl hbound

/-- A placeholder that is used is bound. -/
theorem isSome_of_meet? {d : Demand} {b b' : Bindings} (h : d.meet? o t b = some b')
    {name : String} {node : Node} (huse : d.use? = some (name, node)) :
    (b'.get? name).isSome = true := by
  cases d with
  | use name' node' parent =>
    obtain ⟨rfl, rfl⟩ := Prod.mk.inj (Option.some.inj huse)
    obtain ⟨p, -, -, ⟨bound, hbound, -, rfl⟩ | ⟨-, ty, types, -, -, -, rfl⟩⟩ :=
      matchPlaceholder?_eq_some_iff.1 h
    · rw [hbound]
      rfl
    · rw [Bindings.get?_bindExpr, if_pos rfl]
      rfl
  | _ => exact absurd huse (by simp [use?])

/-! ## All demands -/

theorem meetAll?_keeps {ds : List Demand} {b b' : Bindings} (h : meetAll? o t ds b = some b') :
    b.exprs.ExtendedBy b'.exprs := by
  induction ds generalizing b with
  | nil =>
    obtain rfl := Option.some.inj h
    exact .refl _
  | cons d ds ih =>
    obtain ⟨middle, hd, hrest⟩ := Option.bind_eq_some_iff.1 h
    exact (meet?_keeps hd).trans (ih hrest)

/-- **What is bound after demands** was bound before, or is an expression that
the placeholder is used for. -/
theorem get?_of_meetAll? {ds : List Demand} {b b' : Bindings}
    (h : meetAll? o t ds b = some b') {name : String} {bound : Bound}
    (hbound : b'.get? name = some bound) :
    b.get? name = some bound ∨ (name, bound.node) ∈ uses ds := by
  induction ds generalizing b with
  | nil =>
    obtain rfl := Option.some.inj h
    exact .inl hbound
  | cons d ds ih =>
    obtain ⟨middle, hd, hrest⟩ := Option.bind_eq_some_iff.1 h
    rcases ih hrest with hmiddle | huse
    · rcases get?_of_meet? hd hmiddle with hbefore | huse
      · exact .inl hbefore
      · exact .inr (List.mem_filterMap.2 ⟨d, List.mem_cons_self, huse⟩)
    · obtain ⟨d', hd', huse⟩ := List.mem_filterMap.1 huse
      exact .inr (List.mem_filterMap.2 ⟨d', List.mem_cons_of_mem _ hd', huse⟩)

/-- A use of an unbound placeholder binds it to the expression it is for. -/
theorem get?_of_meet?_use {name : String} {node : Node} {parent : Option Node} {b b' : Bindings}
    (h : (Demand.use name node parent).meet? o t b = some b') (hnew : b.get? name = none) :
    ∃ ty, node.ty? = some ty ∧ b'.get? name = some ⟨node, ty⟩ := by
  obtain ⟨p, -, -, ⟨bound, hbound, -⟩ | ⟨-, ty, types, hty, -, -, rfl⟩⟩ :=
    matchPlaceholder?_eq_some_iff.1 h
  · exact absurd hbound (by rw [hnew]; simp)
  · exact ⟨ty, hty, by rw [Bindings.get?_bindExpr, if_pos rfl]⟩

/-- **The first use decides what a placeholder is bound to**, once the demands
are met. -/
theorem lookup_uses_of_meetAll? {ds : List Demand} {b b' : Bindings}
    (h : meetAll? o t ds b = some b') {name : String} {bound : Bound} (hnew : b.get? name = none)
    (hbound : b'.get? name = some bound) :
    (uses ds).lookup name = some bound.node ∧ bound.node.ty? = some bound.ty := by
  induction ds generalizing b with
  | nil =>
    obtain rfl := Option.some.inj h
    exact absurd hbound (by rw [hnew]; simp)
  | cons d ds ih =>
    obtain ⟨middle, hd, hrest⟩ := Option.bind_eq_some_iff.1 h
    cases hmiddle : middle.get? name with
    | none =>
      obtain ⟨hlookup, hty⟩ := ih hrest hmiddle
      refine ⟨?_, hty⟩
      -- The first demand is no use of the name, or it would have bound it.
      cases huse : d.use? with
      | none => rwa [uses, List.filterMap_cons_none huse]
      | some u =>
        rw [uses, List.filterMap_cons_some huse, List.lookup_cons, beq_false_of_ne]
        · exact hlookup
        · rintro rfl
          have hbinds := isSome_of_meet? hd huse
          rw [hmiddle] at hbinds
          exact absurd hbinds (by simp)
    | some found =>
      obtain rfl := Option.some.inj ((meetAll?_keeps hrest _ _ hmiddle).symm.trans hbound)
      rcases get?_of_meet? hd hmiddle with hbefore | huse
      · exact absurd hbefore (by rw [hnew]; simp)
      refine ⟨by rw [uses, List.filterMap_cons_some huse, List.lookup_cons_self], ?_⟩
      cases d with
      | use name' node parent =>
        obtain ⟨rfl, rfl⟩ := Prod.mk.inj (Option.some.inj huse)
        obtain ⟨ty, hty, hget⟩ := get?_of_meet?_use hd hnew
        rw [← Option.some.inj (hget.symm.trans hmiddle)]
        exact hty
      | _ => exact absurd huse (by simp [use?])

/-- **Every placeholder that is used is bound** once the demands are met. -/
theorem isSome_of_meetAll? {ds : List Demand} {b b' : Bindings}
    (h : meetAll? o t ds b = some b') {name : String}
    {node : Node} (huse : (name, node) ∈ uses ds) : (b'.get? name).isSome = true := by
  induction ds generalizing b with
  | nil => exact absurd huse List.not_mem_nil
  | cons d ds ih =>
    obtain ⟨middle, hd, hrest⟩ := Option.bind_eq_some_iff.1 h
    obtain ⟨d', hd', hmakes⟩ := List.mem_filterMap.1 huse
    rcases List.mem_cons.1 hd' with rfl | hlater
    · obtain ⟨bound, hbound⟩ := Option.isSome_iff_exists.1 (isSome_of_meet? hd hmakes)
      have hkept : b'.get? name = some bound := meetAll?_keeps hrest _ _ hbound
      rw [hkept]
      rfl
    · exact ih hrest (List.mem_filterMap.2 ⟨d', hlater, hmakes⟩)

/-- **A placeholder is used for what has the shape of what it is bound to**, once
the demands are met, or for that very expression. -/
theorem sameShape_of_meetAll? {ds : List Demand} {b b' : Bindings}
    (h : meetAll? o t ds b = some b') {name : String} {node : Node} {bound : Bound}
    (huse : (name, node) ∈ uses ds) (hbound : b'.get? name = some bound) :
    bound.node = node ∨ bound.node.sameShape node = true := by
  induction ds generalizing b with
  | nil => exact absurd huse List.not_mem_nil
  | cons d ds ih =>
    obtain ⟨middle, hd, hrest⟩ := Option.bind_eq_some_iff.1 h
    obtain ⟨d', hd', hmakes⟩ := List.mem_filterMap.1 huse
    rcases List.mem_cons.1 hd' with rfl | hlater
    · cases d' with
      | use name' node' parent =>
        obtain ⟨rfl, rfl⟩ := Prod.mk.inj (Option.some.inj hmakes)
        -- What the placeholder is bound to after this use, it stays bound to.
        have hkept : ∀ found, middle.get? name' = some found → bound = found := fun found hfound =>
          Option.some.inj (hbound.symm.trans (meetAll?_keeps hrest _ _ hfound))
        obtain ⟨p, -, -, ⟨found, hfound, hshape, rfl⟩ | ⟨hnew, -⟩⟩ :=
          matchPlaceholder?_eq_some_iff.1 hd
        · rw [hkept found hfound]
          exact .inr hshape
        · obtain ⟨ty, -, hget⟩ := get?_of_meet?_use hd hnew
          rw [hkept _ hget]
          exact .inl rfl
      | _ => exact absurd hmakes nofun
    · exact ih hrest (List.mem_filterMap.2 ⟨d', hlater, hmakes⟩)

/-! ## Types -/

/-- Meeting a demand keeps what type variables stand for. -/
theorem meet?_keepsTypes {d : Demand} {b b' : Bindings} (h : d.meet? o t b = some b') :
    b.types.ExtendedBy b'.types := by
  cases d with
  | use name node parent =>
    obtain ⟨p, -, -, ⟨-, -, -, rfl⟩ | ⟨-, ty, types, -, hassign, -, rfl⟩⟩ :=
      matchPlaceholder?_eq_some_iff.1 h
    · exact .refl _
    · exact (TypeOracle.infers_of_assign? hassign).keeps
  | rename template code =>
    rw [(Bindings.of_bindLocal? h).2]
    exact .refl _
  | agree declared actual =>
    obtain ⟨types, hagree, rfl⟩ := Option.map_eq_some_iff.1 h
    exact (TypeOracle.infers_of_agree? hagree).keeps
  | fit declared actual =>
    obtain ⟨types, hassign, rfl⟩ := Option.map_eq_some_iff.1 h
    exact (TypeOracle.infers_of_assign? hassign).keeps

theorem meetAll?_keepsTypes {ds : List Demand} {b b' : Bindings}
    (h : meetAll? o t ds b = some b') : b.types.ExtendedBy b'.types := by
  induction ds generalizing b with
  | nil =>
    obtain rfl := Option.some.inj h
    exact .refl _
  | cons d ds ih =>
    obtain ⟨middle, hd, hrest⟩ := Option.bind_eq_some_iff.1 h
    exact (meet?_keepsTypes hd).trans (ih hrest)

/-- **Types that had to agree are equivalent** once the demands are met and the
variables are replaced. -/
theorem equivalent_of_meetAll? {ds : List Demand} {b b' : Bindings}
    (h : meetAll? o t ds b = some b') {declared actual : Ty} (hd : .agree declared actual ∈ ds) :
    (declared.substitute b'.types).equivalent actual = true := by
  induction ds generalizing b with
  | nil => exact absurd hd List.not_mem_nil
  | cons d ds ih =>
    obtain ⟨middle, hmeet, hrest⟩ := Option.bind_eq_some_iff.1 h
    rcases List.mem_cons.1 hd with rfl | hlater
    · obtain ⟨types, hagree, rfl⟩ := Option.map_eq_some_iff.1 hmeet
      exact TypeOracle.equivalent_of_agree? hagree (meetAll?_keepsTypes hrest)
    · exact ih hrest hlater

/-! ## Locals -/

/-- Meeting a demand keeps what locals stand for. -/
theorem meet?_keepsLocals {d : Demand} {b b' : Bindings} (h : d.meet? o t b = some b') :
    b.locals.ExtendedBy b'.locals := by
  cases d with
  | use name node parent =>
    obtain ⟨p, -, -, ⟨-, -, -, rfl⟩ | ⟨-, ty, types, -, -, -, rfl⟩⟩ :=
      matchPlaceholder?_eq_some_iff.1 h
    · exact .refl _
    · exact .refl _
  | rename template code => exact (Bindings.locals_of_bindLocal? h).1
  | agree declared actual =>
    obtain ⟨types, -, rfl⟩ := Option.map_eq_some_iff.1 h
    exact .refl _
  | fit declared actual =>
    obtain ⟨types, -, rfl⟩ := Option.map_eq_some_iff.1 h
    exact .refl _

theorem meetAll?_keepsLocals {ds : List Demand} {b b' : Bindings}
    (h : meetAll? o t ds b = some b') : b.locals.ExtendedBy b'.locals := by
  induction ds generalizing b with
  | nil =>
    obtain rfl := Option.some.inj h
    exact .refl _
  | cons d ds ih =>
    obtain ⟨middle, hd, hrest⟩ := Option.bind_eq_some_iff.1 h
    exact (meet?_keepsLocals hd).trans (ih hrest)

/-- **Every renamed local stands for the local it is renamed to** once the
demands are met. -/
theorem get?_locals_of_meetAll? {ds : List Demand} {b b' : Bindings}
    (h : meetAll? o t ds b = some b') {template code : String} (hd : .rename template code ∈ ds) :
    b'.locals.get? template = some code := by
  induction ds generalizing b with
  | nil => exact absurd hd List.not_mem_nil
  | cons d ds ih =>
    obtain ⟨middle, hmeet, hrest⟩ := Option.bind_eq_some_iff.1 h
    rcases List.mem_cons.1 hd with rfl | hlater
    · exact meetAll?_keepsLocals hrest _ _ (Bindings.locals_of_bindLocal? hmeet).2
    · exact ih hrest hlater

end Demand

end Template

end Codemod
