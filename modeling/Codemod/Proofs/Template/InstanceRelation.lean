import Codemod.Proofs.Template.Meeting
import Codemod.Tree.Fresh
/-!
# The instance relation

Matching decides a relation that knows of no order and of no bindings: an
expression is an instance of a template when expressions can be assigned to the
placeholders so that the two agree (`Template.instances_ne_nil_iff`). What is
asked of the assignment is `Template.Solves`. All uses of one placeholder are
for expressions of one shape, and the type of the first may stand where the
placeholder's type is declared.

This is about templates without guards, type variables and locals of their own,
`Template.IsPlain`; then nothing is left to infer, and whether later demands
can be met does not depend on the types met so far.
-/

namespace Codemod.Template

open Demand

variable {h : Hierarchy} {t : Template} {e : Expr}

/-- An expression template that matches on shapes and declared classes alone:
no guards, no type variables and no locals. -/
structure IsPlain (t : Template) (e : Expr) : Prop where
  unguarded : ∀ p ∈ t.params, p.guard = none
  closedParams : ∀ p ∈ t.params, p.ty.mentionsVar = false
  closedReturn : t.returnType.mentionsVar = false
  closedCasts : ∀ target inner, .cast target inner ∈ e.parts → target.mentionsVar = false
  noLocals : ∀ name, .localRef name ∉ e.parts

/-! ## Solutions -/

/-- The declared type of the placeholder accepts the expression. -/
def Accepts (h : Hierarchy) (t : Template) (name : String) (node : Node) : Prop :=
  ∃ p ty, t.placeholder? name = some p ∧ node.ty? = some ty ∧ h.Assignable p.ty ty

/-- **An assignment of expressions to placeholders solves demands**: types agree
exactly, a placeholder is assigned what it is used for first, which its type
must accept, and all its uses are for expressions of one shape. -/
structure Solves (h : Hierarchy) (t : Template) (assigned : String → Option Node)
    (ds : List Demand) : Prop where
  types : ∀ declared actual, .agree declared actual ∈ ds → actual = declared
  expressions : ∀ u ∈ uses ds, u.2.isExpression = true
  first : ∀ name, assigned name = (uses ds).lookup name
  accepted : ∀ name node, assigned name = some node → Accepts h t name node
  sameShape : (uses ds).Pairwise fun u v => u.1 = v.1 → u.2.sameShape v.2 = true

/-- The uses can be met with bindings that exist already: those of placeholders
that are bound by having the shape of what is bound. -/
structure Fits (h : Hierarchy) (t : Template) (b : Bindings) (us : List (String × Node)) :
    Prop where
  expressions : ∀ u ∈ us, u.2.isExpression = true
  declared : ∀ u ∈ us, (t.placeholder? u.1).isSome = true
  bound : ∀ u ∈ us, ∀ bound, b.get? u.1 = some bound → bound.node.sameShape u.2 = true
  accepted : ∀ name node, us.lookup name = some node → b.get? name = none →
    Accepts h t name node
  sameShape : us.Pairwise fun u v => u.1 = v.1 → u.2.sameShape v.2 = true

theorem Fits.nil (b : Bindings) : Fits h t b [] where
  expressions _ hu := absurd hu List.not_mem_nil
  declared _ hu := absurd hu List.not_mem_nil
  bound _ hu := absurd hu List.not_mem_nil
  accepted _ _ hlookup := absurd hlookup (by simp)
  sameShape := .nil

/-- A use of a bound placeholder fits when it has the shape of what is bound. -/
theorem fits_cons_of_bound {b : Bindings} {name : String} {node : Node}
    {us : List (String × Node)} {bound : Bound} (hbound : b.get? name = some bound) :
    Fits h t b ((name, node) :: us) ↔
      node.isExpression = true ∧ (t.placeholder? name).isSome = true ∧
        bound.node.sameShape node = true ∧ Fits h t b us := by
  constructor
  · intro hfits
    refine ⟨hfits.expressions _ List.mem_cons_self, hfits.declared _ List.mem_cons_self,
      hfits.bound _ List.mem_cons_self bound hbound, ?_⟩
    refine ⟨fun u hu => hfits.expressions u (List.mem_cons_of_mem _ hu),
      fun u hu => hfits.declared u (List.mem_cons_of_mem _ hu),
      fun u hu => hfits.bound u (List.mem_cons_of_mem _ hu), fun other node' hlookup hnew => ?_,
      (List.pairwise_cons.1 hfits.sameShape).2⟩
    refine hfits.accepted other node' ?_ hnew
    -- A name that is not bound is not the name in front.
    rw [List.lookup_cons, beq_false_of_ne, hlookup]
    rintro rfl
    exact absurd hnew (by rw [hbound]; simp)
  · rintro ⟨hexpr, hdeclared, hshape, hfits⟩
    constructor
    · rintro u (_ | ⟨_, hu⟩)
      · exact hexpr
      · exact hfits.expressions u hu
    · rintro u (_ | ⟨_, hu⟩)
      · exact hdeclared
      · exact hfits.declared u hu
    · rintro u (_ | ⟨_, hu⟩) found hfound
      · obtain rfl := Option.some.inj (hbound.symm.trans hfound)
        exact hshape
      · exact hfits.bound u hu found hfound
    · intro other node' hlookup hnew
      rw [List.lookup_cons, beq_false_of_ne] at hlookup
      · exact hfits.accepted other node' hlookup hnew
      · rintro rfl
        exact absurd hnew (by rw [hbound]; simp)
    · refine List.pairwise_cons.2 ⟨fun u hu hname => ?_, hfits.sameShape⟩
      -- Both have the shape of what is bound.
      have hu' : bound.node.sameShape u.2 = true := hfits.bound u hu bound (hname ▸ hbound)
      exact Node.sameShape_trans (Node.sameShape_symm hshape) hu'

/-- The first use of a placeholder fits when it is accepted, and then decides
the shape of the later ones. -/
theorem fits_cons_of_new {b : Bindings} {name : String} {node : Node}
    {us : List (String × Node)} (hnew : b.get? name = none) :
    Fits h t b ((name, node) :: us) ↔
      node.isExpression = true ∧ ∃ p ty, t.placeholder? name = some p ∧ node.ty? = some ty ∧
        h.Assignable p.ty ty ∧ Fits h t (b.bindExpr name ⟨node, ty⟩) us := by
  constructor
  · intro hfits
    obtain ⟨p, ty, hp, hty, hassign⟩ := hfits.accepted name node (by simp) hnew
    obtain ⟨hhead, hrest⟩ := List.pairwise_cons.1 hfits.sameShape
    refine ⟨hfits.expressions _ List.mem_cons_self, p, ty, hp, hty, hassign, ?_⟩
    refine ⟨fun u hu => hfits.expressions u (List.mem_cons_of_mem _ hu),
      fun u hu => hfits.declared u (List.mem_cons_of_mem _ hu), fun u hu bound hbound => ?_,
      fun other node' hlookup hunbound => ?_, hrest⟩
    · rw [Bindings.get?_bindExpr] at hbound
      split at hbound
      · rename_i hname
        obtain rfl := Option.some.inj hbound
        exact hhead u hu hname.symm
      · exact hfits.bound u (List.mem_cons_of_mem _ hu) bound hbound
    · rw [Bindings.get?_bindExpr] at hunbound
      split at hunbound
      · exact absurd hunbound (by simp)
      · rename_i hname
        refine hfits.accepted other node' ?_ hunbound
        rw [List.lookup_cons, beq_false_of_ne hname, hlookup]
  · rintro ⟨hexpr, p, ty, hp, hty, hassign, hfits⟩
    -- The other names stand for what they did.
    have hget : ∀ other, other ≠ name →
        (b.bindExpr name ⟨node, ty⟩).get? other = b.get? other := by
      intro other hother
      rw [Bindings.get?_bindExpr, if_neg hother]
    constructor
    · rintro u (_ | ⟨_, hu⟩)
      · exact hexpr
      · exact hfits.expressions u hu
    · rintro u (_ | ⟨_, hu⟩)
      · rw [hp]
        rfl
      · exact hfits.declared u hu
    · rintro u (_ | ⟨_, hu⟩) bound hbound
      · exact absurd hbound (by rw [hnew]; simp)
      · refine hfits.bound u hu bound ?_
        rw [hget]
        · exact hbound
        · rintro hname
          exact absurd hbound (by rw [hname, hnew]; simp)
    · intro other node' hlookup hunbound
      by_cases hname : other = name
      · subst hname
        rw [List.lookup_cons_self] at hlookup
        obtain rfl := Option.some.inj hlookup
        exact ⟨p, ty, hp, hty, hassign⟩
      · rw [List.lookup_cons, beq_false_of_ne hname] at hlookup
        exact hfits.accepted other node' hlookup ((hget other hname).trans hunbound)
    · refine List.pairwise_cons.2 ⟨fun u hu hname => ?_, hfits.sameShape⟩
      refine hfits.bound u hu ⟨node, ty⟩ ?_
      rw [Bindings.get?_bindExpr, if_pos hname.symm]

/-! ## Meeting the demands of a plain template -/

theorem IsPlain.placeholder (hplain : IsPlain t e) {name : String} {p : Placeholder}
    (hp : t.placeholder? name = some p) : p.guard = none ∧ p.ty.mentionsVar = false :=
  have hmem : p ∈ t.params := List.mem_of_find?_eq_some hp
  ⟨hplain.unguarded p hmem, hplain.closedParams p hmem⟩

/-- Without type variables and guards, a first use is met by acceptance. -/
theorem IsPlain.meet?_use_of_new (hplain : IsPlain t e) {name : String} {node : Node}
    {parent : Option Node} {b b' : Bindings} (hnew : b.get? name = none) :
    (Demand.use name node parent).meet? h.oracle t b = some b' ↔
      node.isExpression = true ∧ ∃ p ty, t.placeholder? name = some p ∧ node.ty? = some ty ∧
        h.Assignable p.ty ty ∧ b' = b.bindExpr name ⟨node, ty⟩ := by
  rw [meet?, matchPlaceholder?_eq_some_iff]
  constructor
  · rintro ⟨p, hp, hexpr, ⟨bound, hbound, -⟩ | ⟨-, ty, types, hty, hassign, -, rfl⟩⟩
    · exact absurd hbound (by rw [hnew]; simp)
    obtain ⟨haccepts, rfl⟩ :=
      (Hierarchy.assign?_eq_some_iff (hplain.placeholder hp).2).1 hassign
    exact ⟨hexpr, p, ty, hp, hty, haccepts, rfl⟩
  · rintro ⟨hexpr, p, ty, hp, hty, hassign, rfl⟩
    refine ⟨p, hp, hexpr, .inr ⟨hnew, ty, b.types, hty,
      (Hierarchy.assign?_eq_some_iff (hplain.placeholder hp).2).2 ⟨hassign, rfl⟩, ?_, rfl⟩⟩
    intro guard hguard
    exact absurd hguard (by rw [(hplain.placeholder hp).1]; simp)

/-- A later use is met by the shape of what is bound, which it does not change. -/
theorem meet?_use_of_bound {name : String} {node : Node} {parent : Option Node}
    {b b' : Bindings} {bound : Bound} (hbound : b.get? name = some bound) :
    (Demand.use name node parent).meet? h.oracle t b = some b' ↔
      node.isExpression = true ∧ (t.placeholder? name).isSome = true ∧
        bound.node.sameShape node = true ∧ b' = b := by
  rw [meet?, matchPlaceholder?_eq_some_iff]
  constructor
  · rintro ⟨p, hp, hexpr, ⟨found, hfound, hshape, rfl⟩ | ⟨hnew, -⟩⟩
    · obtain rfl := Option.some.inj (hbound.symm.trans hfound)
      exact ⟨hexpr, Option.isSome_of_eq_some hp, hshape, rfl⟩
    · exact absurd hnew (by rw [hbound]; simp)
  · rintro ⟨hexpr, hdeclared, hshape, rfl⟩
    obtain ⟨p, hp⟩ := Option.isSome_iff_exists.1 hdeclared
    exact ⟨p, hp, hexpr, .inl ⟨bound, hbound, hshape, rfl⟩⟩

/-- A type without variables is met by itself, and leaves the bindings as they
are. -/
theorem meet?_agree_of_closed {declared actual : Ty} {b b' : Bindings}
    (hclosed : declared.mentionsVar = false) :
    (Demand.agree declared actual).meet? h.oracle t b = some b' ↔
      actual = declared ∧ b' = b := by
  rw [meet?, Option.map_eq_some_iff]
  constructor
  · rintro ⟨types, htypes, rfl⟩
    obtain ⟨rfl, rfl⟩ := (TypeOracle.agree?_eq_some_iff hclosed).1 htypes
    exact ⟨rfl, rfl⟩
  · rintro ⟨rfl, rfl⟩
    exact ⟨b'.types, (TypeOracle.agree?_eq_some_iff hclosed).2 ⟨rfl, rfl⟩, rfl⟩

/-- Several demands can be met when the first can, and the others after it. -/
theorem exists_meetAll?_cons_iff {d : Demand} {ds : List Demand} {b : Bindings} :
    (∃ b', meetAll? h.oracle t (d :: ds) b = some b') ↔
      ∃ middle, d.meet? h.oracle t b = some middle ∧
        ∃ b', meetAll? h.oracle t ds middle = some b' := by
  simp only [meetAll?, Option.bind_eq_some_iff]
  constructor
  · rintro ⟨b', middle, hmeet, hall⟩
    exact ⟨middle, hmeet, b', hall⟩
  · rintro ⟨middle, hmeet, b', hall⟩
    exact ⟨b', middle, hmeet, hall⟩

/-- **Demands of a plain template can be met** when their types agree and their
uses fit the bindings. -/
theorem IsPlain.exists_meetAll?_iff (hplain : IsPlain t e) {ds : List Demand}
    (hfrom : ∀ d ∈ ds, d.ComesFrom e.parts) {b : Bindings} :
    (∃ b', meetAll? h.oracle t ds b = some b') ↔
      (∀ declared actual, .agree declared actual ∈ ds → actual = declared) ∧
        Fits h t b (uses ds) := by
  -- The first demand decides the bindings that the uses among the others have to fit.
  induction ds generalizing b with
  | nil => exact iff_of_true ⟨b, rfl⟩ ⟨fun _ _ hmem => absurd hmem List.not_mem_nil, .nil b⟩
  | cons d ds ih =>
    have hrest : ∀ d ∈ ds, d.ComesFrom e.parts :=
      fun d hd => hfrom d (List.mem_cons_of_mem _ hd)
    have hd : d.ComesFrom e.parts := hfrom d List.mem_cons_self
    rw [exists_meetAll?_cons_iff]
    cases d with
    | fit => exact absurd hd not_false
    | rename name => exact absurd hd (hplain.noLocals name)
    | agree declared actual =>
      obtain ⟨inner, hcast⟩ := hd
      have hclosed := hplain.closedCasts declared inner hcast
      constructor
      · rintro ⟨middle, hmeet, hall⟩
        obtain ⟨rfl, rfl⟩ := (meet?_agree_of_closed hclosed).1 hmeet
        obtain ⟨htypes, hfits⟩ := (ih hrest).1 hall
        refine ⟨?_, hfits⟩
        rintro d a (_ | ⟨_, hmem⟩)
        · rfl
        · exact htypes d a hmem
      · rintro ⟨htypes, hfits⟩
        have hsame := htypes declared actual List.mem_cons_self
        refine ⟨b, (meet?_agree_of_closed hclosed).2 ⟨hsame, rfl⟩, ?_⟩
        exact (ih hrest).2 ⟨fun d a hmem => htypes d a (List.mem_cons_of_mem _ hmem), hfits⟩
    | use name node parent =>
      have htypes : (∀ declared actual,
          Demand.agree declared actual ∈ Demand.use name node parent :: ds → actual = declared) ↔
          ∀ declared actual, Demand.agree declared actual ∈ ds → actual = declared := by
        simp
      have huses : uses (.use name node parent :: ds) = (name, node) :: uses ds := rfl
      rw [htypes, huses]
      cases hbound : b.get? name with
      | some bound =>
        rw [fits_cons_of_bound hbound]
        constructor
        · rintro ⟨middle, hmeet, hall⟩
          obtain ⟨hexpr, hdeclared, hshape, rfl⟩ := (meet?_use_of_bound hbound).1 hmeet
          obtain ⟨htypes, hfits⟩ := (ih hrest).1 hall
          exact ⟨htypes, hexpr, hdeclared, hshape, hfits⟩
        · rintro ⟨htypes, hexpr, hdeclared, hshape, hfits⟩
          exact ⟨b, (meet?_use_of_bound hbound).2 ⟨hexpr, hdeclared, hshape, rfl⟩,
            (ih hrest).2 ⟨htypes, hfits⟩⟩
      | none =>
        rw [fits_cons_of_new hbound]
        constructor
        · rintro ⟨middle, hmeet, hall⟩
          obtain ⟨hexpr, p, ty, hp, hty, hassign, rfl⟩ :=
            (hplain.meet?_use_of_new hbound).1 hmeet
          obtain ⟨htypes, hfits⟩ := (ih hrest).1 hall
          exact ⟨htypes, hexpr, p, ty, hp, hty, hassign, hfits⟩
        · rintro ⟨htypes, hexpr, p, ty, hp, hty, hassign, hfits⟩
          exact ⟨_, (hplain.meet?_use_of_new hbound).2 ⟨hexpr, p, ty, hp, hty, hassign, rfl⟩,
            (ih hrest).2 ⟨htypes, hfits⟩⟩

/-- Uses fit empty bindings when the first use of each placeholder solves them. -/
theorem exists_solves_iff {ds : List Demand} :
    (∃ assigned, Solves h t assigned ds) ↔
      (∀ declared actual, .agree declared actual ∈ ds → actual = declared) ∧
        Fits h t .empty (uses ds) := by
  constructor
  · rintro ⟨assigned, hsolves⟩
    refine ⟨hsolves.types, hsolves.expressions, ?_, ?_, ?_, hsolves.sameShape⟩
    · intro u hu
      obtain ⟨node, hnode⟩ := Option.isSome_iff_exists.1
        ((List.lookup_isSome_iff (l := uses ds) (k := u.1)).2 ⟨u, hu, by simp⟩)
      obtain ⟨p, -, hp, -⟩ := hsolves.accepted u.1 node ((hsolves.first u.1).trans hnode)
      rw [hp]
      rfl
    · intro u _ bound hbound
      exact absurd hbound (by simp)
    · intro name node hlookup _
      exact hsolves.accepted name node ((hsolves.first name).trans hlookup)
  · rintro ⟨htypes, hfits⟩
    exact ⟨fun name => (uses ds).lookup name, htypes, hfits.expressions, fun _ => rfl,
      fun name node hlookup => hfits.accepted name node hlookup (Bindings.get?_empty name),
      hfits.sameShape⟩

/-! ## Instances -/

/-- What the type of the whole expression must satisfy. -/
theorem IsPlain.meetAll?_resultDemands (hplain : IsPlain t e) {code : Node} {b b' : Bindings} :
    meetAll? h.oracle t (t.resultDemands code) b = some b' ↔
      (∀ ty, code.ty? = some ty → t.returnType.isNamed Name.void = false →
        h.Assignable t.returnType ty) ∧ b' = b := by
  unfold resultDemands
  cases code.ty? with
  | none => simp [meetAll?, eq_comm (a := b)]
  | some ty =>
    dsimp only
    cases hvoid : t.returnType.isNamed Name.void with
    | true => simp [meetAll?, eq_comm (a := b)]
    | false =>
      rw [if_neg (by simp), meetAll?_singleton, meet?, Option.map_eq_some_iff]
      simp only [Hierarchy.assign?_eq_some_iff hplain.closedReturn, Option.some.injEq]
      constructor
      · rintro ⟨types, ⟨hassign, rfl⟩, rfl⟩
        exact ⟨fun ty' hty _ => hty ▸ hassign, rfl⟩
      · rintro ⟨hassign, rfl⟩
        exact ⟨b'.types, ⟨hassign ty rfl trivial, rfl⟩, rfl⟩

/-- **Matching decides the instance relation.** A plain expression template has
an instance at code exactly when the code is an expression in no parentheses,
some assignment of expressions to placeholders makes the template agree with
it, and its type, when it has one and the template returns anything, may stand
where the template's return type is declared. -/
theorem instances_ne_nil_iff (h : Hierarchy) {t : Template} {e : Expr} (hbody : t.body = .expr e)
    (hplain : IsPlain t e) (code : Node) (parent : Option Node) :
    t.instances h.oracle code parent ≠ [] ↔
      code.isExpression = true ∧ code.isParen = false ∧
        (∃ assigned ds, Agrees h.oracle e code parent ds ∧ Solves h t assigned ds) ∧
        (∀ ty, code.ty? = some ty → t.returnType.isNamed Name.void = false →
          h.Assignable t.returnType ty) := by
  constructor
  · intro hne
    obtain ⟨i, hi⟩ := List.exists_mem_of_ne_nil _ hne
    obtain ⟨hexpr, hparen, ds, b, hagrees, hmeet, -⟩ := (mem_instances_expr_iff hbody).1 hi
    -- The demands of the body are met before the one for the type of the whole.
    obtain ⟨middle, hmeet, hresult⟩ := meetAll?_append_eq_some_iff.1 hmeet
    obtain ⟨assigned, hsolves⟩ := exists_solves_iff.2
      ((hplain.exists_meetAll?_iff fun _ => hagrees.comesFrom).1 ⟨middle, hmeet⟩)
    exact ⟨hexpr, hparen, ⟨assigned, ds, hagrees, hsolves⟩,
      (hplain.meetAll?_resultDemands.1 hresult).1⟩
  · rintro ⟨hexpr, hparen, ⟨assigned, ds, hagrees, hsolves⟩, hresult⟩
    obtain ⟨b, hmeet⟩ := (hplain.exists_meetAll?_iff fun _ => hagrees.comesFrom).2
      (exists_solves_iff.1 ⟨assigned, hsolves⟩)
    have hall := meetAll?_append_eq_some_iff.2
      ⟨b, hmeet, hplain.meetAll?_resultDemands.2 ⟨hresult, rfl⟩⟩
    exact List.ne_nil_of_mem
      ((mem_instances_expr_iff hbody).2 ⟨hexpr, hparen, ds, b, hagrees, hall, rfl⟩)

/-- The sum of a number and itself. -/
def doubling : Template where
  name := "doubling"
  typeParams := []
  params := [⟨"a", .plain "int", none⟩]
  returnType := .plain "int"
  body := .expr (.binary .add (.placeholder "a") (.placeholder "a"))

/-- So `x + (x)` is an instance of the sum of a number and itself. -/
theorem doubling_instances_ne_nil :
    doubling.instances Hierarchy.javaLang.oracle
      (Fresh.binary .add ((Fresh.ident "x").typed (.plain "int"))
        (Fresh.paren ((Fresh.ident "x").typed (.plain "int")))) none ≠ [] := by
  have hplain : IsPlain doubling (.binary .add (.placeholder "a") (.placeholder "a")) :=
    ⟨by simp [doubling], by simp [doubling, Ty.plain, Ty.mentionsVar, Ty.anyMentionsVar], rfl,
      by simp [Expr.parts], by simp [Expr.parts]⟩
  refine (instances_ne_nil_iff Hierarchy.javaLang rfl hplain _ none).2
    ⟨rfl, rfl, ⟨_, _, .binary rfl .placeholder .placeholder, ?_, ?_, fun _ => rfl, ?_, ?_⟩, ?_⟩
  · simp
  · simp [uses, use?, Fresh.paren, Fresh.ident, Node.typed, Node.withInfo, Node.skipParens,
      Node.isExpression]
  · intro name node hlookup
    by_cases hname : name = "a"
    · subst hname
      obtain rfl := Option.some.inj hlookup
      exact ⟨_, _, rfl, rfl, .inl ⟨rfl, Hierarchy.isConvertible_refl _⟩⟩
    · exact absurd hlookup (by simp [uses, use?, List.lookup_cons, beq_false_of_ne hname])
  · simp [uses, use?, Fresh.paren, Fresh.ident, Node.typed, Node.withInfo, Node.skipParens,
      Node.sameShape]
  · intro ty hty
    exact absurd hty (by simp [Fresh.binary, NodeInfo.blank, Node.ty?, Node.info])

end Codemod.Template
