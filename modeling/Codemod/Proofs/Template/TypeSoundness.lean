import Codemod.Proofs.Template.Meeting
import Codemod.Tree.Fresh
/-!
# Types of instances

What a template declares about types holds of every instance, once its type
variables are replaced by what the instance says they stand for
(`Template.typeSound_of_mem_instances`). A variable is decided by its first
use, while later ones extend what is known. So the invariant that meeting a
demand preserves, `Template.TypedBindings`, speaks of all later extensions, and
what was once established never has to be checked again.
-/

namespace Codemod.Template

open Demand

/-! ## The types a template declares -/

/-- The types of casts among parts of an expression. -/
def castTypes (parts : List Expr) : List Ty :=
  parts.filterMap fun e =>
    match e with
    | .cast target _ => some target
    | _ => none

theorem mem_castTypes {parts : List Expr} {target : Ty} {expr : Expr}
    (h : .cast target expr ∈ parts) : target ∈ castTypes parts :=
  List.mem_filterMap.2 ⟨_, h, rfl⟩

namespace Stmt

/-- The parts of the expression in the statement. -/
def parts (s : Stmt) : List Expr := s.expr?.toList.flatMap Expr.parts

/-- The types that the statement mentions. -/
def types (s : Stmt) : List Ty :=
  match s with
  | .localVar _ ty _ => ty :: castTypes s.parts
  | _ => castTypes s.parts

end Stmt

/-- The types that the body mentions. -/
def Body.types : Body → List Ty
  | .expr e => castTypes e.parts
  | .block stmts => stmts.flatMap Stmt.types

/-- The types that the template declares, mentioned in its body or not. -/
def declaredTypes (t : Template) : List Ty :=
  t.returnType :: (t.params.map (·.ty) ++ t.body.types)

/-- Every occurrence of a type variable in the template, as it occurs. -/
def typeVars (t : Template) : List TypeVar := t.declaredTypes.flatMap Ty.vars

/-- All occurrences of one type variable carry the same bounds. -/
def HasUniformBounds (t : Template) : Prop :=
  ∀ v ∈ t.typeVars, ∀ w ∈ t.typeVars, v.name = w.name → v = w

variable {h : Hierarchy} {t : Template}

theorem vars_subset_typeVars {ty : Ty} (hty : ty ∈ t.declaredTypes) : ty.vars ⊆ t.typeVars :=
  fun _ hv => List.mem_flatMap.2 ⟨ty, hty, hv⟩

theorem placeholder?_ty_mem_declaredTypes {name : String} {p : Placeholder}
    (hp : t.placeholder? name = some p) : p.ty ∈ t.declaredTypes := by
  refine List.mem_cons_of_mem _ (List.mem_append_left _ ?_)
  exact List.mem_map.2 ⟨p, List.mem_of_find?_eq_some hp, rfl⟩

/-- The types that a demand compares are declared by the template. -/
def Demand.Declares (t : Template) : Demand → Prop
  | .agree declared _ | .fit declared _ => declared ∈ t.declaredTypes
  | .use _ _ _ | .rename _ _ => True

/-! ## The invariant -/

/-- **The bindings are sound for the types that the template declares**, and
remain so however the type variables are extended. -/
structure TypedBindings (h : Hierarchy) (t : Template) (b : Bindings) : Prop where
  placeholders : ∀ name bound, b.get? name = some bound →
    ∃ p, t.placeholder? name = some p ∧
      (∀ v ∈ p.ty.vars, ∃ ty, b.types.get? v.name = some ty) ∧
      ∀ later, b.types.ExtendedBy later →
        h.isConvertible bound.ty (p.ty.substitute later) = true
  inferred : ∀ name ty, b.types.get? name = some ty →
    ∃ v ∈ t.typeVars, v.name = name ∧ v.Admits h.oracle ty

theorem typedBindings_empty : TypedBindings h t .empty where
  placeholders _ _ hbound := absurd hbound (by simp)
  inferred name _ hty := absurd hty (by
    rw [show Bindings.empty.types.get? name = none from rfl]
    simp)

/-- Inferring more about variables of the template keeps the bindings sound. -/
theorem TypedBindings.withTypes {b : Bindings} (hb : TypedBindings h t b) {vars : List TypeVar}
    {types : Dict Ty} (hinfer : TypeOracle.Infers h.oracle vars b.types types)
    (hvars : vars ⊆ t.typeVars) : TypedBindings h t { b with types } where
  placeholders name bound hbound := by
    obtain ⟨p, hp, hknown, hconv⟩ := hb.placeholders name bound hbound
    refine ⟨p, hp, fun v hv => ?_, fun later hlater => hconv later (hinfer.keeps.trans hlater)⟩
    obtain ⟨ty, hty⟩ := hknown v hv
    exact ⟨ty, hinfer.keeps _ _ hty⟩
  inferred name ty hty := by
    rcases hinfer.admitted name ty hty with hbefore | ⟨v, hv, hname, hadmits⟩
    · exact hb.inferred name ty hbefore
    · exact ⟨v, hvars hv, hname, hadmits⟩

/-- Binding a placeholder that accepts the type keeps the bindings sound. -/
theorem TypedBindings.bindExpr {b : Bindings} (hb : TypedBindings h t b) {name : String}
    {p : Placeholder} (hp : t.placeholder? name = some p) {node : Node} {ty : Ty}
    {types : Dict Ty} (hassign : h.oracle.assign? p.ty ty b.types = some types) :
    TypedBindings h t ({ b with types }.bindExpr name ⟨node, ty⟩) := by
  have htyped : TypedBindings h t { b with types } :=
    hb.withTypes (TypeOracle.infers_of_assign? hassign)
      (vars_subset_typeVars (placeholder?_ty_mem_declaredTypes hp))
  refine ⟨fun other bound hbound => ?_, htyped.inferred⟩
  rw [Bindings.get?_bindExpr] at hbound
  split at hbound
  · rename_i hname
    obtain rfl := Option.some.inj hbound
    subst hname
    exact ⟨p, hp, fun v hv => TypeOracle.isSome_of_assign? hassign hv,
      fun later hlater => Hierarchy.isConvertible_of_assign? hassign hlater⟩
  · exact htyped.placeholders other bound hbound

/-- **Meeting a demand preserves the invariant.** -/
theorem TypedBindings.meet? {b b' : Bindings} (hb : TypedBindings h t b) {d : Demand}
    (hd : d.Declares t) (hmeet : d.meet? h.oracle t b = some b') : TypedBindings h t b' := by
  cases d with
  | use name node parent =>
    obtain ⟨p, hp, -, ⟨-, -, -, rfl⟩ | ⟨-, ty, types, -, hassign, -, rfl⟩⟩ :=
      matchPlaceholder?_eq_some_iff.1 hmeet
    · exact hb
    · exact hb.bindExpr hp hassign
  | rename template code =>
    -- Locals are apart from what the invariant speaks of.
    obtain ⟨hexprs, htypes⟩ := Bindings.of_bindLocal? hmeet
    refine ⟨fun name bound hbound => ?_, fun name ty hty => hb.inferred name ty (htypes ▸ hty)⟩
    rw [Bindings.get?, hexprs] at hbound
    rw [htypes]
    exact hb.placeholders name bound hbound
  | agree declared actual =>
    obtain ⟨types, hagree, rfl⟩ := Option.map_eq_some_iff.1 hmeet
    exact hb.withTypes (TypeOracle.infers_of_agree? hagree) (vars_subset_typeVars hd)
  | fit declared actual =>
    obtain ⟨types, hassign, rfl⟩ := Option.map_eq_some_iff.1 hmeet
    exact hb.withTypes (TypeOracle.infers_of_assign? hassign) (vars_subset_typeVars hd)

/-- **And so does meeting any number of them.** -/
theorem TypedBindings.meetAll? {b b' : Bindings} (hb : TypedBindings h t b) {ds : List Demand}
    (hds : ∀ d ∈ ds, d.Declares t) (hmeet : meetAll? h.oracle t ds b = some b') :
    TypedBindings h t b' := by
  induction ds generalizing b with
  | nil =>
    obtain rfl := Option.some.inj hmeet
    exact hb
  | cons d ds ih =>
    obtain ⟨middle, hd, hrest⟩ := Option.bind_eq_some_iff.1 hmeet
    exact ih (hb.meet? (hds d List.mem_cons_self) hd)
      (fun d' hd' => hds d' (List.mem_cons_of_mem _ hd')) hrest

/-! ## The demands of an instance declare what the template declares -/

theorem Demand.ComesFrom.declares {parts : List Expr} {d : Demand} (hfrom : d.ComesFrom parts)
    (hcasts : castTypes parts ⊆ t.body.types) : d.Declares t := by
  cases d with
  | use => trivial
  | rename => trivial
  | agree declared actual =>
    obtain ⟨expr, hcast⟩ := hfrom
    exact List.mem_cons_of_mem _ (List.mem_append_right _ (hcasts (mem_castTypes hcast)))
  | fit => exact absurd hfrom not_false

theorem declares_resultDemands (code : Node) :
    ∀ d ∈ t.resultDemands code, d.Declares t := by
  intro d hd
  unfold resultDemands at hd
  split at hd
  · split at hd
    · exact absurd hd List.not_mem_nil
    · obtain rfl := List.mem_singleton.1 hd
      exact List.mem_cons_self
  · exact absurd hd List.not_mem_nil

theorem AgreesStmt.declares {o : TypeOracle} {s : Stmt} {code : Node} {ds : List Demand}
    (hagrees : AgreesStmt o s code ds) (htypes : s.types ⊆ t.body.types) :
    ∀ d ∈ ds, d.Declares t := by
  intro d hd
  have hlocal : ∀ ty ∈ s.types, ∀ actual, (Demand.agree ty actual).Declares t :=
    fun ty hty _ => List.mem_cons_of_mem _ (List.mem_append_right _ (htypes hty))
  cases hagrees with
  | expr hds =>
    refine (hds.comesFrom hd).declares ?_
    simpa [Stmt.types, Stmt.parts, Stmt.expr?] using htypes
  | retNone => exact absurd hd List.not_mem_nil
  | ret hds =>
    refine (hds.comesFrom hd).declares ?_
    simpa [Stmt.types, Stmt.parts, Stmt.expr?] using htypes
  | localVar =>
    rcases List.mem_cons.1 hd with rfl | hd
    · trivial
    · obtain rfl := List.mem_singleton.1 hd
      exact hlocal _ List.mem_cons_self _
  | localInit hds =>
    rcases List.mem_cons.1 hd with rfl | hd
    · trivial
    rcases List.mem_cons.1 hd with rfl | hd
    · exact hlocal _ List.mem_cons_self _
    · refine (hds.comesFrom hd).declares fun ty hty => htypes (List.mem_cons_of_mem _ ?_)
      simpa [Stmt.parts, Stmt.expr?] using hty

theorem AgreesStmts.declares {o : TypeOracle} {stmts : List Stmt} {codes : List Node}
    {ds : List Demand} (hagrees : AgreesStmts o stmts codes ds)
    (htypes : stmts.flatMap Stmt.types ⊆ t.body.types) : ∀ d ∈ ds, d.Declares t := by
  induction hagrees with
  | nil => exact fun _ hd => absurd hd List.not_mem_nil
  | cons hs _ ih =>
    rw [List.flatMap_cons] at htypes
    intro d hd
    rcases List.mem_append.1 hd with hleft | hright
    · exact hs.declares (fun _ hty => htypes (List.mem_append_left _ hty)) d hleft
    · exact ih (fun _ hty => htypes (List.mem_append_right _ hty)) d hright

/-- **Every instance is reached from empty bindings by demands that compare
declared types**; those of an expression template end with what is asked of the
type of the whole. -/
theorem exists_demands_of_mem_instances {o : TypeOracle} {code : Node} {parent : Option Node}
    {i : Instance} (hi : i ∈ t.instances o code parent) :
    ∃ ds, (∀ d ∈ ds, d.Declares t) ∧ Demand.meetAll? o t ds .empty = some i.bindings ∧
      (t.isExpression = true → ∃ first, ds = first ++ t.resultDemands code) := by
  cases hbody : t.body with
  | expr e =>
    obtain ⟨-, -, ds, b, hagrees, hmeet, rfl⟩ := (mem_instances_expr_iff hbody).1 hi
    refine ⟨_, fun d hd => ?_, hmeet, fun _ => ⟨ds, rfl⟩⟩
    rcases List.mem_append.1 hd with hbodyDemand | hresult
    · refine (hagrees.comesFrom hbodyDemand).declares ?_
      rw [hbody]
      exact List.Subset.refl _
    · exact declares_resultDemands code d hresult
  | block stmts =>
    obtain ⟨-, info, codes, -, window, -, ds, b, hagrees, hmeet, rfl⟩ :=
      (mem_instances_block_iff hbody).1 hi
    refine ⟨ds, hagrees.declares ?_, hmeet, fun hexpr => ?_⟩
    · rw [hbody]
      exact List.Subset.refl _
    · exact absurd hexpr (by simp [isExpression, hbody])

/-! ## Soundness -/

/-- What a template promises about the types of an instance. -/
structure TypeSound (h : Hierarchy) (t : Template) (code : Node) (b : Bindings) : Prop where
  /-- All variables in the declared type of a bound placeholder stand for
  types. -/
  known : ∀ name bound, b.get? name = some bound →
    ∃ p, t.placeholder? name = some p ∧ ∀ v ∈ p.ty.vars, ∃ ty, b.types.get? v.name = some ty
  /-- What is bound to a placeholder may stand where its type is declared. -/
  placeholders : ∀ name bound, b.get? name = some bound →
    ∀ p, t.placeholder? name = some p →
      h.isConvertible bound.ty (p.ty.substitute b.types) = true
  /-- The whole expression may stand where the return type is declared. -/
  result : t.isExpression = true → t.returnType.isNamed Name.void = false →
    ∀ ty, code.ty? = some ty → h.isConvertible ty (t.returnType.substitute b.types) = true
  /-- What a variable stands for lies within its bounds, as far as these mention
  no variables. -/
  bounds : ∀ name ty, b.types.get? name = some ty →
    (∃ v ∈ t.typeVars, v.name = name) ∧
      ∀ v ∈ t.typeVars, v.name = name →
        (∀ upper, v.upper = some upper → upper.mentionsVar = false →
          h.isConvertible ty upper = true) ∧
        (∀ lower, v.lower = some lower → lower.mentionsVar = false →
          h.isSubtype lower ty = true)

/-- **Instances are sound for the types that the template declares.** -/
theorem typeSound_of_mem_instances (h : Hierarchy) {t : Template} (huniform : t.HasUniformBounds)
    {code : Node} {parent : Option Node} {i : Instance}
    (hi : i ∈ t.instances h.oracle code parent) : TypeSound h t code i.bindings := by
  obtain ⟨ds, hds, hmeet, hresult⟩ := exists_demands_of_mem_instances hi
  have hsound : TypedBindings h t i.bindings := typedBindings_empty.meetAll? hds hmeet
  constructor
  · intro name bound hbound
    obtain ⟨p, hp, hknown, -⟩ := hsound.placeholders name bound hbound
    exact ⟨p, hp, hknown⟩
  · intro name bound hbound p hp
    obtain ⟨p', hp', -, hconv⟩ := hsound.placeholders name bound hbound
    obtain rfl := Option.some.inj (hp.symm.trans hp')
    exact hconv _ (.refl _)
  · intro hexpr hvoid ty hty
    -- What is asked of the whole expression is asked last.
    obtain ⟨first, rfl⟩ := hresult hexpr
    obtain ⟨middle, -, hlast⟩ := meetAll?_append_eq_some_iff.1 hmeet
    rw [resultDemands, hty] at hlast
    dsimp only at hlast
    rw [if_neg (by simp [hvoid]), meetAll?_singleton] at hlast
    obtain ⟨types, hassign, hb⟩ := Option.map_eq_some_iff.1 hlast
    rw [← hb]
    exact Hierarchy.isConvertible_of_assign? hassign (.refl _)
  · intro name ty hty
    obtain ⟨v, hv, hname, hadmits⟩ := hsound.inferred name ty hty
    -- It was inferred from one occurrence, and all others have the same bounds.
    refine ⟨⟨v, hv, hname⟩, fun w hw hwname => ?_⟩
    obtain rfl := huniform v hv w hw (hname.trans hwname.symm)
    exact ⟨hadmits.upper, hadmits.lower⟩

/-- Any number, whatever its class. -/
def anyNumber : Template where
  name := "anyNumber"
  typeParams := [⟨"T", some (.plain "java.lang.Number"), none⟩]
  params := [⟨"a", .var "T" (some (.plain "java.lang.Number")) none, none⟩]
  returnType := .var "T" (some (.plain "java.lang.Number")) none
  body := .expr (.placeholder "a")

/-- So a variable that is an `Integer` is an instance of any number, and what
`T` stands for there is a `Number`. -/
theorem typeSound_anyNumber :
    ∃ i ∈ anyNumber.instances Hierarchy.javaLang.oracle
        ((Fresh.ident "x").typed (.plain "java.lang.Integer")) none,
      TypeSound Hierarchy.javaLang anyNumber
        ((Fresh.ident "x").typed (.plain "java.lang.Integer")) i.bindings := by
  have huniform : anyNumber.HasUniformBounds := by
    simp [HasUniformBounds, typeVars, declaredTypes, anyNumber, Body.types, castTypes, Expr.parts,
      Ty.vars]
  have hlength : (anyNumber.instances Hierarchy.javaLang.oracle
      ((Fresh.ident "x").typed (.plain "java.lang.Integer")) none).length = 1 := rfl
  obtain ⟨i, hi⟩ := List.exists_mem_of_length_pos (hlength ▸ Nat.one_pos)
  exact ⟨i, hi, typeSound_of_mem_instances Hierarchy.javaLang huniform hi⟩

end Codemod.Template
