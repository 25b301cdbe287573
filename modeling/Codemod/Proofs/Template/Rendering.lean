import Codemod.Proofs.Outcome
import Codemod.Proofs.Template.Scoping
import Codemod.Template.Rendering
/-!
# Where rendering fails

Rendering fails for one of two reasons, and says which. A class that is
required does not exist, or a placeholder that the template uses stands for
nothing; and then the error names the rule, the template and that placeholder
(`Template.of_render_eq_unresolved`).

So it does not matter for failing, nor for what is imported, where the bound
expressions lie and what they are (`Template.related_render`).
-/

namespace Codemod

open Outcome

namespace RenderContext

open Template

variable {c : RenderContext}

/-- Requiring a class never ends in an unresolved placeholder. -/
theorem require_ne_unresolved {class' rule template name : String} :
    c.require class' ≠ .error (.unresolvedPlaceholder rule template name) := by
  unfold require
  split
  · nofun
  · split <;> nofun

theorem requireAll_ne_unresolved {classes : List String} {rule template name : String} :
    c.requireAll classes ≠ .error (.unresolvedPlaceholder rule template name) := by
  induction classes with
  | nil => nofun
  | cons first rest ih =>
    intro h
    rcases bind_eq_error_iff.1 h with hfirst | ⟨imports, -, h⟩
    · exact require_ne_unresolved hfirst
    rcases bind_eq_error_iff.1 h with hrest | ⟨more, -, h⟩
    · exact ih hrest
    · exact pure_ne_error h

theorem renderTy_ne_unresolved {ty : Ty} {rule template name : String} :
    c.renderTy ty ≠ .error (.unresolvedPlaceholder rule template name) := by
  intro h
  rcases bind_eq_error_iff.1 h with hclasses | ⟨imports, -, h⟩
  · exact requireAll_ne_unresolved hclasses
  · exact pure_ne_error h

/-- The error is that a used placeholder stands for nothing. -/
structure IsUnresolved (c : RenderContext) (used : List String) (rule template name : String) :
    Prop where
  rule : rule = c.rule
  template : template = c.template
  used : name ∈ used
  unbound : c.bindings.get? name = none

theorem IsUnresolved.mono {used more : List String} {rule template name : String}
    (h : c.IsUnresolved used rule template name) (hsub : used ⊆ more) :
    c.IsUnresolved more rule template name :=
  ⟨h.rule, h.template, hsub h.used, h.unbound⟩

mutual

/-- **An expression is left without text by a placeholder** only if it uses it
and the placeholder stands for nothing. -/
theorem isUnresolved_of_renderExpr {e : Expr} {required : Nat} {rule template name : String}
    (h : c.renderExpr e required = .error (.unresolvedPlaceholder rule template name)) :
    c.IsUnresolved e.placeholderUses rule template name := by
  match e with
  | .placeholder used =>
    rw [renderExpr] at h
    split at h
    · rename_i hunbound
      obtain ⟨rfl, rfl, rfl⟩ := RenderError.unresolvedPlaceholder.inj (Except.error.inj h)
      exact ⟨rfl, rfl, List.mem_singleton_self _, hunbound⟩
    · exact absurd h nofun
  | .localRef _ => exact absurd h nofun
  | .literal _ => exact absurd h nofun
  | .classRef _ =>
    rcases bind_eq_error_iff.1 h with hclass | ⟨imports, -, h⟩
    · exact absurd hclass require_ne_unresolved
    · exact absurd h pure_ne_error
  | .field receiver _ =>
    rcases bind_eq_error_iff.1 h with hreceiver | ⟨r, -, h⟩
    · have hpart := isUnresolved_of_renderExpr hreceiver
      exact hpart
    · exact absurd h pure_ne_error
  | .call receiver _ args =>
    rcases bind_eq_error_iff.1 h with hreceiver | ⟨r, -, h⟩
    · exact (isUnresolved_of_renderExpr hreceiver).mono (List.subset_append_left _ _)
    rcases bind_eq_error_iff.1 h with hargs | ⟨rs, -, h⟩
    · exact (isUnresolved_of_renderArgs hargs).mono (List.subset_append_right _ _)
    · exact absurd h pure_ne_error
  | .methodRef receiver _ =>
    rcases bind_eq_error_iff.1 h with hreceiver | ⟨r, -, h⟩
    · have hpart := isUnresolved_of_renderExpr hreceiver
      exact hpart
    · exact absurd h pure_ne_error
  | .unary _ operand =>
    rcases bind_eq_error_iff.1 h with hoperand | ⟨r, -, h⟩
    · have hpart := isUnresolved_of_renderExpr hoperand
      exact hpart
    · exact absurd h pure_ne_error
  | .binary _ lhs rhs =>
    rcases bind_eq_error_iff.1 h with hlhs | ⟨left, -, h⟩
    · exact (isUnresolved_of_renderExpr hlhs).mono (List.subset_append_left _ _)
    rcases bind_eq_error_iff.1 h with hrhs | ⟨right, -, h⟩
    · exact (isUnresolved_of_renderExpr hrhs).mono (List.subset_append_right _ _)
    · exact absurd h pure_ne_error
  | .cast _ expr =>
    rcases bind_eq_error_iff.1 h with hty | ⟨ty, -, h⟩
    · exact absurd hty renderTy_ne_unresolved
    rcases bind_eq_error_iff.1 h with hexpr | ⟨r, -, h⟩
    · have hpart := isUnresolved_of_renderExpr hexpr
      exact hpart
    · exact absurd h pure_ne_error

theorem isUnresolved_of_renderArgs {es : List Expr} {rule template name : String}
    (h : c.renderArgs es = .error (.unresolvedPlaceholder rule template name)) :
    c.IsUnresolved (Expr.allPlaceholderUses es) rule template name := by
  match es with
  | [] => exact absurd h nofun
  | e :: rest =>
    rcases bind_eq_error_iff.1 h with he | ⟨r, -, h⟩
    · exact (isUnresolved_of_renderExpr he).mono (List.subset_append_left _ _)
    rcases bind_eq_error_iff.1 h with hrest | ⟨rs, -, h⟩
    · exact (isUnresolved_of_renderArgs hrest).mono (List.subset_append_right _ _)
    · exact absurd h pure_ne_error

end

theorem isUnresolved_of_renderStmt {s : Stmt} {rule template name : String}
    (h : c.renderStmt s = .error (.unresolvedPlaceholder rule template name)) :
    ∃ e ∈ s.expr?, c.IsUnresolved e.placeholderUses rule template name := by
  match s with
  | .expr e =>
    rcases bind_eq_error_iff.1 h with he | ⟨r, -, h⟩
    · exact ⟨e, rfl, isUnresolved_of_renderExpr he⟩
    · exact absurd h pure_ne_error
  | .ret none => exact absurd h nofun
  | .ret (some e) =>
    rcases bind_eq_error_iff.1 h with he | ⟨r, -, h⟩
    · exact ⟨e, rfl, isUnresolved_of_renderExpr he⟩
    · exact absurd h pure_ne_error
  | .localVar _ _ none =>
    rcases bind_eq_error_iff.1 h with hty | ⟨ty, -, h⟩
    · exact absurd hty renderTy_ne_unresolved
    · exact absurd h pure_ne_error
  | .localVar _ _ (some e) =>
    rcases bind_eq_error_iff.1 h with hty | ⟨ty, -, h⟩
    · exact absurd hty renderTy_ne_unresolved
    rcases bind_eq_error_iff.1 h with he | ⟨r, -, h⟩
    · exact ⟨e, rfl, isUnresolved_of_renderExpr he⟩
    · exact absurd h pure_ne_error

theorem isUnresolved_of_renderStmts {stmts : List Stmt} {rule template name : String}
    (h : c.renderStmts stmts = .error (.unresolvedPlaceholder rule template name)) :
    ∃ e ∈ stmts.filterMap Stmt.expr?, c.IsUnresolved e.placeholderUses rule template name := by
  induction stmts with
  | nil => exact absurd h nofun
  | cons s rest ih =>
    rcases bind_eq_error_iff.1 h with hs | ⟨r, -, h⟩
    · obtain ⟨e, he, hunresolved⟩ := isUnresolved_of_renderStmt hs
      exact ⟨e, List.mem_filterMap.2 ⟨s, List.mem_cons_self, he⟩, hunresolved⟩
    rcases bind_eq_error_iff.1 h with hrest | ⟨rs, -, h⟩
    · obtain ⟨e, he, hunresolved⟩ := ih hrest
      obtain ⟨s', hs', he⟩ := List.mem_filterMap.1 he
      exact ⟨e, List.mem_filterMap.2 ⟨s', List.mem_cons_of_mem _ hs', he⟩, hunresolved⟩
    · exact absurd h pure_ne_error

end RenderContext

namespace Template

/-- **A template is left without text by a placeholder** only if it refers to
it and the bindings have nothing for it. -/
theorem of_render_eq_unresolved {t : Template} {o : TypeOracle} {source rule rule' : String}
    {template name : String} {b : Bindings} {span : Span} {precedence : Nat}
    (h : t.render o source rule b span precedence =
      .error (.unresolvedPlaceholder rule' template name)) :
    rule' = rule ∧ template = t.name ∧ name ∈ t.referenced ∧ b.get? name = none := by
  have hunresolved : ∃ e ∈ t.body.exprs,
      RenderContext.IsUnresolved ⟨o, source, rule, t.name, b⟩ e.placeholderUses rule' template
        name := by
    unfold render at h
    dsimp only at h
    cases hbody : t.body with
    | expr e =>
      rw [hbody] at h
      exact ⟨e, List.mem_singleton_self _, RenderContext.isUnresolved_of_renderExpr h⟩
    | block stmts =>
      rw [hbody] at h
      rcases bind_eq_error_iff.1 h with hstmts | ⟨r, -, h⟩
      · exact RenderContext.isUnresolved_of_renderStmts hstmts
      · exact absurd h pure_ne_error
  obtain ⟨e, he, hrule, htemplate, hused, hunbound⟩ := hunresolved
  exact ⟨hrule, htemplate, mem_referenced_iff.2 ⟨e, he, hused⟩, hunbound⟩

end Template

/-! ## What failing and imports depend on -/

namespace RenderContext

/-- In both contexts the same placeholders stand for something, and variables for
the same types. -/
structure BindsAlike (c d : RenderContext) : Prop where
  oracle : c.oracle = d.oracle
  rule : c.rule = d.rule
  template : c.template = d.template
  types : c.bindings.types = d.bindings.types
  bound : ∀ name, (c.bindings.get? name).isSome = (d.bindings.get? name).isSome

open Template

variable {c d : RenderContext}

theorem BindsAlike.requireAll_eq (h : c.BindsAlike d) (names : List String) :
    c.requireAll names = d.requireAll names := by
  induction names with
  | nil => rfl
  | cons name names ih => rw [requireAll, requireAll, ih, require, require, h.oracle, h.rule]

theorem BindsAlike.related_renderTy (h : c.BindsAlike d) (ty : Ty) :
    Related (·.imports = ·.imports) (c.renderTy ty) (d.renderTy ty) := by
  rw [renderTy, renderTy, h.types, h.requireAll_eq]
  exact (Related.refl (d.requireAll _)).bind fun _ _ himports => .ok himports

mutual

theorem BindsAlike.related_renderExpr (h : c.BindsAlike d) (e : Expr) (required required' : Nat) :
    Related (·.imports = ·.imports) (c.renderExpr e required) (d.renderExpr e required') := by
  match e with
  | .placeholder name =>
    have hbound := h.bound name
    rw [renderExpr, renderExpr, h.rule, h.template]
    cases hc : c.bindings.get? name <;> cases hd : d.bindings.get? name
    case none.none => exact .error _
    case some.some => exact .ok rfl
    all_goals exact absurd hbound (by simp [hc, hd])
  | .localRef _ => exact .ok rfl
  | .literal _ => exact .ok rfl
  | .classRef name =>
    rw [renderExpr, renderExpr, require, require, h.oracle, h.rule]
    exact (Related.refl (d.require name)).bind fun _ _ himports => .ok himports
  | .field receiver _ =>
    exact (h.related_renderExpr receiver _ _).bind fun _ _ himports => .ok himports
  | .call receiver _ args =>
    exact (h.related_renderExpr receiver _ _).bind fun a b himports =>
      (h.related_renderArgs args).bind fun as bs hrest =>
        .ok (congrArg₂ NameSet.union himports hrest)
  | .methodRef receiver _ =>
    exact (h.related_renderExpr receiver _ _).bind fun _ _ himports => .ok himports
  | .unary _ operand =>
    exact (h.related_renderExpr operand _ _).bind fun _ _ himports => .ok himports
  | .binary _ lhs rhs =>
    exact (h.related_renderExpr lhs _ _).bind fun a b hleft =>
      (h.related_renderExpr rhs _ _).bind fun a' b' hright =>
        .ok (congrArg₂ NameSet.union hleft hright)
  | .cast target expr =>
    exact (h.related_renderTy target).bind fun a b hty =>
      (h.related_renderExpr expr _ _).bind fun a' b' hexpr =>
        .ok (congrArg₂ NameSet.union hty hexpr)

theorem BindsAlike.related_renderArgs (h : c.BindsAlike d) (es : List Expr) :
    Related (·.2 = ·.2) (c.renderArgs es) (d.renderArgs es) := by
  match es with
  | [] => exact .ok rfl
  | e :: rest =>
    exact (h.related_renderExpr e _ _).bind fun a b himports =>
      (h.related_renderArgs rest).bind fun as bs hrest =>
        .ok (congrArg₂ NameSet.union himports hrest)

end

theorem BindsAlike.related_renderStmt (h : c.BindsAlike d) (s : Stmt) :
    Related (·.imports = ·.imports) (c.renderStmt s) (d.renderStmt s) := by
  match s with
  | .expr e => exact (h.related_renderExpr e _ _).bind fun _ _ himports => .ok himports
  | .ret none => exact .ok rfl
  | .ret (some e) => exact (h.related_renderExpr e _ _).bind fun _ _ himports => .ok himports
  | .localVar _ ty none =>
    exact (h.related_renderTy ty).bind fun _ _ hty => .ok hty
  | .localVar _ ty (some e) =>
    exact (h.related_renderTy ty).bind fun a b hty =>
      (h.related_renderExpr e _ _).bind fun a' b' hexpr => .ok (congrArg₂ NameSet.union hty hexpr)

theorem BindsAlike.related_renderStmts (h : c.BindsAlike d) (stmts : List Stmt) :
    Related (·.2 = ·.2) (c.renderStmts stmts) (d.renderStmts stmts) := by
  induction stmts with
  | nil => exact .ok rfl
  | cons s rest ih =>
    exact (h.related_renderStmt s).bind fun a b himports =>
      ih.bind fun as bs hrest => .ok (congrArg₂ NameSet.union himports hrest)

end RenderContext

/-- **Whether a template has a text, and what it imports**, depends on which
placeholders are bound and on the types, and not on where anything lies. -/
theorem Template.related_render {t : Template} {o : TypeOracle} {b b' : Bindings}
    (htypes : b.types = b'.types) (hbound : ∀ name, (b.get? name).isSome = (b'.get? name).isSome)
    (source source' rule : String) (span span' : Span) (precedence precedence' : Nat) :
    Related (·.imports = ·.imports) (t.render o source rule b span precedence)
      (t.render o source' rule b' span' precedence') := by
  have h : RenderContext.BindsAlike ⟨o, source, rule, t.name, b⟩ ⟨o, source', rule, t.name, b'⟩ :=
    ⟨rfl, rfl, rfl, htypes, hbound⟩
  unfold render
  cases t.body with
  | expr e => exact h.related_renderExpr e _ _
  | block stmts => exact (h.related_renderStmts stmts).bind fun _ _ himports => .ok himports

end Codemod
