import Codemod.Proofs.Outcome
import Codemod.Proofs.Template.Meeting
import Codemod.Template.Declaration
/-!
# What declared templates mention

A template that is read from a declaration mentions its own names only: its
placeholders are parameters of the method, its locals are declared by earlier
statements, and a static call has as receiver the class that declares the
method. `TemplateScope.Allows` says so of one part of an expression,
`Template.IsScoped` of a template and `Rule.IsScoped` of a rule, and every
declared rule is scoped (`ClassDeclaration.isScoped_of_rule`).
-/

namespace Codemod

open Template Outcome

namespace TemplateScope

variable {s : TemplateScope}

/-- What a part of an expression mentions is in scope. -/
def Allows (s : TemplateScope) : Expr → Prop
  | .placeholder name => name ∈ s.params
  | .localRef name => name ∈ s.locals
  | .call receiver method _ => method.isStatic = true → receiver = .classRef method.owner
  | _ => True

/-- A class on its own is in scope everywhere. -/
theorem allows_classRef {owner : String} : ∀ part ∈ (Expr.classRef owner).parts, s.Allows part := by
  intro part hpart
  obtain rfl := List.mem_singleton.1 hpart
  trivial

theorem allows_placeholder {name : String} (h : s.params.contains name = true) :
    ∀ part ∈ (Expr.placeholder name).parts, s.Allows part := by
  intro part hpart
  obtain rfl := List.mem_singleton.1 hpart
  exact List.contains_iff_mem.1 h

theorem allows_localRef {name : String} (h : s.locals.contains name = true) :
    ∀ part ∈ (Expr.localRef name).parts, s.Allows part := by
  intro part hpart
  obtain rfl := List.mem_singleton.1 hpart
  exact List.contains_iff_mem.1 h

theorem allows_of_ident {name : String} {symbol : Option Symbol} {e : Expr}
    (h : s.ident name symbol = .ok e) : ∀ part ∈ e.parts, s.Allows part := by
  unfold ident at h
  dsimp only at h
  split at h
  · split at h
    · rename_i hparam
      obtain rfl := Except.ok.inj h
      exact allows_placeholder hparam
    · exact absurd h nofun
  · split at h
    · rename_i hlocal
      obtain rfl := Except.ok.inj h
      exact allows_localRef hlocal
    · exact absurd h nofun
  · obtain rfl := Except.ok.inj h
    exact allows_classRef
  · obtain rfl := Except.ok.inj h
    exact List.forall_mem_cons.2 ⟨trivial, allows_classRef⟩
  -- Without a symbol the name is looked up among parameters first.
  · split at h
    · rename_i hparam
      obtain rfl := Except.ok.inj h
      exact allows_placeholder hparam
    · split at h
      · rename_i hlocal
        obtain rfl := Except.ok.inj h
        exact allows_localRef hlocal
      · exact absurd h nofun
  · exact absurd h nofun

mutual

/-- **A resolved expression mentions what is in scope only.** -/
theorem allows_of_expr {n : Node} {e : Expr} (h : s.expr n = .ok e) :
    ∀ part ∈ e.parts, s.Allows part := by
  match n with
  | .paren _ inner => exact allows_of_expr (by simpa only [expr] using h)
  | .literal _ value =>
    obtain rfl := Except.ok.inj h
    intro part hpart
    obtain rfl := List.mem_singleton.1 hpart
    trivial
  | .ident i name => exact allows_of_ident (by simpa only [expr] using h)
  | .select i target name _ =>
    rw [expr] at h
    split at h
    · obtain rfl := Except.ok.inj h
      exact allows_classRef
    · obtain rfl := Except.ok.inj h
      exact List.forall_mem_cons.2 ⟨trivial, allows_classRef⟩
    · obtain ⟨receiver, htarget, h⟩ := bind_eq_ok_iff.1 h
      obtain rfl := pure_eq_ok_iff.1 h
      exact List.forall_mem_cons.2 ⟨trivial, allows_of_expr htarget⟩
    · exact absurd h nofun
  | .call i callee args =>
    rw [expr] at h
    split at h
    · exact absurd h nofun
    rename_i method hmethod
    dsimp only at h
    split at h
    · rename_i hstatic
      -- Whatever the code has for a receiver, a static call gets its class.
      obtain ⟨receiver, hreceiver, h⟩ := bind_eq_ok_iff.1 h
      obtain rfl := Except.ok.inj hreceiver
      obtain ⟨args', hargs, h⟩ := bind_eq_ok_iff.1 h
      obtain rfl := pure_eq_ok_iff.1 h
      exact List.forall_mem_cons.2
        ⟨fun _ => rfl, List.forall_mem_append.2 ⟨allows_classRef, allows_of_exprs hargs⟩⟩
    · rename_i hstatic
      split at h
      · obtain ⟨receiver, hreceiver, h⟩ := bind_eq_ok_iff.1 h
        obtain ⟨args', hargs, h⟩ := bind_eq_ok_iff.1 h
        obtain rfl := pure_eq_ok_iff.1 h
        exact List.forall_mem_cons.2
          ⟨fun hstatic' => absurd hstatic' hstatic,
            List.forall_mem_append.2 ⟨allows_of_expr hreceiver, allows_of_exprs hargs⟩⟩
      · exact absurd h nofun
  | .methodRef i target name =>
    rw [expr] at h
    split at h
    · exact absurd h nofun
    dsimp only at h
    split at h
    · obtain ⟨receiver, hreceiver, h⟩ := bind_eq_ok_iff.1 h
      obtain rfl := Except.ok.inj hreceiver
      obtain rfl := pure_eq_ok_iff.1 h
      exact List.forall_mem_cons.2 ⟨trivial, allows_classRef⟩
    · obtain ⟨receiver, hreceiver, h⟩ := bind_eq_ok_iff.1 h
      obtain rfl := pure_eq_ok_iff.1 h
      exact List.forall_mem_cons.2 ⟨trivial, allows_of_expr hreceiver⟩
  | .unary _ op operand =>
    obtain ⟨operand', hoperand, h⟩ := bind_eq_ok_iff.1 h
    obtain rfl := pure_eq_ok_iff.1 h
    exact List.forall_mem_cons.2 ⟨trivial, allows_of_expr hoperand⟩
  | .binary _ op lhs rhs =>
    obtain ⟨lhs', hlhs, h⟩ := bind_eq_ok_iff.1 h
    obtain ⟨rhs', hrhs, h⟩ := bind_eq_ok_iff.1 h
    obtain rfl := pure_eq_ok_iff.1 h
    exact List.forall_mem_cons.2
      ⟨trivial, List.forall_mem_append.2 ⟨allows_of_expr hlhs, allows_of_expr hrhs⟩⟩
  | .cast _ target inner =>
    obtain ⟨inner', hinner, h⟩ := bind_eq_ok_iff.1 h
    obtain rfl := pure_eq_ok_iff.1 h
    exact List.forall_mem_cons.2 ⟨trivial, allows_of_expr hinner⟩
  | .block .. | .exprStmt .. | .ret .. | .localVar .. | .ifElse .. | .whileLoop .. | .doWhile ..
  | .synchronized .. | .methodDecl .. | .classDecl .. | .unit .. => exact absurd h nofun

theorem allows_of_exprs {ns : List Node} {es : List Expr} (h : s.exprs ns = .ok es) :
    ∀ part ∈ Expr.allParts es, s.Allows part := by
  match ns with
  | [] =>
    obtain rfl := Except.ok.inj h
    exact fun _ hpart => absurd hpart List.not_mem_nil
  | n :: rest =>
    obtain ⟨e, he, h⟩ := bind_eq_ok_iff.1 h
    obtain ⟨es', hes, h⟩ := bind_eq_ok_iff.1 h
    obtain rfl := pure_eq_ok_iff.1 h
    exact List.forall_mem_append.2 ⟨allows_of_expr he, allows_of_exprs hes⟩

end

/-! ## Statements -/

theorem allows_of_stmt {n : Node} {stmt : Stmt} (h : s.stmt n = .ok stmt) :
    ∀ e ∈ stmt.expr?, ∀ part ∈ e.parts, s.Allows part := by
  have hoption : ∀ {init : Option Node} {e? : Option Expr}, s.expr? init = .ok e? →
      ∀ e ∈ e?, ∀ part ∈ e.parts, s.Allows part := by
    intro init e? h e he
    cases init with
    | none =>
      obtain rfl := Except.ok.inj h
      exact absurd he (by simp)
    | some n =>
      obtain ⟨e', he', h⟩ := bind_eq_ok_iff.1 h
      obtain rfl := pure_eq_ok_iff.1 h
      obtain rfl := Option.some.inj he
      exact allows_of_expr he'
  cases n
  case exprStmt =>
    obtain ⟨e', he', h⟩ := bind_eq_ok_iff.1 h
    obtain rfl := pure_eq_ok_iff.1 h
    intro e he
    obtain rfl := Option.some.inj he
    exact allows_of_expr he'
  case ret =>
    obtain ⟨e?, he, h⟩ := bind_eq_ok_iff.1 h
    obtain rfl := pure_eq_ok_iff.1 h
    exact hoption he
  case localVar =>
    obtain ⟨e?, he, h⟩ := bind_eq_ok_iff.1 h
    obtain rfl := pure_eq_ok_iff.1 h
    exact hoption he
  all_goals exact absurd h nofun

/-- Statements do not change which names are parameters. -/
theorem params_after (n : Node) : (s.after n).params = s.params := by
  cases n <;> rfl

/-- **Each expression of resolved statements is resolved in a scope** with the
parameters of the first. -/
theorem exists_scope_of_stmts {ns : List Node} {stmts : List Stmt} (h : s.stmts ns = .ok stmts) :
    ∀ e ∈ stmts.filterMap Stmt.expr?, ∃ s' : TemplateScope, s'.params = s.params ∧
      ∀ part ∈ e.parts, s'.Allows part := by
  induction ns generalizing s stmts with
  | nil =>
    obtain rfl := Except.ok.inj h
    exact fun _ he => absurd he List.not_mem_nil
  | cons n rest ih =>
    obtain ⟨stmt, hstmt, h⟩ := bind_eq_ok_iff.1 h
    obtain ⟨rest', hrest, h⟩ := bind_eq_ok_iff.1 h
    obtain rfl := pure_eq_ok_iff.1 h
    intro e he
    obtain ⟨stmt', hmem, hexpr⟩ := List.mem_filterMap.1 he
    -- Later statements are resolved where the first has declared its local.
    rcases List.mem_cons.1 hmem with rfl | hmem
    · exact ⟨s, rfl, allows_of_stmt hstmt e hexpr⟩
    · obtain ⟨s', hparams, hallows⟩ := ih hrest e (List.mem_filterMap.2 ⟨stmt', hmem, hexpr⟩)
      exact ⟨s', hparams.trans (params_after n), hallows⟩

end TemplateScope

/-! ## Templates -/

namespace Template

/-- The names that may be used as placeholders. -/
def paramNames (t : Template) : List String := t.params.map (·.name)

/-- **The body mentions the template's own parameters**, and every static call
has the class that declares the method as receiver. -/
structure IsScoped (t : Template) : Prop where
  placeholders : ∀ e ∈ t.body.exprs, ∀ name, .placeholder name ∈ e.parts → name ∈ t.paramNames
  receivers : ∀ e ∈ t.body.exprs, ∀ receiver method args, .call receiver method args ∈ e.parts →
    method.isStatic = true → receiver = .classRef method.owner

theorem IsScoped.hasClassReceivers {t : Template} (h : t.IsScoped) {e : Expr}
    (he : e ∈ t.body.exprs) : Expr.HasClassReceivers e.parts :=
  fun receiver method args hcall hstatic =>
    ⟨method.owner, h.receivers e he receiver method args hcall hstatic⟩

mutual

theorem Expr.placeholder_mem_parts {e : Expr} {name : String} (h : name ∈ e.placeholderUses) :
    .placeholder name ∈ e.parts := by
  match e with
  | .placeholder _ =>
    obtain rfl := List.mem_singleton.1 h
    exact List.mem_singleton_self _
  | .localRef _ | .literal _ | .classRef _ => exact absurd h List.not_mem_nil
  | .field receiver _ => exact List.mem_cons_of_mem _ (Expr.placeholder_mem_parts h)
  | .methodRef receiver _ => exact List.mem_cons_of_mem _ (Expr.placeholder_mem_parts h)
  | .call receiver _ args =>
    rcases List.mem_append.1 h with hreceiver | hargs
    · exact parts_left_subset _ _ _ (Expr.placeholder_mem_parts hreceiver)
    · exact parts_right_subset _ _ _ (Expr.placeholder_mem_allParts hargs)
  | .unary _ operand => exact List.mem_cons_of_mem _ (Expr.placeholder_mem_parts h)
  | .binary _ lhs rhs =>
    rcases List.mem_append.1 h with hlhs | hrhs
    · exact parts_left_subset _ _ _ (Expr.placeholder_mem_parts hlhs)
    · exact parts_right_subset _ _ _ (Expr.placeholder_mem_parts hrhs)
  | .cast _ expr => exact List.mem_cons_of_mem _ (Expr.placeholder_mem_parts h)

theorem Expr.placeholder_mem_allParts {es : List Expr} {name : String}
    (h : name ∈ allPlaceholderUses es) : .placeholder name ∈ allParts es := by
  match es with
  | [] => exact absurd h List.not_mem_nil
  | e :: rest =>
    rcases List.mem_append.1 h with he | hrest
    · exact List.mem_append_left _ (Expr.placeholder_mem_parts he)
    · exact List.mem_append_right _ (Expr.placeholder_mem_allParts hrest)

end

theorem mem_referenced_iff {t : Template} {name : String} :
    name ∈ t.referenced ↔ ∃ e ∈ t.body.exprs, name ∈ e.placeholderUses := by
  rw [referenced, List.mem_eraseDups, List.mem_flatMap]

/-- What a scoped template refers to are its parameters. -/
theorem IsScoped.referenced_subset {t : Template} (h : t.IsScoped) :
    t.referenced ⊆ t.paramNames := by
  intro name hname
  obtain ⟨e, he, huse⟩ := mem_referenced_iff.1 hname
  exact h.placeholders e he name (Expr.placeholder_mem_parts huse)

/-- **An instance of a scoped template binds all placeholders** that the
template refers to. -/
theorem IsScoped.isSome_of_mem_instances {t : Template} (h : t.IsScoped) {o : TypeOracle}
    {code : Node} {parent : Option Node} {i : Instance} (hi : i ∈ t.instances o code parent)
    {name : String} (hname : name ∈ t.referenced) : (i.bindings.get? name).isSome = true := by
  obtain ⟨e, he, huse⟩ := mem_referenced_iff.1 hname
  cases hbody : t.body with
  | expr e' =>
    obtain ⟨-, -, ds, b, hagrees, hmeet, rfl⟩ := (mem_instances_expr_iff hbody).1 hi
    rw [hbody] at he
    obtain rfl := List.mem_singleton.1 he
    have hclass := h.hasClassReceivers (by rw [hbody]; exact List.mem_singleton_self e)
    rw [← hagrees.usedNames hclass] at huse
    obtain ⟨u, hu, rfl⟩ := List.mem_map.1 huse
    have huses : (u.1, u.2) ∈ Demand.uses (ds ++ t.resultDemands code) := by
      rw [Demand.uses_append]
      exact List.mem_append_left _ hu
    exact Demand.isSome_of_meetAll? hmeet huses
  | block stmts =>
    obtain ⟨-, info, codes, -, window, -, ds, b, hagrees, hmeet, rfl⟩ :=
      (mem_instances_block_iff hbody).1 hi
    rw [hbody] at he
    have hclass : ∀ e ∈ stmts.filterMap Stmt.expr?, Expr.HasClassReceivers e.parts :=
      fun e he => h.hasClassReceivers (by rw [hbody]; exact he)
    have huse' : name ∈ (Demand.uses ds).map (·.1) := by
      rw [hagrees.usedNames hclass]
      exact List.mem_flatMap.2 ⟨e, he, huse⟩
    obtain ⟨u, hu, rfl⟩ := List.mem_map.1 huse'
    exact Demand.isSome_of_meetAll? hmeet hu

end Template

namespace ClassDeclaration

theorem isScoped_of_scopes {t : Template} {params : List String} (hnames : t.paramNames = params)
    (h : ∀ e ∈ t.body.exprs, ∃ s : TemplateScope, s.params = params ∧
      ∀ part ∈ e.parts, s.Allows part) : t.IsScoped where
  placeholders e he name hpart := by
    obtain ⟨s, hparams, hallows⟩ := h e he
    rw [hnames, ← hparams]
    exact hallows _ hpart
  receivers e he receiver method args hpart := by
    obtain ⟨s, -, hallows⟩ := h e he
    exact hallows _ hpart

/-- **What a method is read as**: its parameters become placeholders of their
types, and its body, read where no local is declared, the returned expression or a
block. -/
theorem exists_scope_of_template {rule : String} {typeParams : List TypeVar} {head : MethodHead}
    {body : Option Node} {t : Template} (h : template rule typeParams head body = .ok t) :
    ∃ s : TemplateScope, s.params = head.params.map (·.name) ∧ s.locals = [] ∧
      t.params.map (fun p => (p.name, p.ty)) =
        head.params.map (fun p => (p.name, TemplateScope.resolveTy s.typeParams p.ty)) ∧
      t.returnType = TemplateScope.resolveTy s.typeParams head.returnType ∧
      ((∃ info retInfo e e', body = some (.block info [.ret retInfo (some e)]) ∧
          s.expr e = .ok e' ∧ t.body = .expr e') ∨
        (∃ info codes stmts, body = some (.block info codes) ∧
          (∀ retInfo e, codes ≠ [.ret retInfo (some e)]) ∧ s.stmts codes = .ok stmts ∧
          t.body = .block stmts)) := by
  unfold template at h
  obtain ⟨params, hparams, hread⟩ := bind_eq_ok_iff.1 h
  have hshow : params.map (fun p => (p.name, p.ty)) = head.params.map
      (fun p => (p.name, TemplateScope.resolveTy (typeParams ++ head.typeParams) p.ty)) := by
    refine map_of_mapM_eq_ok hparams fun p q hq => ?_
    obtain ⟨guard, -, hq⟩ := bind_eq_ok_iff.1 hq
    obtain rfl := pure_eq_ok_iff.1 hq
    rfl
  refine ⟨⟨rule, head.name, head.params.map (·.name), typeParams ++ head.typeParams, []⟩, rfl,
    rfl, ?_⟩
  dsimp only at hread
  split at hread
  · exact absurd hread nofun
  · rename_i info retInfo e
    obtain ⟨e', he, hread⟩ := bind_eq_ok_iff.1 hread
    obtain ⟨body', hbody, hread⟩ := bind_eq_ok_iff.1 hread
    obtain rfl := pure_eq_ok_iff.1 hbody
    obtain rfl := pure_eq_ok_iff.1 hread
    exact ⟨hshow, rfl, .inl ⟨info, retInfo, e, e', rfl, he, rfl⟩⟩
  · rename_i info codes hcodes
    obtain ⟨stmts, hstmts, hread⟩ := bind_eq_ok_iff.1 hread
    obtain rfl := pure_eq_ok_iff.1 hread
    refine ⟨hshow, rfl, .inr ⟨info, codes, stmts, rfl, ?_, hstmts, rfl⟩⟩
    rintro retInfo e rfl
    exact hcodes _ _ rfl
  · exact absurd hread nofun

/-- **A declared template is scoped.** -/
theorem isScoped_of_template {rule : String} {typeParams : List TypeVar} {head : MethodHead}
    {body : Option Node} {t : Template} (h : template rule typeParams head body = .ok t) :
    t.IsScoped := by
  obtain ⟨s, hs, -, hparams, -, hbody⟩ := exists_scope_of_template h
  have hnames : t.paramNames = s.params := by
    rw [hs, paramNames]
    simpa [List.map_map, Function.comp_def] using congrArg (List.map Prod.fst) hparams
  obtain ⟨_, _, _, e, -, he, hbody⟩ | ⟨_, _, stmts, -, -, hstmts, hbody⟩ := hbody
  · refine isScoped_of_scopes hnames fun e' hmem => ?_
    rw [hbody] at hmem
    obtain rfl := List.mem_singleton.1 hmem
    exact ⟨s, rfl, TemplateScope.allows_of_expr he⟩
  · refine isScoped_of_scopes hnames ?_
    rw [hbody]
    exact TemplateScope.exists_scope_of_stmts hstmts

end ClassDeclaration

/-! ## Rules -/

/-- **The rule mentions its own names only**: its templates are scoped, and what
an After-Template may use is a parameter of some Before-Template. -/
structure Rule.IsScoped (r : Rule) : Prop where
  templates : ∀ t ∈ r.before ++ r.after, t.IsScoped
  declared : ∀ t ∈ r.after, ∀ name ∈ t.paramNames, ∃ b ∈ r.before, name ∈ b.paramNames

namespace ClassDeclaration

variable {c : ClassDeclaration}

/-- The templates of a class are read from its methods. -/
theorem exists_method_of_mem_onSide {ts : List (Side × Template)} (h : c.templates = .ok ts)
    {side : Side} {t : Template} (ht : t ∈ onSide side ts) :
    ∃ head body, template c.name c.head.typeParams head body = .ok t := by
  obtain ⟨⟨side', t'⟩, hmem, rfl⟩ := List.mem_map.1 ht
  obtain ⟨⟨side'', head, body⟩, -, hmethod⟩ :=
    exists_of_mapM_eq_ok h (List.mem_filter.1 hmem).1
  obtain ⟨t'', ht'', hmethod⟩ := bind_eq_ok_iff.1 hmethod
  obtain ⟨rfl, rfl⟩ := Prod.mk.inj (pure_eq_ok_iff.1 hmethod)
  exact ⟨head, body, ht''⟩

/-- The rule is what the class is read as: it has the templates of the class, and
they passed the checks that a rule makes of its templates together. -/
structure ReadAs (c : ClassDeclaration) (rejectComments : Bool) (r : Rule) : Prop where
  name : r.name = c.name
  descriptor : r.descriptor = c.descriptor rejectComments
  templates : ∀ t ∈ r.before ++ r.after,
    ∃ head body, template c.name c.head.typeParams head body = .ok t
  before_ne_nil : r.before ≠ []
  declared : ∀ t ∈ r.after, ∀ name ∈ t.paramNames, ∃ b ∈ r.before, name ∈ b.paramNames
  uniform : ∃ kind, ∀ t ∈ r.before ++ r.after, t.isExpression = kind

/-- **What a class is read as.** -/
theorem readAs_of_rule {rejectComments : Bool} {r : Rule} (h : c.rule rejectComments = .ok r) :
    c.ReadAs rejectComments r := by
  unfold rule at h
  obtain ⟨ts, hts, h⟩ := bind_eq_ok_iff.1 h
  dsimp only at h
  split at h
  · exact absurd h nofun
  rename_i first others hbefore
  obtain ⟨first', hfirst, h⟩ := bind_eq_ok_iff.1 h
  obtain rfl := Except.ok.inj hfirst
  obtain ⟨_, hparams, h⟩ := bind_eq_ok_iff.1 h
  split at h
  · exact absurd h nofun
  rename_i hodd
  obtain rfl := pure_eq_ok_iff.1 h
  refine ⟨rfl, rfl, fun t ht => ?_, ?_, fun t ht name hname => ?_, first.isExpression, ?_⟩
  · rcases List.mem_append.1 ht with hmem | hmem
    · exact exists_method_of_mem_onSide hts hmem
    · exact exists_method_of_mem_onSide hts hmem
  · exact hbefore ▸ List.cons_ne_nil _ _
  · obtain ⟨p, hp, rfl⟩ := List.mem_map.1 hname
    have hcheck := forM_eq_ok_iff.1 (forM_eq_ok_iff.1 hparams t ht) p hp
    split at hcheck
    · rename_i hdeclared
      obtain ⟨b, hb, hpname⟩ := List.mem_flatMap.1 (List.contains_iff_mem.1 hdeclared)
      exact ⟨b, hb, hpname⟩
    · exact absurd hcheck nofun
  · intro t ht
    have hkind := List.find?_eq_none.1 hodd t ht
    simpa using hkind

/-- **A declared rule is scoped.** -/
theorem isScoped_of_rule {rejectComments : Bool} {r : Rule} (h : c.rule rejectComments = .ok r) :
    r.IsScoped := by
  have hread := readAs_of_rule h
  refine ⟨fun t ht => ?_, hread.declared⟩
  obtain ⟨head, body, htemplate⟩ := hread.templates t ht
  exact isScoped_of_template htemplate

end ClassDeclaration

end Codemod
