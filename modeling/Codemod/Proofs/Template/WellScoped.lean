import Codemod.Proofs.Template.Scoping
import Codemod.Tree.Fresh
/-!
# Declared rules are well scoped

What the templates of a declared rule mention is theirs to mention. Placeholders
and receivers are those of `Rule.IsScoped`. A local is mentioned only behind the
statement that declares it, since the scope of a statement holds the locals of
those before it (`TemplateScope.mem_locals_or_declared`), and the value of a local
is read before the local is declared. The templates stand for one kind of code, all
for expressions or all for runs of statements, and one of them is there to match
(`ClassDeclaration.isWellScoped_of_rule`).
-/

namespace Codemod

open Template Outcome

/-! ## Locals -/

/-- Each local that the body mentions is declared by an earlier statement. One
expression declares nothing, so it mentions no local. -/
def Template.Body.DeclaresFirst : Body → Prop
  | .expr e => ∀ name, .localRef name ∉ e.parts
  | .block stmts => ∀ before s after, stmts = before ++ s :: after → ∀ e ∈ s.expr?, ∀ name,
      .localRef name ∈ e.parts → ∃ ty init, Stmt.localVar name ty init ∈ before

namespace TemplateScope

variable {s : TemplateScope} {name : String}

/-- Behind a statement there are the locals before it, and the one it declares. -/
theorem mem_locals_after {n : Node} {stmt : Stmt} (h : s.stmt n = .ok stmt)
    (hname : name ∈ (s.after n).locals) :
    name ∈ s.locals ∨ ∃ ty init, stmt = .localVar name ty init := by
  cases n with
  | localVar _ declared ty init =>
    obtain ⟨init', -, h⟩ := bind_eq_ok_iff.1 h
    obtain rfl := pure_eq_ok_iff.1 h
    rcases List.mem_append.1 hname with hbefore | hdeclared
    · exact .inl hbefore
    · obtain rfl := List.mem_singleton.1 hdeclared
      exact .inr ⟨_, _, rfl⟩
  | _ => exact .inl hname

/-- **A statement mentions locals that were there before all statements, or that an
earlier one declares.** -/
theorem mem_locals_or_declared {ns : List Node} {before after : List Stmt} {stmt : Stmt}
    (h : s.stmts ns = .ok (before ++ stmt :: after)) {e : Expr} (he : e ∈ stmt.expr?)
    (hpart : .localRef name ∈ e.parts) :
    name ∈ s.locals ∨ ∃ ty init, Stmt.localVar name ty init ∈ before := by
  induction before generalizing s ns with
  | nil =>
    cases ns with
    | nil => exact absurd h nofun
    | cons n rest =>
      obtain ⟨first, hfirst, h⟩ := bind_eq_ok_iff.1 h
      obtain ⟨later, -, h⟩ := bind_eq_ok_iff.1 h
      obtain ⟨rfl, rfl⟩ := List.cons.inj (pure_eq_ok_iff.1 h)
      exact .inl (allows_of_stmt hfirst e he _ hpart)
  | cons first before ih =>
    cases ns with
    | nil => exact absurd h nofun
    | cons n rest =>
      obtain ⟨first', hfirst, h⟩ := bind_eq_ok_iff.1 h
      obtain ⟨later, hlater, h⟩ := bind_eq_ok_iff.1 h
      obtain ⟨rfl, rfl⟩ := List.cons.inj (pure_eq_ok_iff.1 h)
      -- The later statements are read in the scope that the first one leaves.
      rcases ih hlater with hscope | ⟨ty, init, hdeclared⟩
      · rcases mem_locals_after hfirst hscope with hbefore | ⟨ty, init, rfl⟩
        · exact .inl hbefore
        · exact .inr ⟨ty, init, List.mem_cons_self⟩
      · exact .inr ⟨ty, init, List.mem_cons_of_mem _ hdeclared⟩

end TemplateScope

namespace ClassDeclaration

/-- **A declared template declares its locals before it mentions them.** -/
theorem declaresFirst_of_template {rule : String} {typeParams : List TypeVar} {head : MethodHead}
    {body : Option Node} {t : Template} (h : template rule typeParams head body = .ok t) :
    t.body.DeclaresFirst := by
  obtain ⟨s, -, hlocals, -, -, hbody⟩ := exists_scope_of_template h
  obtain ⟨_, _, _, e, -, he, hbody⟩ | ⟨_, _, stmts, -, -, hstmts, hbody⟩ := hbody
  · rw [hbody]
    intro name hpart
    have hallowed : name ∈ s.locals := TemplateScope.allows_of_expr he _ hpart
    exact absurd hallowed (by simp [hlocals])
  · rw [hbody]
    rintro before stmt after rfl e he name hpart
    rcases TemplateScope.mem_locals_or_declared hstmts he hpart with hscope | hdeclared
    · exact absurd hscope (by simp [hlocals])
    · exact hdeclared

end ClassDeclaration

/-! ## Rules -/

/-- **The rule is well scoped.** Its templates mention their own placeholders, and
their locals behind the declarations; static calls have the class that declares the
method as receiver. What an After-Template may use is a parameter of some
Before-Template, of which there is one, and all templates are of one kind. -/
structure Rule.IsWellScoped (r : Rule) : Prop extends r.IsScoped where
  locals : ∀ t ∈ r.before ++ r.after, t.body.DeclaresFirst
  before_ne_nil : r.before ≠ []
  oneKind : (∀ t ∈ r.before ++ r.after, ∃ e, t.body = .expr e) ∨
    (∀ t ∈ r.before ++ r.after, ∃ stmts, t.body = .block stmts)

namespace Template

variable {t : Template}

theorem isExpression_eq_true_iff : t.isExpression = true ↔ ∃ e, t.body = .expr e := by
  rw [isExpression]
  split <;> simp_all

theorem isExpression_eq_false_iff : t.isExpression = false ↔ ∃ stmts, t.body = .block stmts := by
  rw [isExpression]
  split <;> simp_all

end Template

namespace ClassDeclaration

/-- **A declared rule is well scoped.** -/
theorem isWellScoped_of_rule {c : ClassDeclaration} {rejectComments : Bool} {r : Rule}
    (h : c.rule rejectComments = .ok r) : r.IsWellScoped := by
  have hread := readAs_of_rule h
  refine ⟨isScoped_of_rule h, fun t ht => ?_, hread.before_ne_nil, ?_⟩
  · obtain ⟨head, body, htemplate⟩ := hread.templates t ht
    exact declaresFirst_of_template htemplate
  · obtain ⟨kind, hkind⟩ := hread.uniform
    cases kind with
    | true => exact .inl fun t ht => isExpression_eq_true_iff.1 (hkind t ht)
    | false => exact .inr fun t ht => isExpression_eq_false_iff.1 (hkind t ht)

/-! ## A number that is kept before it is shown -/

/-- The statement `Log.show(value);`. -/
def showStatement (value : Node) : Node :=
  Fresh.exprStmt (Fresh.call (Fresh.select (Fresh.classRef "com.example.Log") "show")
    ⟨"com.example.Log", "show", true, .plain "void", [], none⟩ [value])

/-- A rule that takes `int t = a; Log.show(t);` to `Log.show(a);`. The uses of the
local and of the parameter are resolved by their spelling. -/
def keptNumber : ClassDeclaration where
  head := ⟨"com.example.KeptNumber", [], []⟩
  members :=
    let head (name marker : String) : MethodHead :=
      ⟨name, [⟨marker, ∅⟩], [], [⟨"a", .plain "int", []⟩], .plain "void"⟩
    [Fresh.methodDecl (head "before" Marker.before) (some (Fresh.block
        [Fresh.localVar "t" (.plain "int") (some (Fresh.ident "a")),
          showStatement (Fresh.ident "t")])),
      Fresh.methodDecl (head "after" Marker.after) (some (Fresh.block
        [showStatement (Fresh.ident "a")]))]

/-- The template expression `Log.show(value)`. -/
def showExpr (value : Expr) : Expr :=
  .call (.classRef "com.example.Log") ⟨"com.example.Log", "show", true⟩ [value]

/-- It is well scoped: `t` is mentioned behind its declaration. -/
theorem isWellScoped_keptNumber :
    ∃ r before after, keptNumber.rule true = .ok r ∧ r.before = [before] ∧ r.after = [after] ∧
      before.body = .block [.localVar "t" (.plain "int") (some (.placeholder "a")),
        .expr (showExpr (.localRef "t"))] ∧
      after.body = .block [.expr (showExpr (.placeholder "a"))] ∧ r.IsWellScoped := by
  have hread : keptNumber.rule true = .ok _ := rfl
  exact ⟨_, _, _, hread, rfl, rfl, rfl, rfl, isWellScoped_of_rule hread⟩

/-- A local is not there yet where its value is read. -/
example : TemplateScope.stmts ⟨"com.example.KeptNumber", "before", ["a"], [], []⟩
    [Fresh.localVar "t" (.plain "int") (some (Fresh.ident "t"))] =
      .error (.unresolvedSymbol "com.example.KeptNumber" "before" "t") := rfl

end ClassDeclaration

end Codemod
