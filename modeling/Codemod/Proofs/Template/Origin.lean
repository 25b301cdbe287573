import Codemod.Proofs.Dict
import Codemod.Proofs.Template.Scoping
import Codemod.Proofs.Tree.Shape
import Codemod.Proofs.Types.Inference
import Codemod.Tree.Fresh
/-!
# A template matches the code it was written from

A template is read from the body of a method. Matched against that body again
it has one instance, in which every placeholder stands for the first reference
to its parameter and every local for itself
(`ClassDeclaration.instances_of_template`). This needs a body that is resolved
as a front end resolves it: `Node.ResolvedIn` says what that means of one
expression or statement.

Reading the body and matching it take the same tree apart, so the two are
related construct by construct (`TemplateScope.agreesWithOwn_of_expr`). What
agreement asks for on the way are demands of a special kind, `Demand.IsOwn`: a
parameter is used for a reference to itself, a local stands for itself, a type
agrees with itself. Such demands can always be met.
-/

namespace Codemod

open Template Outcome

/-! ## Code as it is evaluated -/

namespace Node

/-- The node calls or refers to a static method. -/
def isStaticCall (n : Node) : Bool := n.methodSymbol?.any (·.isStatic)

mutual

/-- The statements and expressions of code that are evaluated, each before its
parts. A class that a member is selected on is only named. -/
def evaluated : Node → List Node
  | .select i target name nameSpan =>
    .select i target name nameSpan ::
      match i.symbol with
      | some (.ofField _ _ false) => evaluated target
      | _ => []
  | .call i callee args =>
    .call i callee args ::
      ((match callee with
        | .select _ target _ _ =>
          if (Node.call i callee args).isStaticCall then [] else evaluated target
        | _ => []) ++ allEvaluated args)
  | .methodRef i target name =>
    .methodRef i target name ::
      match target.symbol? with
      | some (.ofClass _) => []
      | _ => evaluated target
  | .unary i op operand => .unary i op operand :: evaluated operand
  | .binary i op lhs rhs => .binary i op lhs rhs :: (evaluated lhs ++ evaluated rhs)
  | .cast i target expr => .cast i target expr :: evaluated expr
  | .paren i expr => .paren i expr :: evaluated expr
  | .exprStmt i expr => .exprStmt i expr :: evaluated expr
  | .ret i (some expr) => .ret i (some expr) :: evaluated expr
  | .localVar i name declared (some init) =>
    .localVar i name declared (some init) :: evaluated init
  | .block i stmts => .block i stmts :: allEvaluated stmts
  | n => [n]
termination_by structural n => n

/-- What is evaluated in several nodes. -/
def allEvaluated : List Node → List Node
  | [] => []
  | n :: rest => evaluated n ++ allEvaluated rest
termination_by structural ns => ns

end

theorem mem_evaluated_self (n : Node) : n ∈ n.evaluated := by
  unfold evaluated
  split <;> exact List.mem_cons_self

theorem allEvaluated_subset_evaluated (i : NodeInfo) (callee : Node) (args : List Node) :
    allEvaluated args ⊆ (Node.call i callee args).evaluated := by
  rw [evaluated.eq_def]
  exact fun _ hm => List.mem_cons_of_mem _ (List.mem_append_right _ hm)

theorem evaluated_call_ident {i calleeInfo : NodeInfo} {name : String} {args : List Node} :
    (Node.call i (.ident calleeInfo name) args).evaluated =
      .call i (.ident calleeInfo name) args :: allEvaluated args := rfl

theorem evaluated_call_select {i calleeInfo : NodeInfo} {target : Node} {name : String}
    {nameSpan : Span} {args : List Node} {method : MethodSymbol}
    (h : (Node.call i (.select calleeInfo target name nameSpan) args).methodSymbol? =
      some method) :
    (Node.call i (.select calleeInfo target name nameSpan) args).evaluated =
      .call i (.select calleeInfo target name nameSpan) args ::
        ((if method.isStatic then [] else target.evaluated) ++ allEvaluated args) := by
  have hstatic : (Node.call i (.select calleeInfo target name nameSpan) args).isStaticCall =
      method.isStatic := by
    rw [isStaticCall, h, Option.any_some]
  rw [← hstatic]
  rfl

theorem evaluated_methodRef {i : NodeInfo} {target : Node} {name : String}
    (h : ∀ cls, target.symbol? ≠ some (.ofClass cls)) :
    (Node.methodRef i target name).evaluated = .methodRef i target name :: target.evaluated := by
  rw [evaluated]
  split
  · exact absurd (by assumption) (h _)
  · rfl

/-- The parameter that an identifier refers to, with the identifier. One that
is not resolved can only be a parameter. -/
def reference? : Node → Option (String × Node)
  | .ident i name =>
    match i.symbol with
    | some (.ofParam param) => some (param, .ident i name)
    | none => some (name, .ident i name)
    | _ => none
  | _ => none

/-- The references to parameters in code, in source order. -/
def references (n : Node) : List (String × Node) := n.evaluated.filterMap reference?

/-- The name is a parameter's, and the type the one it is declared with. -/
def IsTypedParam (params : List Param) (name : String) (ty : Option Ty) : Prop :=
  ∃ p, params.find? (·.name == name) = some p ∧ ty = some p.ty

/-- **The node is resolved as a front end resolves it**, below a method with
these parameters: a reference to a parameter is spelled like the parameter and
has its type; a reference to a local carries the local; a static member is
selected on its class or imported under its name; a method is called by an
identifier or a selection; a class is referred to by an identifier or a
selection. No constant is a floating-point number, and no type has
variables. -/
def ResolvedIn (params : List Param) : Node → Prop
  | .literal _ value => ∀ x, value ≠ .float x
  | .ident i name =>
    match i.symbol with
    | some (.ofParam param) => name = param ∧ IsTypedParam params param i.ty
    | none => IsTypedParam params name i.ty
    | some (.ofField _ field true) => name = field
    | _ => True
  | .select i target _ _ =>
    match i.symbol with
    | some (.ofField owner _ true) => refersToClass owner target.skipParens = true
    | _ => True
  | .call i callee args =>
    match callee with
    | .select _ target _ _ => ∀ method, (Node.call i callee args).methodSymbol? = some method →
        method.isStatic = true → refersToClass method.owner target.skipParens = true
    | .ident .. => True
    | _ => False
  | .methodRef _ target _ =>
    match target.symbol? with
    | some (.ofClass name) => refersToClass name target.skipParens = true
    | _ => True
  | .cast _ ty _ | .localVar _ _ ty _ => ty.mentionsVar = false
  | _ => True

end Node

/-! ## Demands that code makes of its own template -/

namespace Template

variable {o : TypeOracle} {t : Template}

/-- Agreement does not see grouping parentheses around the code. -/
theorem Agrees.of_skipParens_eq {e : Expr} {code code' : Node} {parent : Option Node}
    {ds : List Demand} (h : Agrees o e code parent ds) (heq : code'.skipParens = code.skipParens) :
    Agrees o e code' parent ds := by
  cases h with
  | placeholder => exact heq ▸ .placeholder
  | localRef hcode hsymbol => exact .localRef (heq.trans hcode) hsymbol
  | literal hcode hvalue => exact .literal (heq.trans hcode) hvalue
  | classRef hcode => exact .classRef (heq ▸ hcode)
  | field hcode hreceiver => exact .field (heq.trans hcode) (heq ▸ hreceiver)
  | importedField hcode hsymbol => exact .importedField (heq.trans hcode) hsymbol
  | call hcode hcalled hdenotes hreceiver hargs =>
    exact .call (heq.trans hcode) (heq ▸ hcalled) hdenotes (heq ▸ hreceiver) (heq ▸ hargs)
  | importedCall hcode hstatic hcalled hdenotes hargs =>
    exact .importedCall (heq.trans hcode) hstatic (heq ▸ hcalled) hdenotes (heq ▸ hargs)
  | methodRef hcode hcalled hdenotes hreceiver =>
    exact .methodRef (heq.trans hcode) (heq ▸ hcalled) hdenotes (heq ▸ hreceiver)
  | unary hcode hoperand => exact .unary (heq.trans hcode) (heq ▸ hoperand)
  | binary hcode hlhs hrhs => exact .binary (heq.trans hcode) (heq ▸ hlhs) (heq ▸ hrhs)
  | cast hcode hexpr => exact .cast (heq.trans hcode) (heq ▸ hexpr)

/-- A method is denoted by its own key. -/
theorem denotes_methodKey (method : MethodSymbol) :
    (TemplateScope.methodKey method).denotes o method = true := by
  simp [TemplateScope.methodKey, MethodKey.denotes]

namespace Demand

/-- The demand is one that code makes of the template written from it. -/
inductive IsOwn (t : Template) : Demand → Prop
  | use {name : String} {info : NodeInfo} {parent : Option Node} {p : Placeholder} :
      t.placeholder? name = some p → info.ty = some p.ty →
      IsOwn t (.use name (.ident info name) parent)
  | rename {name : String} : IsOwn t (.rename name name)
  | agree {ty : Ty} : ty.mentionsVar = false → IsOwn t (.agree ty ty)
  | fit {ty : Ty} : ty.mentionsVar = false → IsOwn t (.fit ty ty)

end Demand

/-- Every placeholder is bound to a reference to it, and every local stands for
itself. -/
structure BoundToSelf (b : Bindings) : Prop where
  exprs : ∀ name bound, b.get? name = some bound → ∃ info, bound.node = .ident info name
  locals : ∀ name code, b.locals.get? name = some code → code = name

theorem boundToSelf_empty : BoundToSelf .empty where
  exprs _ _ hbound := absurd hbound (by simp)
  locals _ _ hcode := absurd hcode nofun

/-- A local may stand for itself when every other one does. -/
theorem BoundToSelf.exists_bindLocal? {b : Bindings} (hb : BoundToSelf b) (name : String) :
    ∃ b', b.bindLocal? name name = some b' ∧ BoundToSelf b' := by
  unfold Bindings.bindLocal?
  split
  · rename_i code hcode
    obtain rfl := hb.locals _ _ hcode
    exact ⟨b, by rw [if_pos rfl], hb⟩
  · rename_i hnew
    -- No other local stands for it, since that one stands for itself.
    have hfree : b.locals.values.contains name = false := by
      rw [Bool.eq_false_iff]
      intro hmem
      obtain ⟨⟨key, value⟩, hentry, rfl⟩ := List.mem_map.1 (List.contains_iff_mem.1 hmem)
      have hget := Dict.mem_entries_iff.1 hentry
      obtain rfl := hb.locals _ _ hget
      exact absurd hget (by rw [hnew]; simp)
    rw [hfree]
    refine ⟨_, rfl, hb.exprs, fun other code hcode => ?_⟩
    rw [Dict.get?_insert] at hcode
    split at hcode
    · rename_i hother
      rw [hother]
      exact (Option.some.inj hcode).symm
    · exact hb.locals other code hcode

end Template

namespace Hierarchy

/-- A value may stand where its own type is declared. -/
theorem assignable_self {h : Hierarchy} {ty : Ty} (hclosed : ty.mentionsVar = false) :
    h.Assignable ty ty := by
  cases ty with
  | var _ _ _ => exact absurd hclosed (by simp [Ty.mentionsVar])
  | named name args =>
    cases args with
    | nil => exact .inl ⟨rfl, isConvertible_refl _⟩
    | cons arg rest => exact .inr ⟨by simp [Ty.args], name, rfl, asSuper_self _ _⟩

end Hierarchy

namespace Template

variable {h : Hierarchy} {t : Template}

/-- No parameter of the template has a guard, and no type has variables. -/
structure IsClosed (t : Template) : Prop where
  unguarded : ∀ p ∈ t.params, p.guard = none
  closedParams : ∀ p ∈ t.params, p.ty.mentionsVar = false

/-- **An own demand can be met**, and keeps all names standing for
themselves. -/
theorem Demand.IsOwn.exists_meet? {d : Demand} (hd : d.IsOwn t) (ht : t.IsClosed) {b : Bindings}
    (hb : BoundToSelf b) : ∃ b', d.meet? h.oracle t b = some b' ∧ BoundToSelf b' := by
  cases hd with
  | @use name info parent p hp hty =>
    have hmem : p ∈ t.params := List.mem_of_find?_eq_some hp
    cases hbound : b.get? name with
    | some bound =>
      -- References to one parameter are spelled alike.
      obtain ⟨info', hnode⟩ := hb.exprs name bound hbound
      refine ⟨b, matchPlaceholder?_eq_some_iff.2 ⟨p, hp, rfl, .inl ⟨bound, hbound, ?_, rfl⟩⟩, hb⟩
      rw [hnode]
      exact beq_self_eq_true name
    | none =>
      refine ⟨_, matchPlaceholder?_eq_some_iff.2 ⟨p, hp, rfl, .inr ⟨hbound, p.ty, b.types, hty,
        (Hierarchy.assign?_eq_some_iff (ht.closedParams p hmem)).2
          ⟨Hierarchy.assignable_self (ht.closedParams p hmem), rfl⟩,
        fun guard hguard => absurd hguard (by rw [ht.unguarded p hmem]; simp), rfl⟩⟩, ?_⟩
      refine ⟨fun other bound hother => ?_, hb.locals⟩
      rw [Bindings.get?_bindExpr] at hother
      split at hother
      · rename_i hname
        obtain rfl := Option.some.inj hother
        exact ⟨info, by rw [hname]⟩
      · exact hb.exprs other bound hother
  | rename =>
    exact hb.exists_bindLocal? _
  | agree hclosed =>
    exact ⟨b, Option.map_eq_some_iff.2
      ⟨b.types, (TypeOracle.agree?_eq_some_iff hclosed).2 ⟨rfl, rfl⟩, rfl⟩, hb⟩
  | fit hclosed =>
    exact ⟨b, Option.map_eq_some_iff.2 ⟨b.types, (Hierarchy.assign?_eq_some_iff hclosed).2
      ⟨Hierarchy.assignable_self hclosed, rfl⟩, rfl⟩, hb⟩

/-- **Own demands can all be met.** -/
theorem exists_meetAll?_of_isOwn (ht : t.IsClosed) {ds : List Demand} (hds : ∀ d ∈ ds, d.IsOwn t)
    {b : Bindings} (hb : BoundToSelf b) :
    ∃ b', Demand.meetAll? h.oracle t ds b = some b' ∧ BoundToSelf b' := by
  induction ds generalizing b with
  | nil => exact ⟨b, rfl, hb⟩
  | cons d ds ih =>
    obtain ⟨hd, hrest⟩ := List.forall_mem_cons.1 hds
    obtain ⟨middle, hmeet, hmiddle⟩ := hd.exists_meet? ht hb
    obtain ⟨b', hall, hb'⟩ := ih hrest hmiddle
    exact ⟨b', Option.bind_eq_some_iff.2 ⟨middle, hmeet, hall⟩, hb'⟩

end Template

/-! ## Reading code and matching it -/

namespace TemplateScope

variable {o : TypeOracle} {s : TemplateScope} {params : List Param} {t : Template}

mutual

/-- A type without variables is read as it stands. -/
theorem resolveTy_eq_self (typeParams : List TypeVar) {ty : Ty} (h : ty.mentionsVar = false) :
    resolveTy typeParams ty = ty := by
  match ty with
  | .named name args =>
    rw [resolveTy, resolveTys_eq_self typeParams (by simpa only [Ty.mentionsVar] using h)]
  | .var _ _ _ => exact absurd h (by simp [Ty.mentionsVar])

theorem resolveTys_eq_self (typeParams : List TypeVar) {tys : List Ty}
    (h : Ty.anyMentionsVar tys = false) : resolveTys typeParams tys = tys := by
  match tys with
  | [] => rfl
  | ty :: rest =>
    rw [Ty.anyMentionsVar, Bool.or_eq_false_iff] at h
    rw [resolveTys, resolveTy_eq_self typeParams h.1, resolveTys_eq_self typeParams h.2]

end

/-- The template declares the parameters as placeholders with their types. -/
def Declares (params : List Param) (t : Template) : Prop :=
  ∀ name p, params.find? (·.name == name) = some p →
    ∃ q, t.placeholder? name = some q ∧ q.ty = p.ty

/-- Code agrees with what is read from it, by own demands that use the
parameters as the code refers to them. -/
def AgreesWithOwn (o : TypeOracle) (t : Template) (e : Expr) (n : Node) : Prop :=
  ∀ parent, ∃ ds, Agrees o e n parent ds ∧ (∀ d ∈ ds, d.IsOwn t) ∧ Demand.uses ds = n.references

theorem agreesWithOwn_placeholder (ht : Declares params t) {i : NodeInfo} {name : String}
    (hsymbol : i.symbol = none ∨ i.symbol = some (.ofParam name))
    (htyped : Node.IsTypedParam params name i.ty) :
    AgreesWithOwn o t (.placeholder name) (.ident i name) := by
  intro parent
  obtain ⟨p, hp, hty⟩ := htyped
  obtain ⟨q, hq, hqty⟩ := ht name p hp
  refine ⟨_, .placeholder, fun d hd => ?_, ?_⟩
  · obtain rfl := List.mem_singleton.1 hd
    exact .use hq (hqty ▸ hty)
  · rcases hsymbol with hsymbol | hsymbol <;>
      simp [Demand.uses, Demand.use?, Node.references, Node.evaluated, Node.reference?,
        Node.skipParens, hsymbol]

theorem agreesWithOwn_ident (hs : s.params = params.map (·.name)) (ht : Declares params t)
    {i : NodeInfo} {name : String} {e : Expr} (h : s.ident name i.symbol = .ok e)
    (hres : (Node.ident i name).ResolvedIn params) : AgreesWithOwn o t e (.ident i name) := by
  have hnone : ∀ {symbol}, i.symbol = some symbol → (∀ param, symbol ≠ .ofParam param) →
      (Node.ident i name).references = [] := by
    intro symbol hsymbol hparam
    cases symbol with
    | ofParam param => exact absurd rfl (hparam param)
    | _ => simp [Node.references, Node.evaluated, Node.reference?, hsymbol]
  rw [Node.ResolvedIn] at hres
  unfold ident at h
  dsimp only at h
  split at h
  · rename_i param hsymbol
    rw [hsymbol] at hres
    obtain ⟨rfl, htyped⟩ := hres
    split at h
    · obtain rfl := Except.ok.inj h
      exact agreesWithOwn_placeholder ht (.inr hsymbol) htyped
    · exact absurd h (by simp)
  · rename_i code hsymbol
    split at h
    · obtain rfl := Except.ok.inj h
      exact fun parent => ⟨_, .localRef rfl hsymbol,
        fun d hd => (List.mem_singleton.1 hd) ▸ .rename, (hnone hsymbol (by simp)).symm⟩
    · exact absurd h (by simp)
  · rename_i cls hsymbol
    obtain rfl := Except.ok.inj h
    exact fun parent => ⟨[], .classRef (by simp [Node.skipParens, refersToClass, hsymbol]),
      List.forall_mem_nil _, (hnone hsymbol (by simp)).symm⟩
  · rename_i owner field hsymbol
    obtain rfl := Except.ok.inj h
    rw [hsymbol] at hres
    obtain rfl := hres
    exact fun parent => ⟨[], .importedField rfl hsymbol, List.forall_mem_nil _,
      (hnone hsymbol (by simp)).symm⟩
  · rename_i hsymbol
    rw [hsymbol] at hres
    -- What is not resolved is a parameter, and is looked up as one first.
    have hparam : s.isParam name = true := by
      obtain ⟨p, hp, -⟩ := hres
      rw [isParam, hs, List.contains_iff_mem]
      exact List.mem_map.2
        ⟨p, List.mem_of_find?_eq_some hp, by simpa using List.find?_some hp⟩
    rw [if_pos hparam] at h
    obtain rfl := Except.ok.inj h
    exact agreesWithOwn_placeholder ht (.inl hsymbol) hres
  · exact absurd h (by simp)

/-- **What is read from a call**: a static one has the class of its method as
receiver, any other what is read from the object it is selected on. -/
theorem of_expr_call_eq_ok {i : NodeInfo} {callee : Node} {args : List Node} {e : Expr}
    (h : s.expr (.call i callee args) = .ok e) :
    ∃ method receiver args', (Node.call i callee args).methodSymbol? = some method ∧
      s.exprs args = .ok args' ∧ e = .call receiver (methodKey method) args' ∧
      ((method.isStatic = true ∧ receiver = .classRef method.owner) ∨
        (method.isStatic = false ∧ ∃ calleeInfo target name nameSpan,
          callee = .select calleeInfo target name nameSpan ∧ s.expr target = .ok receiver)) := by
  rw [expr] at h
  split at h
  · exact absurd h (by simp)
  rename_i method hmethod
  dsimp only at h
  split at h
  · rename_i hstatic
    obtain ⟨receiver, hreceiver, h⟩ := bind_eq_ok_iff.1 h
    obtain ⟨args', hargs, h⟩ := bind_eq_ok_iff.1 h
    exact ⟨method, receiver, args', hmethod, hargs, (pure_eq_ok_iff.1 h).symm,
      .inl ⟨hstatic, (Except.ok.inj hreceiver).symm⟩⟩
  · rename_i hstatic
    split at h
    · obtain ⟨receiver, hreceiver, h⟩ := bind_eq_ok_iff.1 h
      obtain ⟨args', hargs, h⟩ := bind_eq_ok_iff.1 h
      exact ⟨method, receiver, args', hmethod, hargs, (pure_eq_ok_iff.1 h).symm,
        .inr ⟨Bool.eq_false_iff.2 hstatic, _, _, _, _, rfl, hreceiver⟩⟩
    · obtain ⟨receiver, hreceiver, -⟩ := bind_eq_ok_iff.1 h
      exact absurd hreceiver (by simp)

/-- What is read from a method reference: its receiver is the class it is on, or
what is read from the object. -/
theorem of_expr_methodRef_eq_ok {i : NodeInfo} {target : Node} {name : String} {e : Expr}
    (h : s.expr (.methodRef i target name) = .ok e) :
    ∃ method receiver, (Node.methodRef i target name).methodSymbol? = some method ∧
      e = .methodRef receiver (methodKey method) ∧
      ((∃ cls, target.symbol? = some (.ofClass cls) ∧ receiver = .classRef cls) ∨
        ((∀ cls, target.symbol? ≠ some (.ofClass cls)) ∧ s.expr target = .ok receiver)) := by
  rw [expr] at h
  split at h
  · exact absurd h (by simp)
  rename_i method hmethod
  dsimp only at h
  split at h
  · rename_i cls hcls
    obtain ⟨receiver, hreceiver, h⟩ := bind_eq_ok_iff.1 h
    exact ⟨method, receiver, hmethod, (pure_eq_ok_iff.1 h).symm,
      .inl ⟨cls, hcls, (Except.ok.inj hreceiver).symm⟩⟩
  · rename_i hcls
    obtain ⟨receiver, hreceiver, h⟩ := bind_eq_ok_iff.1 h
    exact ⟨method, receiver, hmethod, (pure_eq_ok_iff.1 h).symm, .inr ⟨hcls, hreceiver⟩⟩

mutual

/-- **Code agrees with the template expression that is read from it.** -/
theorem agreesWithOwn_of_expr (hs : s.params = params.map (·.name)) (ht : Declares params t)
    {n : Node} {e : Expr} (h : s.expr n = .ok e)
    (hres : ∀ m ∈ n.evaluated, m.ResolvedIn params) : AgreesWithOwn o t e n := by
  match n with
  | .paren i inner =>
    rw [Node.evaluated, List.forall_mem_cons] at hres
    intro parent
    obtain ⟨ds, hagrees, hown, huses⟩ :=
      agreesWithOwn_of_expr hs ht (by simpa only [expr] using h) hres.2 parent
    refine ⟨ds, hagrees.of_skipParens_eq rfl, hown, huses.trans ?_⟩
    rw [Node.references, Node.references, Node.evaluated, List.filterMap_cons_none rfl]
  | .literal i value =>
    obtain rfl := Except.ok.inj h
    have hnumber : ∀ x, value ≠ .float x := hres _ (Node.mem_evaluated_self _)
    exact fun parent =>
      ⟨[], .literal rfl (Literal.beq_iff.2 (.inr ⟨hnumber, rfl⟩)), nofun, rfl⟩
  | .ident i name =>
    exact agreesWithOwn_ident hs ht (by simpa only [expr] using h)
      (hres _ (Node.mem_evaluated_self _))
  | .select i target name nameSpan =>
    rw [Node.evaluated, List.forall_mem_cons] at hres
    obtain ⟨hself, hparts⟩ := hres
    rw [Node.ResolvedIn] at hself
    intro parent
    rw [expr] at h
    split at h
    · rename_i cls hsymbol
      obtain rfl := Except.ok.inj h
      refine ⟨[], .classRef (by simp [Node.skipParens, refersToClass, hsymbol]), nofun, ?_⟩
      simp [Node.references, Node.evaluated, hsymbol, Node.reference?, Demand.uses]
    · rename_i owner field hsymbol
      obtain rfl := Except.ok.inj h
      rw [hsymbol] at hself
      refine ⟨[], .field rfl (.classRef hself), nofun, ?_⟩
      simp [Node.references, Node.evaluated, hsymbol, Node.reference?, Demand.uses]
    · rename_i owner field hsymbol
      obtain ⟨receiver, htarget, h⟩ := bind_eq_ok_iff.1 h
      obtain rfl := pure_eq_ok_iff.1 h
      rw [hsymbol] at hparts
      obtain ⟨ds, hagrees, hown, huses⟩ := agreesWithOwn_of_expr hs ht htarget hparts _
      refine ⟨ds, .field rfl hagrees, hown, huses.trans ?_⟩
      rw [Node.references, Node.references, Node.evaluated, hsymbol, List.filterMap_cons_none rfl]
    · exact absurd h nofun
  | .call i callee args =>
    have hself : (Node.call i callee args).ResolvedIn params := hres _ (Node.mem_evaluated_self _)
    have hargsRes : ∀ m ∈ Node.allEvaluated args, m.ResolvedIn params := fun m hm =>
      hres m (Node.allEvaluated_subset_evaluated i callee args hm)
    intro parent
    obtain ⟨method, receiver, args', hmethod, hargs, rfl, hread⟩ := of_expr_call_eq_ok h
    have hdenotes := denotes_methodKey (o := o) method
    obtain ⟨es, hagreesArgs, hownArgs, husesArgs⟩ :=
      agreesAllWithOwn_of_exprs hs ht hargs hargsRes (some (.call i callee args))
    rcases hread with ⟨hstatic, rfl⟩ |
      ⟨hstatic, calleeInfo, target, name, nameSpan, rfl, htarget⟩
    · cases callee with
      | select calleeInfo target name nameSpan =>
        refine ⟨[] ++ es, .call rfl hmethod hdenotes (.classRef (hself method hmethod hstatic))
          hagreesArgs, hownArgs, ?_⟩
        rw [List.nil_append, husesArgs, Node.references, Node.evaluated_call_select hmethod,
          if_pos hstatic, List.filterMap_cons_none rfl, List.nil_append]
      | ident calleeInfo name =>
        refine ⟨es, .importedCall rfl hstatic hmethod hdenotes hagreesArgs, hownArgs, ?_⟩
        rw [husesArgs, Node.references, Node.evaluated_call_ident, List.filterMap_cons_none rfl]
      | _ => exact absurd hself (by simp [Node.ResolvedIn])
    · rw [Node.evaluated_call_select hmethod, if_neg (by simp [hstatic]), List.forall_mem_cons,
        List.forall_mem_append] at hres
      obtain ⟨ds, hagrees, hown, huses⟩ := agreesWithOwn_of_expr hs ht htarget hres.2.1 _
      refine ⟨ds ++ es, .call rfl hmethod hdenotes hagrees hagreesArgs,
        List.forall_mem_append.2 ⟨hown, hownArgs⟩, ?_⟩
      rw [Demand.uses_append, huses, husesArgs, Node.references, Node.references,
        Node.evaluated_call_select hmethod, if_neg (by simp [hstatic]),
        List.filterMap_cons_none rfl, List.filterMap_append]
  | .methodRef i target name =>
    have hself : (Node.methodRef i target name).ResolvedIn params :=
      hres _ (Node.mem_evaluated_self _)
    intro parent
    obtain ⟨method, receiver, hmethod, rfl, hread⟩ := of_expr_methodRef_eq_ok h
    have hdenotes := denotes_methodKey (o := o) method
    rcases hread with ⟨cls, hcls, rfl⟩ | ⟨hcls, htarget⟩
    · rw [Node.ResolvedIn, hcls] at hself
      refine ⟨[], .methodRef rfl hmethod hdenotes (.classRef hself), nofun, ?_⟩
      simp [Node.references, Node.evaluated, hcls, Node.reference?, Demand.uses]
    · rw [Node.evaluated_methodRef hcls, List.forall_mem_cons] at hres
      obtain ⟨ds, hagrees, hown, huses⟩ := agreesWithOwn_of_expr hs ht htarget hres.2 _
      refine ⟨ds, .methodRef rfl hmethod hdenotes hagrees, hown, huses.trans ?_⟩
      rw [Node.references, Node.references, Node.evaluated_methodRef hcls,
        List.filterMap_cons_none rfl]
  | .unary i op operand =>
    rw [Node.evaluated, List.forall_mem_cons] at hres
    obtain ⟨operand', hoperand, h⟩ := bind_eq_ok_iff.1 h
    obtain rfl := pure_eq_ok_iff.1 h
    intro parent
    obtain ⟨ds, hagrees, hown, huses⟩ := agreesWithOwn_of_expr hs ht hoperand hres.2 _
    refine ⟨ds, .unary rfl hagrees, hown, huses.trans ?_⟩
    rw [Node.references, Node.references, Node.evaluated, List.filterMap_cons_none rfl]
  | .binary i op lhs rhs =>
    rw [Node.evaluated, List.forall_mem_cons, List.forall_mem_append] at hres
    obtain ⟨lhs', hlhs, h⟩ := bind_eq_ok_iff.1 h
    obtain ⟨rhs', hrhs, h⟩ := bind_eq_ok_iff.1 h
    obtain rfl := pure_eq_ok_iff.1 h
    intro parent
    obtain ⟨ds, hagrees, hown, huses⟩ := agreesWithOwn_of_expr hs ht hlhs hres.2.1 _
    obtain ⟨es, hagrees', hown', huses'⟩ := agreesWithOwn_of_expr hs ht hrhs hres.2.2 _
    refine ⟨ds ++ es, .binary rfl hagrees hagrees', List.forall_mem_append.2 ⟨hown, hown'⟩, ?_⟩
    rw [Demand.uses_append, huses, huses', Node.references, Node.references, Node.references,
      Node.evaluated, List.filterMap_cons_none rfl, List.filterMap_append]
  | .cast i target inner =>
    rw [Node.evaluated, List.forall_mem_cons] at hres
    obtain ⟨inner', hinner, h⟩ := bind_eq_ok_iff.1 h
    obtain rfl := pure_eq_ok_iff.1 h
    have hclosed : target.mentionsVar = false := hres.1
    rw [resolveTy_eq_self _ hclosed]
    intro parent
    obtain ⟨ds, hagrees, hown, huses⟩ := agreesWithOwn_of_expr hs ht hinner hres.2 _
    refine ⟨_, .cast rfl hagrees, List.forall_mem_cons.2 ⟨.agree hclosed, hown⟩, ?_⟩
    rw [Demand.uses, List.filterMap_cons_none rfl, ← Demand.uses, huses, Node.references,
      Node.references, Node.evaluated, List.filterMap_cons_none rfl]
  | .block .. | .exprStmt .. | .ret .. | .localVar .. | .ifElse .. | .whileLoop .. | .doWhile ..
  | .synchronized .. | .methodDecl .. | .classDecl .. | .unit .. => exact absurd h nofun

theorem agreesAllWithOwn_of_exprs (hs : s.params = params.map (·.name)) (ht : Declares params t)
    {ns : List Node} {es : List Expr} (h : s.exprs ns = .ok es)
    (hres : ∀ m ∈ Node.allEvaluated ns, m.ResolvedIn params) (parent : Option Node) :
    ∃ ds, AgreesAll o es ns parent ds ∧ (∀ d ∈ ds, d.IsOwn t) ∧
      Demand.uses ds = (Node.allEvaluated ns).filterMap Node.reference? := by
  match ns with
  | [] =>
    obtain rfl := Except.ok.inj h
    exact ⟨[], .nil, nofun, rfl⟩
  | n :: rest =>
    rw [Node.allEvaluated, List.forall_mem_append] at hres
    obtain ⟨e, he, h⟩ := bind_eq_ok_iff.1 h
    obtain ⟨es', hes, h⟩ := bind_eq_ok_iff.1 h
    obtain rfl := pure_eq_ok_iff.1 h
    obtain ⟨ds, hagrees, hown, huses⟩ := agreesWithOwn_of_expr hs ht he hres.1 parent
    obtain ⟨ds', hagrees', hown', huses'⟩ :=
      agreesAllWithOwn_of_exprs hs ht hes hres.2 parent
    refine ⟨ds ++ ds', .cons hagrees hagrees', List.forall_mem_append.2 ⟨hown, hown'⟩, ?_⟩
    rw [Demand.uses_append, huses, huses', Node.allEvaluated, List.filterMap_append,
      Node.references]

end

/-- What a template expression is read from is an expression. -/
theorem isExpression_skipParens_of_expr {n : Node} {e : Expr} (h : s.expr n = .ok e) :
    n.skipParens.isExpression = true := by
  cases n
  case paren i inner => exact isExpression_skipParens_of_expr (n := inner) h
  case ident | literal | select | call | methodRef | unary | binary | cast => rfl
  all_goals exact absurd h nofun

/-- A statement agrees with what is read from it. -/
theorem exists_agreesStmt_of_stmt (hs : s.params = params.map (·.name)) (ht : Declares params t)
    {n : Node} {stmt : Stmt} (h : s.stmt n = .ok stmt)
    (hres : ∀ m ∈ n.evaluated, m.ResolvedIn params) :
    ∃ ds, AgreesStmt o stmt n ds ∧ (∀ d ∈ ds, d.IsOwn t) ∧ Demand.uses ds = n.references := by
  cases n
  case exprStmt i expr =>
    rw [Node.evaluated, List.forall_mem_cons] at hres
    obtain ⟨e, he, h⟩ := bind_eq_ok_iff.1 h
    obtain rfl := pure_eq_ok_iff.1 h
    obtain ⟨ds, hagrees, hown, huses⟩ := agreesWithOwn_of_expr hs ht he hres.2 _
    refine ⟨ds, .expr hagrees, hown, huses.trans ?_⟩
    rw [Node.references, Node.references, Node.evaluated, List.filterMap_cons_none rfl]
  case ret i expr =>
    obtain ⟨e?, he, h⟩ := bind_eq_ok_iff.1 h
    obtain rfl := pure_eq_ok_iff.1 h
    cases expr with
    | none =>
      obtain rfl := Except.ok.inj he
      exact ⟨[], .retNone, nofun, rfl⟩
    | some n =>
      rw [Node.evaluated, List.forall_mem_cons] at hres
      obtain ⟨e, hn, hsome⟩ := bind_eq_ok_iff.1 he
      obtain rfl := pure_eq_ok_iff.1 hsome
      obtain ⟨ds, hagrees, hown, huses⟩ := agreesWithOwn_of_expr hs ht hn hres.2 _
      refine ⟨ds, .ret hagrees, hown, huses.trans ?_⟩
      rw [Node.references, Node.references, Node.evaluated, List.filterMap_cons_none rfl]
  case localVar i name declared init =>
    have hclosed : declared.mentionsVar = false := hres _ (Node.mem_evaluated_self _)
    obtain ⟨init', hinit, h⟩ := bind_eq_ok_iff.1 h
    obtain rfl := pure_eq_ok_iff.1 h
    rw [resolveTy_eq_self _ hclosed]
    cases init with
    | none =>
      obtain rfl := Except.ok.inj hinit
      refine ⟨_, .localVar, ?_, rfl⟩
      exact List.forall_mem_cons.2 ⟨.rename, List.forall_mem_cons.2 ⟨.agree hclosed, nofun⟩⟩
    | some n =>
      rw [Node.evaluated, List.forall_mem_cons] at hres
      obtain ⟨e, hn, hsome⟩ := bind_eq_ok_iff.1 hinit
      obtain rfl := pure_eq_ok_iff.1 hsome
      obtain ⟨ds, hagrees, hown, huses⟩ := agreesWithOwn_of_expr hs ht hn hres.2 _
      refine ⟨_, .localInit hagrees,
        List.forall_mem_cons.2 ⟨.rename, List.forall_mem_cons.2 ⟨.agree hclosed, hown⟩⟩, ?_⟩
      rw [Demand.uses, List.filterMap_cons_none rfl, List.filterMap_cons_none rfl, ← Demand.uses,
        huses, Node.references, Node.references, Node.evaluated, List.filterMap_cons_none rfl]
  all_goals exact absurd h nofun

/-- **Statements agree with what is read from them**, each in the scope of those
before. -/
theorem exists_agreesStmts_of_stmts (hs : s.params = params.map (·.name)) (ht : Declares params t)
    {ns : List Node} {stmts : List Stmt} (h : s.stmts ns = .ok stmts)
    (hres : ∀ m ∈ Node.allEvaluated ns, m.ResolvedIn params) :
    ns.length = stmts.length ∧ ∃ ds, AgreesStmts o stmts ns ds ∧ (∀ d ∈ ds, d.IsOwn t) ∧
      Demand.uses ds = (Node.allEvaluated ns).filterMap Node.reference? := by
  induction ns generalizing s stmts with
  | nil =>
    obtain rfl := Except.ok.inj h
    exact ⟨rfl, [], .nil, nofun, rfl⟩
  | cons n rest ih =>
    rw [Node.allEvaluated, List.forall_mem_append] at hres
    obtain ⟨stmt, hstmt, h⟩ := bind_eq_ok_iff.1 h
    obtain ⟨rest', hrest, h⟩ := bind_eq_ok_iff.1 h
    obtain rfl := pure_eq_ok_iff.1 h
    obtain ⟨ds, hagrees, hown, huses⟩ := exists_agreesStmt_of_stmt hs ht hstmt hres.1
    obtain ⟨hlength, es, hagrees', hown', huses'⟩ :=
      ih ((params_after n).trans hs) hrest hres.2
    refine ⟨by rw [List.length_cons, List.length_cons, hlength], ds ++ es, .cons hagrees hagrees',
      List.forall_mem_append.2 ⟨hown, hown'⟩, ?_⟩
    rw [Demand.uses_append, huses, huses', Node.allEvaluated, List.filterMap_append,
      Node.references]

end TemplateScope

/-! ## Instances of declared templates -/

namespace Template

variable {o : TypeOracle} {t : Template}

/-- An expression template has at most one instance at a candidate. -/
theorem instances_eq_singleton_of_mem {e : Expr} (hbody : t.body = .expr e) {code : Node}
    {parent : Option Node} {i : Instance} (hi : i ∈ t.instances o code parent) :
    t.instances o code parent = [i] := by
  unfold instances at hi ⊢
  rw [hbody] at hi ⊢
  dsimp only at hi ⊢
  split at hi
  · exact absurd hi List.not_mem_nil
  · rename_i hcode
    rw [if_neg hcode, Option.mem_toList.1 hi]
    rfl

/-- Of a run as long as the list there is one. -/
theorem windows_length {codes : List Node} (hne : codes ≠ []) :
    windows codes.length codes = [codes] := by
  have hshort : ∀ (ns : List Node) (length : Nat), ns.length < length → windows length ns = [] := by
    intro ns length h
    cases ns with
    | nil => rfl
    | cons n rest => rw [windows, if_pos h]
  cases codes with
  | nil => exact absurd rfl hne
  | cons n rest =>
    rw [windows, if_neg (Nat.lt_irrefl _), List.take_length, hshort rest _ (by simp)]

/-- A block template with as many statements as the code has at most the
instance that covers them all. -/
theorem instances_eq_singleton_of_matchStmts? {stmts : List Stmt} (hbody : t.body = .block stmts)
    {info : NodeInfo} {codes : List Node} (hne : codes ≠ [])
    (hlength : codes.length = stmts.length) {b : Bindings}
    (hmatch : t.matchStmts? o stmts codes .empty = some b) (parent : Option Node) :
    t.instances o (.block info codes) parent = [⟨spanOf codes, b⟩] := by
  unfold instances
  rw [hbody]
  dsimp only
  split
  · exact absurd (List.length_eq_zero_iff.1 hlength) hne
  · rename_i heq
    obtain ⟨-, rfl⟩ := Node.block.inj heq
    rw [← hlength, windows_length hne, List.filterMap_cons, hmatch]
    rfl
  · rename_i hblock
    exact absurd rfl (hblock info codes)

/-- The local that a statement declares. -/
def Stmt.local? : Stmt → Option String
  | .localVar name _ _ => some name
  | _ => none

/-- The locals that the body declares. -/
def Body.locals : Body → List String
  | .expr _ => []
  | .block stmts => stmts.filterMap Stmt.local?

/-- A declared local is renamed to one of the code. -/
theorem AgreesStmts.exists_rename_mem {stmts : List Stmt} {codes : List Node} {ds : List Demand}
    (h : AgreesStmts o stmts codes ds) {name : String} (hname : name ∈ (Body.block stmts).locals) :
    ∃ code, .rename name code ∈ ds := by
  induction h with
  | nil => exact absurd hname List.not_mem_nil
  | @cons s stmts code codes ds rest hs hrest ih =>
    obtain ⟨s', hs', hlocal⟩ := List.mem_filterMap.1 hname
    rcases List.mem_cons.1 hs' with rfl | hlater
    · cases hs with
      | localVar | localInit =>
        obtain rfl := Option.some.inj hlocal
        exact ⟨_, List.mem_append_left _ List.mem_cons_self⟩
      | _ => exact absurd hlocal nofun
    · obtain ⟨code, hcode⟩ := ih (List.mem_filterMap.2 ⟨s', hlater, hlocal⟩)
      exact ⟨code, List.mem_append_right _ hcode⟩

/-- **The names of a template stand for themselves**: a placeholder that the
template refers to is bound to the first reference to it in the code, and each
local of the template is the local of that name. -/
structure StandsForItself (t : Template) (code : Node) (b : Bindings) : Prop where
  placeholders : ∀ name ∈ t.referenced, ∃ node ty, code.references.lookup name = some node ∧
    node.ty? = some ty ∧ b.get? name = some ⟨node, ty⟩
  locals : ∀ name ∈ t.body.locals, b.locals.get? name = some name

/-- Own demands that use the placeholders in the order of the code make them
stand for themselves. -/
theorem standsForItself_of_meetAll? {code : Node} {ds : List Demand} {b : Bindings}
    (hmeet : Demand.meetAll? o t ds .empty = some b) (hb : BoundToSelf b)
    (huses : Demand.uses ds = code.references)
    (hreferenced : ∀ name ∈ t.referenced, name ∈ (Demand.uses ds).map (·.1))
    (hlocals : ∀ name ∈ t.body.locals, ∃ code, .rename name code ∈ ds) :
    t.StandsForItself code b where
  placeholders name hname := by
    obtain ⟨u, hu, rfl⟩ := List.mem_map.1 (hreferenced name hname)
    obtain ⟨bound, hbound⟩ := Option.isSome_iff_exists.1 (Demand.isSome_of_meetAll? hmeet hu)
    obtain ⟨hlookup, hty⟩ := Demand.lookup_uses_of_meetAll? hmeet (Bindings.get?_empty _) hbound
    exact ⟨bound.node, bound.ty, huses ▸ hlookup, hty, hbound⟩
  locals name hname := by
    obtain ⟨code', hrename⟩ := hlocals name hname
    have hget := Demand.get?_locals_of_meetAll? hmeet hrename
    obtain rfl := hb.locals _ _ hget
    exact hget

end Template

namespace ClassDeclaration

open TemplateScope

/-- What a method with a body is read as: its parameters become placeholders of
their types, and its body the returned expression or a block. -/
theorem of_template_eq_ok {rule : String} {typeParams : List TypeVar} {head : MethodHead}
    {body : Node} {t : Template} (h : template rule typeParams head (some body) = .ok t) :
    ∃ s : TemplateScope, s.params = head.params.map (·.name) ∧
      t.params.map (fun p => (p.name, p.ty)) =
        head.params.map (fun p => (p.name, resolveTy s.typeParams p.ty)) ∧
      t.returnType = resolveTy s.typeParams head.returnType ∧
      ((∃ info retInfo e e', body = .block info [.ret retInfo (some e)] ∧ s.expr e = .ok e' ∧
          t.body = .expr e') ∨
        (∃ info codes stmts, body = .block info codes ∧
          (∀ retInfo e, codes ≠ [.ret retInfo (some e)]) ∧ s.stmts codes = .ok stmts ∧
          t.body = .block stmts)) := by
  obtain ⟨s, hs, -, hparams, hreturn, hbody⟩ := exists_scope_of_template h
  simp only [Option.some.injEq] at hbody
  exact ⟨s, hs, hparams, hreturn, hbody⟩

/-- **The method is resolved as a front end resolves it.** No type has
variables, and a returned expression has no type or the declared one. -/
structure IsResolved (head : MethodHead) (body : Node) : Prop where
  closedParams : ∀ p ∈ head.params, p.ty.mentionsVar = false
  closedReturn : head.returnType.mentionsVar = false
  nodes : ∀ n ∈ body.evaluated, n.ResolvedIn head.params
  returned : ∀ info retInfo e, body = .block info [.ret retInfo (some e)] →
    ∀ ty, e.skipParens.ty? = some ty → ty = head.returnType

/-- Parameters without type variables are placeholders of the same types. -/
theorem params_of_closed {params : List Param} {t : Template} {typeParams : List TypeVar}
    (hclosed : ∀ p ∈ params, p.ty.mentionsVar = false)
    (h : t.params.map (fun p => (p.name, p.ty)) =
      params.map (fun p => (p.name, resolveTy typeParams p.ty))) :
    Declares params t ∧ ∀ q ∈ t.params, q.ty.mentionsVar = false := by
  have hsame : t.params.map (fun p => (p.name, p.ty)) = params.map (fun p => (p.name, p.ty)) := by
    rw [h]
    exact List.map_congr_left fun p hp => by rw [resolveTy_eq_self _ (hclosed p hp)]
  constructor
  · intro name p hp
    have hfind : (t.params.map (fun p => (p.name, p.ty))).find? (·.1 == name) =
        some (p.name, p.ty) := by
      rw [hsame, List.find?_map]
      exact congrArg (Option.map _) hp
    rw [List.find?_map] at hfind
    obtain ⟨q, hq, hqp⟩ := Option.map_eq_some_iff.1 hfind
    exact ⟨q, hq, (Prod.mk.inj hqp).2⟩
  · intro q hq
    have hmem : (q.name, q.ty) ∈ params.map (fun p => (p.name, p.ty)) :=
      hsame ▸ List.mem_map_of_mem hq
    obtain ⟨p, hp, heq⟩ := List.mem_map.1 hmem
    rw [← (Prod.mk.inj heq).2]
    exact hclosed p hp

/-- What a template with own demands asks of the type of the returned expression
is an own demand as well. -/
theorem isOwn_of_mem_resultDemands {t : Template} {code : Node}
    (hclosed : t.returnType.mentionsVar = false)
    (hreturned : ∀ ty, code.ty? = some ty → ty = t.returnType) :
    ∀ d ∈ t.resultDemands code, d.IsOwn t := by
  unfold resultDemands
  split
  · rename_i ty hty
    split
    · exact nofun
    · intro d hd
      obtain rfl := List.mem_singleton.1 hd
      rw [hreturned ty hty]
      exact .fit hclosed
  · exact nofun

/-- A template that only returns an expression has one instance at it. -/
theorem exists_instances_of_returned (h : Hierarchy) {s : TemplateScope} {head : MethodHead}
    {t : Template} (hs : s.params = head.params.map (·.name)) (hscoped : t.IsScoped)
    (hdeclares : Declares head.params t) (ht : t.IsClosed)
    (hclosed : t.returnType.mentionsVar = false) {info retInfo : NodeInfo} {e : Node} {e' : Expr}
    (hnodes : ∀ m ∈ (Node.block info [.ret retInfo (some e)]).evaluated,
      m.ResolvedIn head.params)
    (hreturned : ∀ ty, e.skipParens.ty? = some ty → ty = t.returnType)
    (he : s.expr e = .ok e') (hbody : t.body = .expr e') (parent : Option Node) :
    ∃ b, t.StandsForItself (.block info [.ret retInfo (some e)]) b ∧
      t.instances h.oracle e.skipParens parent = [⟨e.skipParens.span, b⟩] := by
  have hevaluated : (Node.block info [.ret retInfo (some e)]).evaluated =
      .block info [.ret retInfo (some e)] :: .ret retInfo (some e) :: e.evaluated := by
    simp only [Node.evaluated, Node.allEvaluated, List.append_nil]
  rw [hevaluated, List.forall_mem_cons, List.forall_mem_cons] at hnodes
  obtain ⟨ds, hagrees, hown, huses⟩ :=
    agreesWithOwn_of_expr (o := h.oracle) hs hdeclares he hnodes.2.2 parent
  have hresult := isOwn_of_mem_resultDemands hclosed hreturned
  obtain ⟨b, hmeet, hb⟩ := exists_meetAll?_of_isOwn (h := h) ht
    (List.forall_mem_append.2 ⟨hown, hresult⟩) boundToSelf_empty
  have hinstance := (mem_instances_expr_iff hbody).2 ⟨isExpression_skipParens_of_expr he,
    e.isParen_skipParens, ds, b, hagrees.of_skipParens_eq e.skipParens_skipParens, hmeet, rfl⟩
  refine ⟨b, standsForItself_of_meetAll? hmeet hb ?_ ?_ ?_,
    instances_eq_singleton_of_mem hbody hinstance⟩
  · rw [Demand.uses_append, uses_resultDemands, List.append_nil, huses, Node.references,
      Node.references, hevaluated, List.filterMap_cons_none rfl, List.filterMap_cons_none rfl]
  · intro name hname
    obtain ⟨e'', he'', huse⟩ := mem_referenced_iff.1 hname
    have hclass := hscoped.hasClassReceivers he''
    rw [hbody] at he''
    obtain rfl := List.mem_singleton.1 he''
    rw [Demand.uses_append, uses_resultDemands, List.append_nil, hagrees.usedNames hclass]
    exact huse
  · intro name hname
    rw [hbody] at hname
    exact absurd hname List.not_mem_nil

/-- A template of several statements has one instance at the block of them. -/
theorem exists_instances_of_statements (h : Hierarchy) {s : TemplateScope} {head : MethodHead}
    {t : Template} (hs : s.params = head.params.map (·.name)) (hscoped : t.IsScoped)
    (hdeclares : Declares head.params t) (ht : t.IsClosed) {info : NodeInfo} {codes : List Node}
    {stmts : List Stmt} (hnodes : ∀ m ∈ (Node.block info codes).evaluated,
      m.ResolvedIn head.params)
    (hne : codes ≠ []) (hstmts : s.stmts codes = .ok stmts) (hbody : t.body = .block stmts)
    (parent : Option Node) :
    ∃ b, t.StandsForItself (.block info codes) b ∧
      t.instances h.oracle (.block info codes) parent = [⟨spanOf codes, b⟩] := by
  rw [Node.evaluated, List.forall_mem_cons] at hnodes
  obtain ⟨hlength, ds, hagrees, hown, huses⟩ :=
    exists_agreesStmts_of_stmts (o := h.oracle) hs hdeclares hstmts hnodes.2
  obtain ⟨b, hmeet, hb⟩ := exists_meetAll?_of_isOwn (h := h) ht hown boundToSelf_empty
  refine ⟨b, standsForItself_of_meetAll? hmeet hb ?_ ?_ ?_,
    instances_eq_singleton_of_matchStmts? hbody hne hlength
      (matchStmts?_eq_some_iff.2 ⟨ds, hagrees, hmeet⟩) parent⟩
  · rw [huses, Node.references, Node.evaluated, List.filterMap_cons_none rfl]
  · intro name hname
    obtain ⟨e, he, huse⟩ := mem_referenced_iff.1 hname
    rw [hagrees.usedNames fun e he => hscoped.hasClassReceivers (by rw [hbody]; exact he)]
    rw [hbody] at he
    exact List.mem_flatMap.2 ⟨e, he, huse⟩
  · intro name hname
    rw [hbody] at hname
    exact hagrees.exists_rename_mem hname

/-- **A template matches the code it was written from, once.** A body that only
returns an expression is read as an expression template, which has one instance
at the returned expression; any other body that is not empty is read as a block
template, which has one instance, and that covers all its statements. The
template's names stand for themselves there. -/
theorem instances_of_template (h : Hierarchy) {rule : String} {typeParams : List TypeVar}
    {head : MethodHead} {body : Node} {t : Template}
    (hread : template rule typeParams head (some body) = .ok t)
    (hunguarded : ∀ p ∈ t.params, p.guard = none) (hresolved : IsResolved head body)
    (parent : Option Node) :
    (∀ info retInfo e, body = .block info [.ret retInfo (some e)] →
      ∃ b, t.StandsForItself body b ∧
        t.instances h.oracle e.skipParens parent = [⟨e.skipParens.span, b⟩]) ∧
    (∀ info codes, body = .block info codes → codes ≠ [] →
      (∀ retInfo e, codes ≠ [.ret retInfo (some e)]) →
      ∃ b, t.StandsForItself body b ∧
        t.instances h.oracle body parent = [⟨spanOf codes, b⟩]) := by
  obtain ⟨s, hs, hparams, hreturn, hbody⟩ := of_template_eq_ok hread
  have hscoped := isScoped_of_template hread
  obtain ⟨hdeclares, hclosed⟩ := params_of_closed hresolved.closedParams hparams
  rw [resolveTy_eq_self _ hresolved.closedReturn] at hreturn
  have ht : t.IsClosed := ⟨hunguarded, hclosed⟩
  constructor
  · rintro info retInfo e rfl
    obtain ⟨_, _, e', e'', heq, he, hbody⟩ | ⟨_, codes, _, heq, hcodes, -⟩ := hbody
    · obtain rfl : e = e' :=
        Option.some.inj (Node.ret.inj (List.cons.inj (Node.block.inj heq).2).1).2
      refine exists_instances_of_returned h hs hscoped hdeclares ht
        (hreturn ▸ hresolved.closedReturn) hresolved.nodes (fun ty hty => ?_) he hbody parent
      rw [hreturn]
      exact hresolved.returned info retInfo e rfl ty hty
    · exact absurd (Node.block.inj heq).2.symm (hcodes retInfo e)
  · rintro info codes rfl hne hcodes
    obtain ⟨_, retInfo, e, _, heq, -, -⟩ | ⟨_, codes', stmts, heq, -, hstmts, hbody⟩ := hbody
    · exact absurd (Node.block.inj heq).2 (hcodes retInfo e)
    · obtain rfl : codes = codes' := (Node.block.inj heq).2
      exact exists_instances_of_statements h hs hscoped hdeclares ht hresolved.nodes hne hstmts
        hbody parent

/-- A method `int doubled(int a)`. -/
def doubledHead : MethodHead := ⟨"doubled", [], [], [⟨"a", .plain "int", []⟩], .plain "int"⟩

/-- The body `{ int x = a; return x + (a); }`. -/
def doubledBody : Node :=
  let a := ((Fresh.ident "a").typed (.plain "int")).resolved (.ofParam "a")
  let x := ((Fresh.ident "x").typed (.plain "int")).resolved (.ofLocal "x")
  Fresh.block [Fresh.localVar "x" (.plain "int") (some a),
    Fresh.ret (some (Fresh.binary .add x (Fresh.paren a)))]

/-- So the template of that method matches its own body, and once. -/
theorem doubled_instances_eq :
    ∃ t b, template "Doubling" [] doubledHead (some doubledBody) = .ok t ∧
      t.StandsForItself doubledBody b ∧
      t.instances Hierarchy.javaLang.oracle doubledBody none = [⟨⟨0, 0⟩, b⟩] := by
  have hread : template "Doubling" [] doubledHead (some doubledBody) = .ok _ := rfl
  have hnodes : ∀ n ∈ doubledBody.evaluated, n.ResolvedIn doubledHead.params := by
    have ha : Node.IsTypedParam doubledHead.params "a" (some (.plain "int")) := ⟨_, rfl, rfl⟩
    have hx : (Ty.plain "int").mentionsVar = false := rfl
    -- The block, the local with its value, and what is returned.
    refine List.forall_mem_cons.2 ⟨trivial, List.forall_mem_cons.2 ⟨hx, List.forall_mem_cons.2
      ⟨⟨rfl, ha⟩, List.forall_mem_cons.2 ⟨trivial, List.forall_mem_cons.2 ⟨trivial, ?_⟩⟩⟩⟩⟩
    exact List.forall_mem_cons.2 ⟨trivial, List.forall_mem_cons.2 ⟨trivial,
      List.forall_mem_cons.2 ⟨⟨rfl, ha⟩, nofun⟩⟩⟩
  have hresolved : IsResolved doubledHead doubledBody := by
    refine ⟨?_, rfl, hnodes, fun info retInfo e heq => ?_⟩
    · simp [doubledHead, Ty.plain, Ty.mentionsVar, Ty.anyMentionsVar]
    · exact absurd (Node.block.inj heq).2 (by simp)
  obtain ⟨b, hself, hinstances⟩ :=
    (instances_of_template Hierarchy.javaLang hread (by simp) hresolved none).2
      _ _ rfl (by simp) (by simp [Fresh.localVar])
  exact ⟨_, b, rfl, hself, hinstances⟩

end ClassDeclaration

end Codemod
