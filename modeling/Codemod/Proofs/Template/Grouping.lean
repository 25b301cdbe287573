import Codemod.Proofs.Dict
import Codemod.Proofs.Scan.PlainPass
import Codemod.Proofs.Tree.Grouping
/-!
# Matching ungrouped code

A template matches code just as it matches its ungrouped form, and binds to the
ungrouped forms what it binds in the code (`Template.matchExpr?_ungroup`,
`Template.matchStmts?_ungroup`). So two nodes of one ungrouped form have
corresponding instances (`Template.forall₂_instances`). Only a template that is no
more than a placeholder can tell what its candidate stands in.
-/

namespace Codemod

/-! ## Ungrouped bindings -/

/-- The bound expression in its ungrouped form. -/
def Bound.ungroup (keep : Bool) (bound : Bound) : Bound := ⟨bound.node.ungroup keep, bound.ty⟩

namespace Bindings

/-- The bindings with all bound expressions in their ungrouped forms. -/
def ungroup (keep : Bool) (b : Bindings) : Bindings :=
  { b with exprs := b.exprs.mapValues (Bound.ungroup keep) }

variable {keep : Bool} {b : Bindings}

theorem get?_ungroup (name : String) :
    (b.ungroup keep).get? name = (b.get? name).map (Bound.ungroup keep) :=
  Dict.get?_mapValues _ _ _

theorem ungroup_eq_iff {a b : Bindings} :
    a.ungroup keep = b.ungroup keep ↔
      a.exprs.mapValues (Bound.ungroup keep) = b.exprs.mapValues (Bound.ungroup keep) ∧
        a.locals = b.locals ∧ a.types = b.types := by
  rw [ungroup, ungroup, Bindings.mk.injEq]

theorem ungroup_bindExpr (name : String) (bound : Bound) :
    (b.bindExpr name bound).ungroup keep =
      (b.ungroup keep).bindExpr name (bound.ungroup keep) := by
  rw [bindExpr, ungroup, Dict.mapValues_insert]
  rfl

theorem ungroup_bindLocal? (keep : Bool) (b : Bindings) (template code : String) :
    (b.bindLocal? template code).map (ungroup keep) =
      (b.ungroup keep).bindLocal? template code := by
  have hlocals : (b.ungroup keep).locals = b.locals := rfl
  unfold bindLocal?
  rw [hlocals]
  cases b.locals.get? template with
  | none => cases b.locals.values.contains code <;> rfl
  | some bound =>
    dsimp only
    split <;> rfl

end Bindings

namespace Template

open Node

variable {o : TypeOracle} {t : Template} {keep : Bool} {p q : Option Node}

theorem Guard.holds_ungroup (h : mayReturn p = mayReturn q) (guard : Guard) {node : Node}
    (hnode : node.isParen = false) : guard.holds node p = guard.holds (node.ungroup keep) q := by
  rw [Guard.holds_congr h]
  cases guard with
  | parentIsReturn => rfl
  | throws exception =>
    cases node
    case paren => exact absurd hnode (by simp [isParen])
    case methodRef i target name =>
      have hsymbol : (Node.ungroup keep (.methodRef i target name)).methodSymbol? =
          (Node.methodRef i target name).methodSymbol? :=
        methodSymbol?_methodRef_ungroup keep i target name
      unfold Guard.holds
      dsimp only
      rw [hsymbol]
      cases (Node.methodRef i target name).methodSymbol? <;> rfl
    case ret _ e => cases e <;> rfl
    case localVar _ _ _ init => cases init <;> rfl
    case methodDecl _ _ body => cases body <;> rfl
    case ifElse _ _ _ elseBranch => cases elseBranch <;> rfl
    all_goals rfl

/-- A placeholder takes an expression just as it takes its ungrouped form. -/
theorem matchPlaceholder?_ungroup (h : mayReturn p = mayReturn q) (name : String) {node : Node}
    (hnode : node.isParen = false) (b : Bindings) :
    (t.matchPlaceholder? o name node p b).map (Bindings.ungroup keep) =
      t.matchPlaceholder? o name (node.ungroup keep) q (b.ungroup keep) := by
  have hty : (node.ungroup keep).ty? = node.ty? := by
    rw [ty?, ty?, (kept_ungroup hnode).info]
    rfl
  have htypes : (b.ungroup keep).types = b.types := rfl
  unfold matchPlaceholder?
  rw [Bindings.get?_ungroup, isExpression_ungroup, hty, htypes]
  cases t.placeholder? name with
  | none => rfl
  | some placeholder =>
    cases node.isExpression with
    | false => rfl
    | true =>
      cases b.get? name with
      | some bound =>
        have hshape : (bound.ungroup keep).node.sameShape (node.ungroup keep) =
            bound.node.sameShape node := sameShape_ungroup bound.node node
        simp only [Option.map_some, hshape]
        cases bound.node.sameShape node <;> rfl
      | none =>
        cases node.ty? with
        | none => rfl
        | some ty =>
          cases hassign : o.assign? placeholder.ty ty b.types with
          | none => simp [hassign]
          | some types =>
            have hbind : ({ b with types }.bindExpr name ⟨node, ty⟩).ungroup keep =
                ({ b.ungroup keep with types }.bindExpr name ⟨node.ungroup keep, ty⟩) :=
              Bindings.ungroup_bindExpr name ⟨node, ty⟩
            cases hguard : placeholder.guard with
            | none => simp [hassign, hguard, hbind]
            | some guard =>
              have hholds : guard.holds node p = guard.holds (node.ungroup keep) q :=
                guard.holds_ungroup h hnode
              cases hheld : guard.holds node p <;> simp [hassign, hguard, hbind, hheld, ← hholds]

/-- Nothing but an expression is matched. -/
theorem matchExpr?_eq_none {e : Expr} {code : Node} (h : code.skipParens.isExpression = false)
    (b : Bindings) : t.matchExpr? o e code p b = none := by
  cases e
  case placeholder name =>
    rw [matchExpr?]
    unfold matchPlaceholder?
    rw [h]
    cases t.placeholder? name <;> rfl
  all_goals
    rw [matchExpr?]
    generalize code.skipParens = node at h
    cases node
    case ident | literal | select | call | methodRef | unary | binary | cast =>
      exact absurd h (by simp [Node.isExpression])
    all_goals rfl

/-- The ungrouped form of a `return` is one, and nothing else is. -/
theorem mayReturn_ungroup (keep : Bool) (n : Node) :
    mayReturn (some (n.ungroup keep)) = mayReturn (some n) := by
  have hnot {n : Node} (hn : n.isExpression = true) : mayReturn (some n) = false := by
    cases n
    case ret => exact absurd hn (by simp [Node.isExpression])
    all_goals rfl
  cases n
  case paren i expr => exact hnot (isExpression_ungroup (.paren i expr))
  case ret _ e => cases e <;> rfl
  case localVar _ _ _ init => cases init <;> rfl
  case methodDecl _ _ body => cases body <;> rfl
  case ifElse _ _ _ elseBranch => cases elseBranch <;> rfl
  all_goals rfl

theorem refersToClass_ungroup {node : Node} (hnode : node.isParen = false) (name : String) :
    refersToClass name (node.ungroup keep) = refersToClass name node := by
  cases node
  case paren => exact absurd hnode (by simp [isParen])
  case ret _ e => cases e <;> rfl
  case localVar _ _ _ init => cases init <;> rfl
  case methodDecl _ _ body => cases body <;> rfl
  case ifElse _ _ _ elseBranch => cases elseBranch <;> rfl
  all_goals rfl

/-- One partial step after another commutes with a map if both do. -/
theorem map_bind_of {α β γ δ : Type} {f : α → β} {f' : γ → δ} {x : Option α} {y : Option β}
    {g : α → Option γ} {h : β → Option δ} (hx : x.map f = y)
    (hg : ∀ a, (g a).map f' = h (f a)) : (x.bind g).map f' = y.bind h := by
  rw [← hx, Option.map_bind, Option.bind_map]
  exact congrArg x.bind (funext hg)

/-- Parentheses around code are passed over. -/
theorem matchExpr?_of_skipParens_eq {code code' : Node} (h : code.skipParens = code'.skipParens)
    (e : Expr) (b : Bindings) : t.matchExpr? o e code p b = t.matchExpr? o e code' p b := by
  cases e <;> simp only [matchExpr?, h]

/-- The expression of the template matches code like its ungrouped form, wherever
the code stands. -/
def MatchesUngrouped (o : TypeOracle) (t : Template) (keep : Bool) (e : Expr) : Prop :=
  ∀ (p q : Option Node), mayReturn p = mayReturn q → ∀ (code : Node) (b : Bindings),
    (t.matchExpr? o e code p b).map (Bindings.ungroup keep) =
      t.matchExpr? o e (code.ungroup keep) q (b.ungroup keep)

/-- So do several expressions. -/
def AllMatchUngrouped (o : TypeOracle) (t : Template) (keep : Bool) (es : List Expr) : Prop :=
  ∀ (p q : Option Node), mayReturn p = mayReturn q → ∀ (codes : List Node) (b : Bindings),
    (t.matchExprs? o es codes p b).map (Bindings.ungroup keep) =
      t.matchExprs? o es (ungroups keep codes) q (b.ungroup keep)

/-- A call is matched like its ungrouped form if its receiver and its arguments
are. The callee keeps its parentheses: without them it would be a receiver and a
name. -/
theorem matchExpr?_call_ungroup {receiver : Expr} {args : List Expr}
    (hreceiver : MatchesUngrouped o t keep receiver) (hargs : AllMatchUngrouped o t keep args)
    (method : MethodKey) (i : NodeInfo) (callee : Node) (args' : List Node) (b : Bindings) :
    (t.matchExpr? o (.call receiver method args) (.call i callee args') p b).map
        (Bindings.ungroup keep) =
      t.matchExpr? o (.call receiver method args) ((Node.call i callee args').ungroup keep) q
        (b.ungroup keep) := by
  have hcalled := methodSymbol?_call_ungroup keep i callee args'
  have hlength : (ungroups keep args').length = args'.length := by
    rw [ungroups_eq_map, List.length_map]
  have hparent := (mayReturn_ungroup keep (.call i callee args')).symm
  rw [ungroup] at hcalled hparent
  rw [matchExpr?, ungroup, matchExpr?]
  simp only [skipParens]
  rw [hcalled, hlength]
  cases (Node.call i callee args').methodSymbol? with
  | none => rfl
  | some called =>
    change Option.map _ (if _ then _ else _) = (if _ then _ else _)
    by_cases hfits : (args'.length != args.length || !method.denotes o called) = true
    · rw [if_pos hfits, if_pos hfits]
      rfl
    rw [if_neg hfits, if_neg hfits]
    cases callee
    case select calleeInfo target name nameSpan =>
      exact map_bind_of (hreceiver _ _ hparent target b) (hargs _ _ hparent args')
    case ident =>
      dsimp only
      split
      · exact hargs _ _ hparent args' b
      · rfl
    case ret _ e => cases e <;> rfl
    case localVar _ _ _ init => cases init <;> rfl
    case methodDecl _ _ body => cases body <;> rfl
    case ifElse _ _ _ elseBranch => cases elseBranch <;> rfl
    all_goals rfl

mutual

/-- **Code is matched like its ungrouped form.** -/
theorem matchExpr?_ungroup (e : Expr) : MatchesUngrouped o t keep e := by
  intro p q h code b
  have hcode : t.matchExpr? o e code p b = t.matchExpr? o e code.skipParens p b :=
    matchExpr?_of_skipParens_eq (skipParens_skipParens code).symm e b
  have hform : t.matchExpr? o e (code.ungroup keep) q (b.ungroup keep) =
      t.matchExpr? o e (code.skipParens.ungroup keep) q (b.ungroup keep) :=
    matchExpr?_of_skipParens_eq (by rw [skipParens_ungroup, skipParens_ungroup,
      skipParens_skipParens]) e _
  have hcore := isParen_skipParens code
  rw [hcode, hform]
  generalize code.skipParens = node at hcore
  cases hexpr : node.isExpression with
  | false =>
    have hskip := skipParens_eq_self hcore
    rw [matchExpr?_eq_none (by rwa [hskip]), matchExpr?_eq_none]
    · rfl
    · rw [skipParens_ungroup, isExpression_ungroup, hskip, hexpr]
  | true =>
    cases e
    case placeholder name =>
      rw [matchExpr?, matchExpr?, skipParens_ungroup, skipParens_eq_self hcore]
      exact matchPlaceholder?_ungroup h name hcore b
    case classRef name =>
      rw [matchExpr?, matchExpr?, skipParens_ungroup, skipParens_eq_self hcore,
        refersToClass_ungroup hcore]
      split <;> rfl
    all_goals
      cases node
      case paren => exact absurd hcore (by simp [isParen])
      case block | exprStmt | ret | localVar | ifElse | whileLoop | doWhile | synchronized |
          methodDecl | classDecl | unit => exact absurd hexpr (by simp [Node.isExpression])
    case call.call receiver method args i callee args' =>
      exact matchExpr?_call_ungroup (matchExpr?_ungroup receiver) (matchExprs?_ungroup args) method
        i callee args' b
    all_goals simp only [matchExpr?, ungroup, skipParens]
    case localRef.ident name i name' =>
      rcases i with ⟨_, _, _ | _ | _ | _ | _ | _⟩
      case some.ofLocal code => exact Bindings.ungroup_bindLocal? keep b name code
      all_goals rfl
    case literal.literal value i value' => split <;> rfl
    case field.ident receiver name i name' =>
      have hsymbol : i.unplaced.symbol = i.symbol := rfl
      rw [hsymbol]
      split <;> rfl
    case field.select receiver name i target name' nameSpan =>
      have hparent := (mayReturn_ungroup keep (.select i target name' nameSpan)).symm
      split
      · exact matchExpr?_ungroup receiver _ _ hparent target b
      · rfl
    case methodRef.methodRef receiver method i target name =>
      have hparent := (mayReturn_ungroup keep (.methodRef i target name)).symm
      have hcalled := methodSymbol?_methodRef_ungroup keep i target name
      rw [ungroup] at hcalled hparent
      rw [hcalled]
      cases (Node.methodRef i target name).methodSymbol? with
      | none => rfl
      | some called =>
        cases hdenotes : method.denotes o called with
        | false => simp [hdenotes]
        | true => simpa [hdenotes] using matchExpr?_ungroup receiver _ _ hparent target b
    case unary.unary op operand i op' operand' =>
      have hparent := (mayReturn_ungroup keep (.unary i op' operand')).symm
      split
      · exact matchExpr?_ungroup operand _ _ hparent operand' b
      · rfl
    case binary.binary op lhs rhs i op' lhs' rhs' =>
      have hparent := (mayReturn_ungroup keep (.binary i op' lhs' rhs')).symm
      rw [ungroup] at hparent
      split
      · exact map_bind_of (matchExpr?_ungroup lhs _ _ hparent lhs' b)
          (matchExpr?_ungroup rhs _ _ hparent rhs')
      · rfl
    case cast.cast target expr i target' expr' =>
      have hparent := (mayReturn_ungroup keep (.cast i target' expr')).symm
      have htypes : (b.ungroup keep).types = b.types := rfl
      rw [htypes]
      cases o.agree? target target' b.types with
      | none => rfl
      | some types => exact matchExpr?_ungroup expr _ _ hparent expr' { b with types }
    all_goals rfl

theorem matchExprs?_ungroup (es : List Expr) : AllMatchUngrouped o t keep es := by
  intro p q h codes b
  cases es with
  | nil => cases codes <;> rfl
  | cons e es =>
    cases codes with
    | nil => rfl
    | cons code codes =>
      rw [ungroups, matchExprs?, matchExprs?]
      exact map_bind_of (matchExpr?_ungroup e p q h code b) (matchExprs?_ungroup es p q h codes)

end

/-- An expression is no statement. -/
theorem matchStmt?_eq_none {code : Node} (h : code.isExpression = true) (stmt : Stmt)
    (b : Bindings) : t.matchStmt? o stmt code b = none := by
  cases code
  case block | exprStmt | ret | localVar | ifElse | whileLoop | doWhile | synchronized |
      methodDecl | classDecl | unit => exact absurd h (by simp [Node.isExpression])
  all_goals rcases stmt with _ | (_ | _) | _ <;> rfl

/-- A statement is matched like its ungrouped form. -/
theorem matchStmt?_ungroup (stmt : Stmt) (code : Node) (b : Bindings) :
    (t.matchStmt? o stmt code b).map (Bindings.ungroup keep) =
      t.matchStmt? o stmt (code.ungroup keep) (b.ungroup keep) := by
  have hparent := (mayReturn_ungroup keep code).symm
  cases hexpr : code.isExpression with
  | true =>
    rw [matchStmt?_eq_none hexpr, matchStmt?_eq_none ((isExpression_ungroup code).trans hexpr)]
    rfl
  | false =>
    cases code
    case ident | literal | select | call | methodRef | unary | binary | cast | paren =>
      exact absurd hexpr (by simp [Node.isExpression])
    case exprStmt i c =>
      cases stmt with
      | expr e => exact matchExpr?_ungroup e _ _ hparent c b
      | ret e => cases e <;> rfl
      | localVar => rfl
    case ret i c =>
      cases stmt with
      | expr e => cases c <;> rfl
      | localVar => cases c <;> rfl
      | ret e =>
        cases e with
        | none => cases c <;> rfl
        | some e =>
          cases c with
          | none => rfl
          | some c =>
            rw [matchStmt?, matchExpr?_ungroup e _ _ hparent, ungroup, matchStmt?]
            exact matchExpr?_of_skipParens_eq (skipParens_regroup c _).symm e _
    case localVar i name' declared init' =>
      cases stmt with
      | expr e => cases init' <;> rfl
      | ret e => cases e <;> cases init' <;> rfl
      | localVar name ty init =>
        have hlocal := Bindings.ungroup_bindLocal? keep b name name'
        cases init' <;> refine map_bind_of hlocal fun b => ?_
        all_goals
          change Option.map _ (Option.bind (o.agree? ty declared b.types) _) =
            Option.bind (o.agree? ty declared b.types) _
          cases o.agree? ty declared b.types with
          | none => rfl
          | some types => cases init <;> first | rfl | exact matchExpr?_ungroup _ _ _ hparent _ _
    case methodDecl i head body =>
      rcases stmt with _ | (_ | _) | _ <;> cases body <;> rfl
    case ifElse i cond thenBranch elseBranch =>
      rcases stmt with _ | (_ | _) | _ <;> cases elseBranch <;> rfl
    all_goals rcases stmt with _ | (_ | _) | _ <;> rfl

/-- **So are runs of statements.** -/
theorem matchStmts?_ungroup (stmts : List Stmt) (codes : List Node) (b : Bindings) :
    (t.matchStmts? o stmts codes b).map (Bindings.ungroup keep) =
      t.matchStmts? o stmts (codes.map (Node.ungroup keep)) (b.ungroup keep) := by
  induction stmts generalizing codes b with
  | nil => rfl
  | cons stmt stmts ih =>
    cases codes with
    | nil => rfl
    | cons code codes => exact map_bind_of (matchStmt?_ungroup stmt code b) (ih codes)

/-! ## Instances -/

/-- The template is no more than a placeholder for what is returned, so that a
candidate matches depending on its parent. -/
def asksForReturn (t : Template) : Bool :=
  match t.body with
  | .expr (.placeholder name) => (t.placeholder? name).any (·.guard == some .parentIsReturn)
  | _ => false

/-- Other templates do not look at the parent of a candidate. -/
theorem matchExpr?_of_asksForReturn {e : Expr} (hbody : t.body = .expr e)
    (h : t.asksForReturn = true → mayReturn p = mayReturn q) (code : Node) (b : Bindings) :
    t.matchExpr? o e code p b = t.matchExpr? o e code q b := by
  cases e
  case placeholder name =>
    rw [asksForReturn, hbody] at h
    rw [matchExpr?, matchExpr?]
    unfold matchPlaceholder?
    cases hplaceholder : t.placeholder? name with
    | none => rfl
    | some placeholder =>
      dsimp only at h
      rw [hplaceholder] at h
      cases hguard : placeholder.guard with
      | none => simp only [Option.bind_eq_bind, Option.bind_some, hguard]
      | some guard =>
        have hholds (n : Node) : guard.holds n p = guard.holds n q := by
          cases guard with
          | throws => rfl
          | parentIsReturn => exact Guard.holds_congr (h (by simp [hguard])) _ n
        simp only [Option.bind_eq_bind, Option.bind_some, hguard, hholds]
  all_goals simp only [matchExpr?]

/-- Runs of so many nodes begin at each node that enough nodes follow. -/
theorem windows_eq_map {k : Nat} (hk : 0 < k) (ns : List Node) :
    windows k ns = (List.range (ns.length + 1 - k)).map fun j => (ns.drop j).take k := by
  induction ns with
  | nil =>
    rw [windows, List.length_nil, Nat.sub_eq_zero_of_le (by omega)]
    rfl
  | cons n ns ih =>
    rw [windows, ih]
    split
    · rename_i hshort
      rw [Nat.sub_eq_zero_of_le (by omega)]
      rfl
    · have hsome : (n :: ns).length + 1 - k = (ns.length + 1 - k) + 1 := by
        rw [List.length_cons] at *
        omega
      rw [hsome, List.range_succ_eq_map, List.map_cons, List.map_map]
      rfl

end Template

/-- Two spans are those of the same part of two nodes: all of each, or as many
statements of both blocks after as many others. -/
inductive SamePart : Node → Node → Span → Span → Prop
  | whole (n m : Node) : SamePart n m n.span m.span
  | run (i i' : NodeInfo) (ns ms : List Node) {j k : Nat} :
      0 < k → j + k ≤ ns.length → j + k ≤ ms.length →
      SamePart (.block i ns) (.block i' ms) (Template.spanOf ((ns.drop j).take k))
        (Template.spanOf ((ms.drop j).take k))

/-- Two instances are the same part of two nodes, and bind the same up to
grouping. -/
structure Instance.Corresponds (keep : Bool) (n m : Node) (a b : Instance) : Prop where
  part : SamePart n m a.span b.span
  bindings : a.bindings.ungroup keep = b.bindings.ungroup keep

namespace Template

open Node

variable {o : TypeOracle} {t : Template} {keep : Bool} {p q : Option Node} {n m : Node}

theorem rel_of_map_eq {α β : Type} {f : α → β} {x y : Option α} (h : x.map f = y.map f) :
    Option.Rel (fun a b => f a = f b) x y := by
  cases x <;> cases y
  case none.none => exact .none
  case some.some => exact .some (Option.some.inj h)
  all_goals exact absurd h (by simp)

theorem matchExpr?_of_ungroup_eq {e : Expr} (hbody : t.body = .expr e)
    (h : n.ungroup keep = m.ungroup keep)
    (hguard : t.asksForReturn = true → mayReturn p = mayReturn q) :
    (t.matchExpr? o e n p .empty).map (Bindings.ungroup keep) =
      (t.matchExpr? o e m q .empty).map (Bindings.ungroup keep) := by
  rw [matchExpr?_of_asksForReturn hbody hguard, matchExpr?_ungroup e q q rfl, h,
    ← matchExpr?_ungroup e q q rfl]

/-- An expression template has corresponding instances. -/
theorem forall₂_instances_expr {e : Expr} (hbody : t.body = .expr e) (hn : n.isParen = false)
    (hm : m.isParen = false) (h : n.ungroup keep = m.ungroup keep)
    (hguard : t.asksForReturn = true → mayReturn p = mayReturn q) :
    List.Forall₂ (Instance.Corresponds keep n m) (t.instances o n p) (t.instances o m q) := by
  have hexpr : n.isExpression = m.isExpression :=
    (isExpression_ungroup n).symm.trans ((congrArg Node.isExpression h).trans
      (isExpression_ungroup m))
  have hty : n.ty? = m.ty? := by
    have hinfo := congrArg Node.info h
    rw [(kept_ungroup hn).info, (kept_ungroup hm).info] at hinfo
    exact congrArg (·.ty) hinfo
  have hmatch := matchExpr?_of_ungroup_eq (o := o) hbody h hguard
  unfold instances
  rw [hbody]
  dsimp only
  rw [hexpr, hn, hm, hty]
  cases m.isExpression with
  | false => exact .nil
  | true =>
    rw [if_neg (by simp), if_neg (by simp)]
    generalize t.matchExpr? o e n p .empty = x at hmatch
    generalize t.matchExpr? o e m q .empty = y at hmatch
    cases rel_of_map_eq hmatch with
    | none => exact .nil
    | @some b b' hb =>
      obtain ⟨hexprs, hlocals, htypes⟩ := Bindings.ungroup_eq_iff.1 hb
      have hsame (types : Dict Ty) :
          ({ b with types }).ungroup keep = ({ b' with types }).ungroup keep :=
        Bindings.ungroup_eq_iff.2 ⟨hexprs, hlocals, rfl⟩
      rw [Option.bind_eq_bind, Option.bind_eq_bind, Option.bind_some, Option.bind_some, htypes]
      cases m.ty? with
      | none => exact .cons ⟨.whole n m, hb⟩ .nil
      | some ty =>
        dsimp only
        split
        · exact .cons ⟨.whole n m, hb⟩ .nil
        · cases o.assign? t.returnType ty b'.types with
          | none => exact .nil
          | some types => exact .cons ⟨.whole n m, hsame types⟩ .nil

/-- Blocks of one ungrouped form have corresponding runs of statements. -/
theorem forall₂_windows {k : Nat} (hk : 0 < k) (i i' : NodeInfo) {ns ms : List Node}
    (h : ns.map (Node.ungroup keep) = ms.map (Node.ungroup keep)) :
    List.Forall₂ (fun run run' => run.map (Node.ungroup keep) = run'.map (Node.ungroup keep) ∧
        SamePart (.block i ns) (.block i' ms) (spanOf run) (spanOf run'))
      (windows k ns) (windows k ms) := by
  have hlength : ns.length = ms.length := by simpa using congrArg List.length h
  rw [windows_eq_map hk, windows_eq_map hk, hlength, List.forall₂_map_left_iff,
    List.forall₂_map_right_iff, List.forall₂_same]
  intro j hj
  have hlt := List.mem_range.1 hj
  refine ⟨?_, .run i i' ns ms hk (by omega) (by omega)⟩
  rw [List.map_take, List.map_drop, h, List.map_take, List.map_drop]

/-- So has a block template. -/
theorem forall₂_instances_block {stmts : List Stmt} (hbody : t.body = .block stmts)
    (hn : n.isParen = false) (hm : m.isParen = false) (h : n.ungroup keep = m.ungroup keep) :
    List.Forall₂ (Instance.Corresponds keep n m) (t.instances o n p) (t.instances o m q) := by
  have hblock : n.isBlock = m.isBlock :=
    (kept_ungroup hn).isBlock.symm.trans ((congrArg isBlock h).trans (kept_ungroup hm).isBlock)
  have hexpr : t.isExpression = false := by rw [isExpression, hbody]
  cases hisBlock : m.isBlock with
  | false =>
    have hnone {n : Node} {p : Option Node} (hn : n.isBlock = false) : t.instances o n p = [] :=
      Scan.instances_eq_nil (fun h => absurd (h.symm.trans hexpr) (by simp)) fun _ => hn
    rw [hnone (hblock.trans hisBlock), hnone hisBlock]
    exact .nil
  | true =>
    obtain ⟨i, ns, rfl⟩ := exists_of_isBlock (hblock.trans hisBlock)
    obtain ⟨i', ms, rfl⟩ := exists_of_isBlock hisBlock
    obtain ⟨-, hcodes⟩ := Node.block.inj h
    rw [ungroups_eq_map, ungroups_eq_map] at hcodes
    unfold instances
    rw [hbody]
    cases stmts with
    | nil => exact .nil
    | cons stmt stmts =>
      refine List.rel_filterMap ?_ (forall₂_windows (by simp) i i' hcodes)
      rintro run run' ⟨hrun, hpart⟩
      have hmatch : (t.matchStmts? o (stmt :: stmts) run .empty).map (Bindings.ungroup keep) =
          (t.matchStmts? o (stmt :: stmts) run' .empty).map (Bindings.ungroup keep) := by
        rw [matchStmts?_ungroup, matchStmts?_ungroup, hrun]
      dsimp only
      generalize t.matchStmts? o (stmt :: stmts) run .empty = x at hmatch
      generalize t.matchStmts? o (stmt :: stmts) run' .empty = y at hmatch
      cases rel_of_map_eq hmatch with
      | none => exact .none
      | some hb => exact .some ⟨hpart, hb⟩

/-- **Nodes of one ungrouped form have corresponding instances**, unless a guard
tells their parents apart. -/
theorem forall₂_instances (hn : n.isParen = false) (hm : m.isParen = false)
    (h : n.ungroup keep = m.ungroup keep)
    (hguard : t.asksForReturn = true → mayReturn p = mayReturn q) :
    List.Forall₂ (Instance.Corresponds keep n m) (t.instances o n p) (t.instances o m q) := by
  cases hbody : t.body with
  | expr e => exact forall₂_instances_expr hbody hn hm h hguard
  | block stmts => exact forall₂_instances_block hbody hn hm h

end Template

end Codemod
