import Codemod.Template.Basic
import Codemod.Template.Bindings
import Codemod.Tree.Shape
import Codemod.Types.Inference
/-!
# Matching templates

Where a template matches code, and what its names stand for there. An
expression template is compared with one expression, constructor by
constructor; a block template with every run of as many statements of a block.
Grouping parentheses in the code are passed over, a static member may be
written without its class where it is imported, and a method may be inherited.

The comparison goes from left to right and extends the bindings on its way, so
that the first use of a placeholder binds it and later uses must have the same
shape.
-/

namespace Codemod

/-- A place that matches a template. -/
structure Instance where
  span : Span
  bindings : Bindings
  deriving BEq, Inhabited

namespace Template

/-- The condition holds of an expression below its parent. What has no parent
may be returned. -/
def Guard.holds (guard : Guard) (node : Node) (parent : Option Node) : Bool :=
  match guard with
  | .parentIsReturn =>
    match parent with
    | none => true
    | some (.ret ..) => true
    | some _ => false
  | .throws exception =>
    match node, node.methodSymbol? with
    | .methodRef .., some method => method.thrown.contains exception
    | _, _ => false

/-- The method is the named one; an instance method may be declared by a
subclass. -/
def MethodKey.denotes (o : TypeOracle) (key : MethodKey) (method : MethodSymbol) : Bool :=
  key.name == method.name && key.isStatic == method.isStatic &&
    (key.owner == method.owner ||
      (!key.isStatic && o.isSubtype (.plain method.owner) (.plain key.owner)))

variable (o : TypeOracle) (t : Template)

/-- Compares a use of a placeholder with an expression that stands in no
parentheses. -/
def matchPlaceholder? (name : String) (node : Node) (parent : Option Node) (b : Bindings) :
    Option Bindings := do
  let placeholder ← t.placeholder? name
  if !node.isExpression then none
  match b.get? name with
  | some bound => if bound.node.sameShape node then some b else none
  | none =>
    let ty ← node.ty?
    let types ← o.assign? placeholder.ty ty b.types
    match placeholder.guard with
    | some guard => if !guard.holds node parent then none
    | none => pure ()
    return { b with types }.bindExpr name ⟨node, ty⟩

/-- The node refers to the class. -/
def refersToClass (name : String) : Node → Bool
  | .ident i _ | .select i _ _ _ => i.symbol == some (.ofClass name)
  | _ => false

/-- The node is the imported static field of a class. -/
def isImportedField (receiver : Expr) (symbol : Option Symbol) : Bool :=
  match receiver, symbol with
  | .classRef name, some (.ofField owner _ true) => owner == name
  | _, _ => false

mutual

/-- Compares an expression of the template with one of the code. -/
def matchExpr? : Expr → (code : Node) → (parent : Option Node) → Bindings → Option Bindings
  | .placeholder name, code, parent, b => t.matchPlaceholder? o name code.skipParens parent b
  | .localRef name, code, _, b =>
    match code.skipParens with
    | .ident ⟨_, _, some (.ofLocal code)⟩ _ => b.bindLocal? name code
    | _ => none
  | .literal value, code, _, b =>
    match code.skipParens with
    | .literal _ value' => if value' == value then some b else none
    | _ => none
  | .classRef name, code, _, b => if refersToClass name code.skipParens then some b else none
  | .field receiver name, code, _, b =>
    match code.skipParens with
    | .select i target name' nameSpan =>
      if name' = name then
        matchExpr? receiver target (some (.select i target name' nameSpan)) b
      else none
    | .ident i name' => if name' = name && isImportedField receiver i.symbol then some b else none
    | _ => none
  | .call receiver method args, code, _, b =>
    match code.skipParens with
    | .call i callee args' => do
      let node := Node.call i callee args'
      let called ← node.methodSymbol?
      if args'.length != args.length || !method.denotes o called then none
      let b ← match callee with
        | .select _ target _ _ => matchExpr? receiver target (some node) b
        | .ident .. => if method.isStatic then some b else none
        | _ => none
      matchExprs? args args' (some node) b
    | _ => none
  | .methodRef receiver method, code, _, b =>
    match code.skipParens with
    | .methodRef i target name => do
      let node := Node.methodRef i target name
      let called ← node.methodSymbol?
      if !method.denotes o called then none
      matchExpr? receiver target (some node) b
    | _ => none
  | .unary op operand, code, _, b =>
    match code.skipParens with
    | .unary i op' operand' =>
      if op' = op then matchExpr? operand operand' (some (.unary i op' operand')) b else none
    | _ => none
  | .binary op lhs rhs, code, _, b =>
    match code.skipParens with
    | .binary i op' lhs' rhs' =>
      if op' = op then
        let node := Node.binary i op' lhs' rhs'
        (matchExpr? lhs lhs' (some node) b).bind (matchExpr? rhs rhs' (some node))
      else none
    | _ => none
  | .cast target expr, code, _, b =>
    match code.skipParens with
    | .cast i target' expr' => do
      let types ← o.agree? target target' b.types
      matchExpr? expr expr' (some (.cast i target' expr')) { b with types }
    | _ => none
termination_by structural e => e

/-- Compares arguments one by one. -/
def matchExprs? : List Expr → List Node → (parent : Option Node) → Bindings → Option Bindings
  | [], [], _, b => some b
  | e :: es, n :: ns, parent, b => (matchExpr? e n parent b).bind (matchExprs? es ns parent)
  | _, _, _, _ => none
termination_by structural es => es

end

/-- Compares a statement of the template with one of the code. -/
def matchStmt? (stmt : Stmt) (code : Node) (b : Bindings) : Option Bindings :=
  match stmt, code with
  | .expr e, .exprStmt _ c => t.matchExpr? o e c (some code) b
  | .ret none, .ret _ none => some b
  | .ret (some e), .ret _ (some c) => t.matchExpr? o e c (some code) b
  | .localVar name ty init, .localVar _ name' declared init' => do
    let b ← b.bindLocal? name name'
    let types ← o.agree? ty declared b.types
    let b := { b with types }
    match init, init' with
    | none, none => some b
    | some e, some c => t.matchExpr? o e c (some code) b
    | _, _ => none
  | _, _ => none

/-- Compares the statements of the template with as many statements of the
code, one by one. -/
def matchStmts? : List Stmt → List Node → Bindings → Option Bindings
  | [], _, b => some b
  | s :: stmts, c :: code, b => (t.matchStmt? o s c b).bind (matchStmts? stmts code)
  | _ :: _, [], _ => none

/-- From the first to the last of a run of nodes. -/
def spanOf : List Node → Span
  | [] => ⟨0, 0⟩
  | n :: rest => n.span.hull ((rest.getLast?.getD n).span)

/-- Every run of so many nodes. -/
def windows (length : Nat) : List Node → List (List Node)
  | [] => []
  | n :: rest =>
    if (n :: rest).length < length then []
    else (n :: rest).take length :: windows length rest

/-- The places in a candidate that match the template: the candidate itself
for an expression template, runs of its statements for a block template. A
parenthesized candidate is passed over, since what it encloses is a candidate
of its own. -/
def instances (candidate : Node) (parent : Option Node) : List Instance :=
  match t.body with
  | .expr e =>
    if !candidate.isExpression || candidate.isParen then []
    else
      let bindings? := do
        let b ← t.matchExpr? o e candidate parent .empty
        match candidate.ty? with
        | some ty =>
          if t.returnType.isNamed Name.void then some b
          else
            let types ← o.assign? t.returnType ty b.types
            some { b with types }
        | none => some b
      (bindings?.map fun b => ⟨candidate.span, b⟩).toList
  | .block stmts =>
    match stmts, candidate with
    | [], _ => []
    | stmts, .block _ code =>
      (windows stmts.length code).filterMap fun window =>
        (t.matchStmts? o stmts window .empty).map fun b => ⟨spanOf window, b⟩
    | _, _ => []

end Template

end Codemod
