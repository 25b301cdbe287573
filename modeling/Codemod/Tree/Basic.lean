import Codemod.Tree.Annotation
import Codemod.Tree.Span
/-!
# Resolved trees

A tree is handed over with every name resolved: each node carries the span of
the text it stands for, its static type where it has one, and the symbol it
refers to. Nothing here changes a tree; replacements are texts for spans.

Nine kinds of node are expressions, the next eight statements, and the last
three declarations. Grouping parentheses are nodes of their own.
-/

namespace Codemod

/-- A method that a call or a method reference resolved to. -/
structure MethodSymbol where
  /-- The class that declares it. -/
  owner : String
  name : String
  isStatic : Bool
  returnType : Ty
  /-- The declared exceptions, by qualified name. -/
  thrown : List String
  /-- The call that takes the place of a call of this method, where its
  declaration says so. -/
  inlineReplacement : Option String
  deriving DecidableEq, Inhabited

/-- What a name refers to. -/
inductive Symbol where
  | ofClass (name : String)
  | ofMethod (method : MethodSymbol)
  | ofField (owner name : String) (isStatic : Bool)
  | ofLocal (name : String)
  | ofParam (name : String)
  deriving DecidableEq, Inhabited

/-- A parameter of a declared method. -/
structure Param where
  name : String
  ty : Ty
  annotations : List Annotation
  deriving BEq, Inhabited

/-- A method declaration without its body. -/
structure MethodHead where
  name : String
  annotations : List Annotation
  typeParams : List TypeVar
  params : List Param
  returnType : Ty
  deriving BEq, Inhabited

/-- A class declaration without its members. The name is qualified, and a
nested class has the name of the outer one before its own. -/
structure ClassHead where
  name : String
  annotations : List Annotation
  typeParams : List TypeVar
  deriving BEq, Inhabited

/-- What every node carries. -/
structure NodeInfo where
  span : Span
  ty : Option Ty
  symbol : Option Symbol
  deriving DecidableEq, Inhabited

/-- A node of a resolved tree. -/
inductive Node where
  | ident (info : NodeInfo) (name : String)
  | literal (info : NodeInfo) (value : Literal)
  | select (info : NodeInfo) (target : Node) (name : String) (nameSpan : Span)
  | call (info : NodeInfo) (callee : Node) (args : List Node)
  | methodRef (info : NodeInfo) (target : Node) (name : String)
  | unary (info : NodeInfo) (op : UnaryOp) (operand : Node)
  | binary (info : NodeInfo) (op : BinaryOp) (lhs rhs : Node)
  | cast (info : NodeInfo) (target : Ty) (expr : Node)
  | paren (info : NodeInfo) (expr : Node)
  | block (info : NodeInfo) (stmts : List Node)
  | exprStmt (info : NodeInfo) (expr : Node)
  | ret (info : NodeInfo) (expr : Option Node)
  | localVar (info : NodeInfo) (name : String) (declared : Ty) (init : Option Node)
  | ifElse (info : NodeInfo) (cond thenBranch : Node) (elseBranch : Option Node)
  | whileLoop (info : NodeInfo) (cond body : Node)
  | doWhile (info : NodeInfo) (body cond : Node)
  | synchronized (info : NodeInfo) (lock body : Node)
  | methodDecl (info : NodeInfo) (head : MethodHead) (body : Option Node)
  | classDecl (info : NodeInfo) (head : ClassHead) (members : List Node)
  | unit (info : NodeInfo) (items : List Node)
  deriving BEq, Inhabited

namespace MethodSymbol

/-- Owner and name, joined by a dot. -/
def qualifiedName (m : MethodSymbol) : String := m.owner ++ "." ++ m.name

end MethodSymbol

namespace Node

/-! ## What a node carries -/

/-- What the node carries. -/
def info : Node → NodeInfo
  | .ident i .. | .literal i .. | .select i .. | .call i .. | .methodRef i .. | .unary i ..
  | .binary i .. | .cast i .. | .paren i .. | .block i .. | .exprStmt i .. | .ret i ..
  | .localVar i .. | .ifElse i .. | .whileLoop i .. | .doWhile i .. | .synchronized i ..
  | .methodDecl i .. | .classDecl i .. | .unit i .. => i

/-- The node carrying something else. -/
def withInfo (i : NodeInfo) : Node → Node
  | .ident _ name => .ident i name
  | .literal _ value => .literal i value
  | .select _ target name nameSpan => .select i target name nameSpan
  | .call _ callee args => .call i callee args
  | .methodRef _ target name => .methodRef i target name
  | .unary _ op operand => .unary i op operand
  | .binary _ op lhs rhs => .binary i op lhs rhs
  | .cast _ target expr => .cast i target expr
  | .paren _ expr => .paren i expr
  | .block _ stmts => .block i stmts
  | .exprStmt _ expr => .exprStmt i expr
  | .ret _ expr => .ret i expr
  | .localVar _ name declared init => .localVar i name declared init
  | .ifElse _ cond thenBranch elseBranch => .ifElse i cond thenBranch elseBranch
  | .whileLoop _ cond body => .whileLoop i cond body
  | .doWhile _ body cond => .doWhile i body cond
  | .synchronized _ lock body => .synchronized i lock body
  | .methodDecl _ head body => .methodDecl i head body
  | .classDecl _ head members => .classDecl i head members
  | .unit _ items => .unit i items

/-- The text that the node stands for. -/
def span (n : Node) : Span := n.info.span

/-- The static type of the node. -/
def ty? (n : Node) : Option Ty := n.info.ty

/-- What the node refers to. -/
def symbol? (n : Node) : Option Symbol := n.info.symbol

/-! ## Kinds -/

/-- The name of the node's kind, as matches and messages show it. -/
def kindName : Node → String
  | .ident .. => "identifier"
  | .literal .. => "literal"
  | .select .. => "member-select"
  | .call .. => "invocation"
  | .methodRef .. => "method-reference"
  | .unary .. => "unary"
  | .binary .. => "binary"
  | .cast .. => "cast"
  | .paren .. => "parenthesized"
  | .block .. => "block"
  | .exprStmt .. => "expression-statement"
  | .ret .. => "return"
  | .localVar .. => "local"
  | .ifElse .. => "if"
  | .whileLoop .. => "while"
  | .doWhile .. => "do-while"
  | .synchronized .. => "synchronized"
  | .methodDecl .. => "method"
  | .classDecl .. => "class"
  | .unit .. => "compilation-unit"

/-- The node is an expression. -/
def isExpression : Node → Bool
  | .ident .. | .literal .. | .select .. | .call .. | .methodRef .. | .unary .. | .binary ..
  | .cast .. | .paren .. => true
  | _ => false

/-- The node is a block. -/
def isBlock : Node → Bool
  | .block .. => true
  | _ => false

/-- The node is a pair of grouping parentheses. -/
def isParen : Node → Bool
  | .paren .. => true
  | _ => false

/-- How tightly the node binds when it is printed. -/
def precedence : Node → Nat
  | .binary _ op _ _ => op.precedence
  | .unary .. | .cast .. => Precedence.unary
  | _ => Precedence.primary

/-! ## Parts -/

/-- The direct children, in source order. -/
def children : Node → List Node
  | .ident .. | .literal .. => []
  | .select _ target _ _ | .methodRef _ target _ => [target]
  | .call _ callee args => callee :: args
  | .unary _ _ operand => [operand]
  | .binary _ _ lhs rhs => [lhs, rhs]
  | .cast _ _ expr | .paren _ expr | .exprStmt _ expr => [expr]
  | .block _ nodes | .classDecl _ _ nodes | .unit _ nodes => nodes
  | .ret _ part | .localVar _ _ _ part | .methodDecl _ _ part => part.toList
  | .ifElse _ cond thenBranch elseBranch => cond :: thenBranch :: elseBranch.toList
  | .whileLoop _ cond body => [cond, body]
  | .doWhile _ body cond => [body, cond]
  | .synchronized _ lock body => [lock, body]

/-- A child is smaller than its parent. -/
theorem sizeOf_lt_of_mem_children {c n : Node} (h : c ∈ n.children) : sizeOf c < sizeOf n := by
  cases n <;> simp only [children, List.mem_cons, List.not_mem_nil, or_false,
    Option.mem_toList] at h
  case select | methodRef | unary | cast | paren | exprStmt =>
    subst h
    simp only [select.sizeOf_spec, methodRef.sizeOf_spec, unary.sizeOf_spec, cast.sizeOf_spec,
      paren.sizeOf_spec, exprStmt.sizeOf_spec]
    omega
  case binary | whileLoop | doWhile | synchronized =>
    rcases h with rfl | rfl <;>
      simp only [binary.sizeOf_spec, whileLoop.sizeOf_spec, doWhile.sizeOf_spec,
        synchronized.sizeOf_spec] <;>
      omega
  case block | classDecl | unit =>
    have := List.sizeOf_lt_of_mem h
    simp only [block.sizeOf_spec, classDecl.sizeOf_spec, unit.sizeOf_spec]
    omega
  case ret | localVar | methodDecl =>
    subst h
    simp only [ret.sizeOf_spec, localVar.sizeOf_spec, methodDecl.sizeOf_spec,
      Option.some.sizeOf_spec]
    omega
  case call =>
    rcases h with rfl | h
    · simp only [call.sizeOf_spec]
      omega
    · have := List.sizeOf_lt_of_mem h
      simp only [call.sizeOf_spec]
      omega
  case ifElse =>
    rcases h with rfl | rfl | rfl <;>
      simp only [ifElse.sizeOf_spec, Option.some.sizeOf_spec] <;>
      omega

/-- The node within any number of grouping parentheses. -/
def skipParens : Node → Node
  | .paren _ expr => skipParens expr
  | n => n

/-- How many pairs of grouping parentheses the node is made of. -/
def parenCount : Node → Nat
  | .paren _ expr => parenCount expr + 1
  | _ => 0

/-- The node within one pair of grouping parentheses, if it stands in one. -/
def stripParen : Node → Node
  | .paren _ expr => expr
  | n => n

theorem sizeOf_stripParen_le (n : Node) : sizeOf n.stripParen ≤ sizeOf n := by
  cases n <;> simp [stripParen]

/-- The method a call or a method reference resolved to. A call that carries
no method itself is resolved by its callee. -/
def methodSymbol? (n : Node) : Option MethodSymbol :=
  match n.symbol?, n with
  | some (.ofMethod m), _ => some m
  | _, .call _ callee _ =>
    match callee.symbol? with
    | some (.ofMethod m) => some m
    | _ => none
  | _, _ => none

/-- The annotations of a declaration. -/
def annotations : Node → List Annotation
  | .methodDecl _ head _ => head.annotations
  | .classDecl _ head _ => head.annotations
  | _ => []

end Node

end Codemod
