import Codemod.Tree.Basic
/-!
# Templates

A template is a pattern that does not depend on where it was written: classes
and methods go by their qualified names, and every parameter is a placeholder
with a declared type. The same form serves to match code and to produce it.

An expression template stands for one expression, a block template for a run
of statements. `Template.referenced` lists the placeholders its body uses.
-/

namespace Codemod

namespace Template

/-- A condition on the expression bound to a placeholder. -/
inductive Guard where
  /-- It is what a `return` statement returns. -/
  | parentIsReturn
  /-- It is a reference to a method that declares the exception. -/
  | throws (exception : String)
  deriving DecidableEq, Inhabited

/-- A parameter of a template. -/
structure Placeholder where
  name : String
  ty : Ty
  guard : Option Guard
  deriving DecidableEq, Inhabited

/-- A method by the class that declares it and its name. -/
structure MethodKey where
  owner : String
  name : String
  isStatic : Bool
  deriving DecidableEq, Inhabited

/-- An expression of a template. A static call has its class as receiver. -/
inductive Expr where
  | placeholder (name : String)
  | localRef (name : String)
  | literal (value : Literal)
  | classRef (name : String)
  | field (receiver : Expr) (name : String)
  | call (receiver : Expr) (method : MethodKey) (args : List Expr)
  | methodRef (receiver : Expr) (method : MethodKey)
  | unary (op : UnaryOp) (operand : Expr)
  | binary (op : BinaryOp) (lhs rhs : Expr)
  | cast (target : Ty) (expr : Expr)
  deriving Inhabited

/-- A statement of a template. -/
inductive Stmt where
  | expr (e : Expr)
  | ret (e : Option Expr)
  | localVar (name : String) (ty : Ty) (init : Option Expr)
  deriving Inhabited

/-- What a template stands for: one expression, or a run of statements. -/
inductive Body where
  | expr (e : Expr)
  | block (stmts : List Stmt)
  deriving Inhabited

namespace Expr

/-- How tightly the expression binds when it is printed. -/
def precedence : Expr → Nat
  | .binary op _ _ => op.precedence
  | .unary .. | .cast .. => Precedence.unary
  | _ => Precedence.primary

mutual

/-- Every use of a placeholder, in order. -/
def placeholderUses : Expr → List String
  | .placeholder name => [name]
  | .localRef _ | .literal _ | .classRef _ => []
  | .field receiver _ | .methodRef receiver _ => placeholderUses receiver
  | .call receiver _ args => placeholderUses receiver ++ allPlaceholderUses args
  | .unary _ operand => placeholderUses operand
  | .binary _ lhs rhs => placeholderUses lhs ++ placeholderUses rhs
  | .cast _ expr => placeholderUses expr

/-- Every use of a placeholder in expressions, in order. -/
def allPlaceholderUses : List Expr → List String
  | [] => []
  | e :: rest => placeholderUses e ++ allPlaceholderUses rest

end

end Expr

namespace Stmt

/-- The expression in the statement, if it has one. -/
def expr? : Stmt → Option Expr
  | .expr e => some e
  | .ret e => e
  | .localVar _ _ init => init

end Stmt

namespace Body

/-- The expressions of the body, in order. -/
def exprs : Body → List Expr
  | .expr e => [e]
  | .block stmts => stmts.filterMap Stmt.expr?

end Body

end Template

/-- A pattern to match code with or to replace it by. -/
structure Template where
  name : String
  typeParams : List TypeVar
  params : List Template.Placeholder
  returnType : Ty
  body : Template.Body
  deriving Inhabited

namespace Template

/-- The declaration of a placeholder. -/
def placeholder? (t : Template) (name : String) : Option Placeholder :=
  t.params.find? (·.name == name)

/-- The template stands for one expression. -/
def isExpression (t : Template) : Bool :=
  match t.body with
  | .expr _ => true
  | .block _ => false

/-- The placeholders that the body uses, in the order of their first uses. -/
def referenced (t : Template) : List String :=
  (t.body.exprs.flatMap Expr.placeholderUses).eraseDups

end Template

end Codemod
