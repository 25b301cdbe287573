import Codemod.Tree.Basic
/-!
# Fresh nodes

Trees made by hand have no text yet, so their nodes start with an empty span
at the beginning. What a node's parts say about its type and symbol is filled
in: a call has the type its method returns, a literal that of its constant, and
parentheses that of what they enclose.
-/

namespace Codemod

namespace NodeInfo

/-- No place in a text, no type and no symbol. -/
def blank : NodeInfo := ⟨⟨0, 0⟩, none, none⟩

/-- A type and nothing else. -/
def ofTy (ty : Option Ty) : NodeInfo := { blank with ty }

/-- A symbol and nothing else. -/
def ofSymbol (symbol : Symbol) : NodeInfo := { blank with symbol := some symbol }

end NodeInfo

namespace Node

/-- The node with a static type. -/
def typed (ty : Ty) (n : Node) : Node := n.withInfo { n.info with ty := some ty }

/-- The node referring to a symbol. -/
def resolved (symbol : Symbol) (n : Node) : Node :=
  n.withInfo { n.info with symbol := some symbol }

/-- The node standing for the text at a span. -/
def withSpan (span : Span) (n : Node) : Node := n.withInfo { n.info with span }

end Node

namespace Fresh

open NodeInfo

/-- An identifier that is not resolved. -/
def ident (name : String) : Node := .ident blank name

/-- A reference to a class, written with its simple name. -/
def classRef (qualified : String) : Node :=
  .ident (ofSymbol (.ofClass qualified)) (Name.simple qualified)

/-- The type of a constant; the null literal has none. -/
def literalTy : Literal → Option Ty
  | .int _ => some (.plain "int")
  | .float _ => some (.plain "double")
  | .bool _ => some (.plain "boolean")
  | .char _ => some (.plain "char")
  | .str _ => some (.plain "java.lang.String")
  | .null => none

/-- A constant. -/
def literal (value : Literal) : Node := .literal (ofTy (literalTy value)) value

/-- A member of a target, not resolved. -/
def select (target : Node) (name : String) : Node := .select blank target name ⟨0, 0⟩

/-- A call of a method, which the callee refers to as well. -/
def call (callee : Node) (method : MethodSymbol) (args : List Node) : Node :=
  .call { ofSymbol (.ofMethod method) with ty := some method.returnType }
    (callee.resolved (.ofMethod method)) args

/-- A reference to a method. -/
def methodRef (target : Node) (method : MethodSymbol) : Node :=
  .methodRef (ofSymbol (.ofMethod method)) target method.name

/-- An operator before its operand, whose type it has. -/
def unary (op : UnaryOp) (operand : Node) : Node := .unary (ofTy operand.ty?) op operand

/-- An operator between its operands. -/
def binary (op : BinaryOp) (lhs rhs : Node) : Node := .binary blank op lhs rhs

/-- A cast, which has the type it is to. -/
def cast (target : Ty) (expr : Node) : Node := .cast (ofTy (some target)) target expr

/-- Grouping parentheses. -/
def paren (expr : Node) : Node := .paren (ofTy expr.ty?) expr

/-- A block. -/
def block (stmts : List Node) : Node := .block blank stmts

/-- An expression as a statement. -/
def exprStmt (expr : Node) : Node := .exprStmt blank expr

/-- A return of a value, or of none. -/
def ret (expr : Option Node) : Node := .ret blank expr

/-- The declaration of a local. -/
def localVar (name : String) (declared : Ty) (init : Option Node) : Node :=
  .localVar blank name declared init

/-- A branch, with what is done otherwise. -/
def ifElse (cond thenBranch : Node) (elseBranch : Option Node) : Node :=
  .ifElse blank cond thenBranch elseBranch

/-- A loop that asks before each turn. -/
def whileLoop (cond body : Node) : Node := .whileLoop blank cond body

/-- The declaration of a method. -/
def methodDecl (head : MethodHead) (body : Option Node) : Node := .methodDecl blank head body

/-- The declaration of a class, which refers to the class. -/
def classDecl (head : ClassHead) (members : List Node) : Node :=
  .classDecl (ofSymbol (.ofClass head.name)) head members

/-- A compilation unit. -/
def unit (items : List Node) : Node := .unit blank items

end Fresh

end Codemod
