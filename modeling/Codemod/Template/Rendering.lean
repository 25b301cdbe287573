import Codemod.Template.Basic
import Codemod.Template.Bindings
import Codemod.Tree.Layout
import Codemod.Types.Oracle
/-!
# Rendering templates

The text a template stands for once its names are bound. A placeholder becomes
the source text of what it is bound to, a class its simple name, a local the
local it is bound to, and a type has its variables replaced. A part that binds
less tightly than its place requires is put in parentheses. Every class that
the text names must exist, and is imported unless every unit sees it anyway.
-/

namespace Codemod

/-- Why a template has no text. -/
inductive RenderError where
  /-- A placeholder stands for nothing. -/
  | unresolvedPlaceholder (rule template placeholder : String)
  /-- A class that the text names does not exist. -/
  | unresolvedImport (rule name : String)
  deriving DecidableEq, Inhabited

namespace RenderError

/-- What is reported. -/
def message : RenderError → String
  | .unresolvedPlaceholder rule template placeholder =>
    "Rule " ++ rule ++ ": unresolved placeholder '" ++ placeholder ++ "' in " ++ template
  | .unresolvedImport rule name => "Rule " ++ rule ++ ": could not resolve import " ++ name

end RenderError

/-- A text and the classes it needs imported. -/
structure Replacement where
  text : String
  imports : NameSet
  deriving Inhabited

namespace Rendering

/-- The top-level classes of `java.lang` need no import. -/
def isImplicitlyImported (name : String) : Bool :=
  match Name.segments name with
  | [first, second, _] => first == "java".toList && second == "lang".toList
  | _ => false

/-- What binds less tightly than required is put in parentheses. -/
def parenthesize (precedence required : Nat) (text : String) : String :=
  if precedence < required then "(" ++ text ++ ")" else text

/-- The source text of a node, or its print when its span selects none. -/
def sourceOf (source : String) (node : Node) : String :=
  match node.span.slice? source with
  | some text => if node.span.isEmpty then node.print else text
  | none => node.print

/-- The blanks and tabs that begin the line around an offset. An offset that
does not split the source stands for its end. -/
def indentAt (source : String) (offset : Nat) : String :=
  let before := (Text.slice? source 0 offset).getD source
  let line := (before.toList.reverse.takeWhile (· != '\n')).length
  let rest := source.toList.drop (before.toList.length - line)
  String.ofList (rest.takeWhile fun c => c == ' ' || c == '\t')

end Rendering

open Rendering

/-- What rendering goes by: the classes that exist, the source text, the
names of the rule and of the template, and the bindings. -/
structure RenderContext where
  oracle : TypeOracle
  source : String
  rule : String
  template : String
  bindings : Bindings

namespace RenderContext

variable (c : RenderContext)

/-- The imports that a class calls for. -/
def require (name : String) : Except RenderError NameSet :=
  if !c.oracle.canResolve name then .error (.unresolvedImport c.rule name)
  else if isImplicitlyImported name then .ok .empty
  else .ok (NameSet.empty.insert name)

/-- The imports that several classes call for. -/
def requireAll : List String → Except RenderError NameSet
  | [] => .ok .empty
  | name :: rest => do
    let imports ← c.require name
    return imports.union (← requireAll rest)

/-- A type with its variables replaced. -/
def renderTy (ty : Ty) : Except RenderError Replacement := do
  let ty := ty.substitute c.bindings.types
  return ⟨ty.toSource, ← c.requireAll ty.classNames⟩

/-- The local that a local of the template stands for. -/
def renderLocal (name : String) : String := (c.bindings.locals.get? name).getD name

mutual

/-- An expression at a place that requires a precedence. -/
def renderExpr (e : Template.Expr) (required : Nat) : Except RenderError Replacement :=
  match e with
  | .placeholder name =>
    match c.bindings.get? name with
    | none => .error (.unresolvedPlaceholder c.rule c.template name)
    | some bound =>
      .ok ⟨parenthesize bound.node.precedence required (sourceOf c.source bound.node), .empty⟩
  | .localRef name => .ok ⟨parenthesize Precedence.primary required (c.renderLocal name), .empty⟩
  | .literal value => .ok ⟨parenthesize Precedence.primary required value.toSource, .empty⟩
  | .classRef name => do
    let imports ← c.require name
    return ⟨parenthesize Precedence.primary required (Name.simple name), imports⟩
  | .field receiver name => do
    let ⟨text, imports⟩ ← renderExpr receiver Precedence.primary
    return ⟨parenthesize Precedence.primary required (text ++ "." ++ name), imports⟩
  | .call receiver method args => do
    let ⟨text, imports⟩ ← renderExpr receiver Precedence.primary
    let ⟨texts, argImports⟩ ← renderArgs args
    return ⟨parenthesize Precedence.primary required
      (text ++ "." ++ method.name ++ "(" ++ ", ".intercalate texts ++ ")"),
      imports.union argImports⟩
  | .methodRef receiver method => do
    let ⟨text, imports⟩ ← renderExpr receiver Precedence.primary
    return ⟨parenthesize Precedence.primary required (text ++ "::" ++ method.name), imports⟩
  | .unary op operand => do
    let ⟨text, imports⟩ ← renderExpr operand Precedence.unary
    return ⟨parenthesize Precedence.unary required (op.symbol ++ text), imports⟩
  | .binary op lhs rhs => do
    let ⟨left, imports⟩ ← renderExpr lhs op.precedence
    let ⟨right, rightImports⟩ ← renderExpr rhs (op.precedence + 1)
    return ⟨parenthesize op.precedence required (left ++ Layout.infixOp op ++ right),
      imports.union rightImports⟩
  | .cast target expr => do
    let ⟨ty, imports⟩ ← c.renderTy target
    let ⟨text, exprImports⟩ ← renderExpr expr Precedence.unary
    return ⟨parenthesize Precedence.unary required ("(" ++ ty ++ ") " ++ text),
      imports.union exprImports⟩
termination_by structural e

/-- Arguments, where nothing is required. -/
def renderArgs (es : List Template.Expr) : Except RenderError (List String × NameSet) :=
  match es with
  | [] => .ok ([], .empty)
  | e :: rest => do
    let ⟨text, imports⟩ ← renderExpr e 0
    let (texts, restImports) ← renderArgs rest
    return (text :: texts, imports.union restImports)
termination_by structural es

end

/-- The text of a statement. -/
def renderStmt : Template.Stmt → Except RenderError Replacement
  | .expr e => do
    let ⟨text, imports⟩ ← c.renderExpr e 0
    return ⟨text ++ ";", imports⟩
  | .ret none => .ok ⟨"return;", .empty⟩
  | .ret (some e) => do
    let ⟨text, imports⟩ ← c.renderExpr e 0
    return ⟨"return " ++ text ++ ";", imports⟩
  | .localVar name ty none => do
    let ⟨ty, imports⟩ ← c.renderTy ty
    return ⟨ty ++ " " ++ c.renderLocal name ++ ";", imports⟩
  | .localVar name ty (some init) => do
    let ⟨ty, imports⟩ ← c.renderTy ty
    let ⟨text, initImports⟩ ← c.renderExpr init 0
    return ⟨ty ++ " " ++ c.renderLocal name ++ " = " ++ text ++ ";", imports.union initImports⟩

/-- The texts of statements. -/
def renderStmts : List Template.Stmt → Except RenderError (List String × NameSet)
  | [] => .ok ([], .empty)
  | s :: rest => do
    let ⟨text, imports⟩ ← c.renderStmt s
    let (texts, restImports) ← renderStmts rest
    return (text :: texts, imports.union restImports)

end RenderContext

namespace Template

/-- The text that replaces what stands at a span, where an expression must
bind as tightly as the precedence says. The statements of a block template
stand on lines indented like the one where the span starts. -/
def render (t : Template) (oracle : TypeOracle) (source rule : String) (bindings : Bindings)
    (span : Span) (precedence : Nat) : Except RenderError Replacement :=
  let c : RenderContext := ⟨oracle, source, rule, t.name, bindings⟩
  match t.body with
  | .expr e => c.renderExpr e precedence
  | .block stmts => do
    let (texts, imports) ← c.renderStmts stmts
    return ⟨("\n" ++ indentAt source span.start).intercalate texts, imports⟩

end Template

end Codemod
