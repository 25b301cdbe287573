import Codemod.Rule
import Codemod.Tree.Declared
/-!
# Rules as they are declared

A rule is declared by a class whose annotated methods are its templates. The
body of a method is resolved against its own names: parameters become
placeholders, locals declared by earlier statements stay locals, and what
remains must be a class, a static field or a resolved method. A body that only
returns an expression makes an expression template, any other a block
template.

`ClassDeclaration.rule` reads one class, `Node.declaredRules` all classes of a
tree that declare templates.
-/

namespace Codemod

/-- Why a declaration makes no rule. -/
inductive DeclarationError where
  /-- No method is a Before-Template. -/
  | noBeforeTemplate (rule : String)
  /-- A name refers to nothing that a template can hold. -/
  | unresolvedSymbol (rule template name : String)
  /-- A body holds what no template can. -/
  | unsupportedConstruct (rule template construct : String)
  /-- A parameter has a guard that there is not. -/
  | unknownGuard (rule param guard : String)
  /-- An After-Template has a parameter that no Before-Template binds. -/
  | undeclaredPlaceholder (rule template name : String)
  deriving DecidableEq, Inhabited

namespace DeclarationError

/-- What is reported. -/
def message : DeclarationError → String
  | .noBeforeTemplate rule => "Rule " ++ rule ++ ": no @BeforeTemplate method"
  | .unresolvedSymbol rule template name =>
    "Rule " ++ rule ++ ": unresolved identifier '" ++ name ++ "' in " ++ template
  | .unsupportedConstruct rule template construct =>
    "Rule " ++ rule ++ ": unsupported construct '" ++ construct ++ "' in " ++ template
  | .unknownGuard rule param guard =>
    "Rule " ++ rule ++ ": unknown guard '" ++ guard ++ "' on parameter '" ++ param ++ "'"
  | .undeclaredPlaceholder rule template name =>
    "Rule " ++ rule ++ ": placeholder '" ++ name ++ "' of " ++ template ++
      " is not declared by any @BeforeTemplate"

end DeclarationError

/-! ## The annotations that make a class a rule, by their simple names -/

namespace Marker

/-- Code like this is found. -/
def before : String := "BeforeTemplate"

/-- It may become code like this. -/
def after : String := "AfterTemplate"

/-- The class is one direction of a migration. -/
def migration : String := "MigrationTemplate"

/-- The rule applies to code with comments too. -/
def allowComments : String := "AllowComments"

/-- A parameter stands only for what the named class lets it. -/
def guard : String := "Matches"

/-- A parameter stands only for methods that throw the named exception. -/
def throws : String := "MethodThrows"

/-- The one class that a guard may name. -/
def parentIsReturn : String := "IsParentReturnTree"

/-- The exception that is asked for when none is named. -/
def anyException : String := "java.lang.Exception"

end Marker

/-- The names that the body of a template may use. -/
structure TemplateScope where
  rule : String
  template : String
  params : List String
  typeParams : List TypeVar
  /-- Locals of the statements before. -/
  locals : List String

namespace TemplateScope

open DeclarationError

mutual

/-- Gives variables without bounds the bounds they are declared with. -/
def resolveTy (typeParams : List TypeVar) : Ty → Ty
  | .named name args => .named name (resolveTys typeParams args)
  | .var name none none =>
    match typeParams.find? (·.name == name) with
    | some declared => declared.toTy
    | none => .var name none none
  | .var name upper lower => .var name upper lower

/-- The same for several types. -/
def resolveTys (typeParams : List TypeVar) : List Ty → List Ty
  | [] => []
  | ty :: rest => resolveTy typeParams ty :: resolveTys typeParams rest

end

variable (s : TemplateScope)

/-- The name is that of a parameter. -/
def isParam (name : String) : Bool := s.params.contains name

/-- The name is that of a local declared before. -/
def isLocal (name : String) : Bool := s.locals.contains name

/-- What an identifier stands for. -/
def ident (name : String) (symbol : Option Symbol) : Except DeclarationError Template.Expr :=
  let unresolved := .error (unresolvedSymbol s.rule s.template name)
  match symbol with
  | some (.ofParam param) => if s.isParam param then .ok (.placeholder param) else unresolved
  | some (.ofLocal name) => if s.isLocal name then .ok (.localRef name) else unresolved
  | some (.ofClass name) => .ok (.classRef name)
  | some (.ofField owner name true) => .ok (.field (.classRef owner) name)
  | none =>
    if s.isParam name then .ok (.placeholder name)
    else if s.isLocal name then .ok (.localRef name)
    else unresolved
  | _ => unresolved

/-- The name by which a callee is reported. -/
def calleeName : Node → String
  | .ident _ name | .select _ _ name _ => name
  | callee => callee.kindName

/-- A method as templates name it. -/
def methodKey (m : MethodSymbol) : Template.MethodKey := ⟨m.owner, m.name, m.isStatic⟩

mutual

/-- The template expression that an expression of the body stands for. -/
def expr : Node → Except DeclarationError Template.Expr
  | .paren _ inner => expr inner
  | .literal _ value => .ok (.literal value)
  | .ident i name => s.ident name i.symbol
  | .select i target name _ =>
    match i.symbol with
    | some (.ofClass name) => .ok (.classRef name)
    | some (.ofField owner _ true) => .ok (.field (.classRef owner) name)
    | some (.ofField _ _ false) => do return .field (← expr target) name
    | _ => .error (unresolvedSymbol s.rule s.template name)
  | .call i callee args =>
    match (Node.call i callee args).methodSymbol? with
    | none => .error (unresolvedSymbol s.rule s.template (calleeName callee))
    | some method => do
      let receiver ←
        if method.isStatic then .ok (Template.Expr.classRef method.owner)
        else match callee with
          | .select _ target _ _ => expr target
          | _ => .error (unsupportedConstruct s.rule s.template "unqualified instance call")
      return .call receiver (methodKey method) (← exprs args)
  | .methodRef i target name =>
    match (Node.methodRef i target name).methodSymbol? with
    | none => .error (unresolvedSymbol s.rule s.template name)
    | some method => do
      let receiver ← match target.symbol? with
        | some (.ofClass name) => .ok (Template.Expr.classRef name)
        | _ => expr target
      return .methodRef receiver (methodKey method)
  | .unary _ op operand => do return .unary op (← expr operand)
  | .binary _ op lhs rhs => do return .binary op (← expr lhs) (← expr rhs)
  | .cast _ target inner => do return .cast (resolveTy s.typeParams target) (← expr inner)
  | n => .error (unsupportedConstruct s.rule s.template n.kindName)
termination_by structural n => n

/-- The template expressions of several expressions. -/
def exprs : List Node → Except DeclarationError (List Template.Expr)
  | [] => .ok []
  | n :: rest => do return (← expr n) :: (← exprs rest)
termination_by structural ns => ns

end

/-- The template expression of what may be absent. -/
def expr? : Option Node → Except DeclarationError (Option Template.Expr)
  | none => .ok none
  | some n => do return some (← s.expr n)

/-- The template statement that a statement of the body stands for. -/
def stmt : Node → Except DeclarationError Template.Stmt
  | .exprStmt _ e => do return .expr (← s.expr e)
  | .ret _ e => do return .ret (← s.expr? e)
  | .localVar _ name declared init => do
    let init ← s.expr? init
    return .localVar name (resolveTy s.typeParams declared) init
  | n => .error (unsupportedConstruct s.rule s.template n.kindName)

/-- The scope of the statements after a statement. -/
def after (code : Node) : TemplateScope :=
  match code with
  | .localVar _ name _ _ => { s with locals := s.locals ++ [name] }
  | _ => s

end TemplateScope

/-- The template statements of a body, each in the scope of those before. -/
def TemplateScope.stmts (s : TemplateScope) :
    List Node → Except DeclarationError (List Template.Stmt)
  | [] => .ok []
  | n :: rest => do return (← s.stmt n) :: (← (s.after n).stmts rest)

namespace ClassDeclaration

open DeclarationError

/-- The condition that annotations put on a parameter. -/
def guard? (rule : String) (p : Param) : Except DeclarationError (Option Template.Guard) :=
  match Annotation.find? p.annotations Marker.guard with
  | some annotation =>
    let named := do (← (← annotation.value?).asType?).name?
    let name := named.getD ""
    if Name.simple name == Marker.parentIsReturn then .ok (some .parentIsReturn)
    else .error (unknownGuard rule p.name name)
  | none =>
    match Annotation.find? p.annotations Marker.throws with
    | none => .ok none
    | some annotation =>
      let exception := match annotation.value? with
        | none => Marker.anyException
        | some value =>
          match value.asType?.bind (·.name?) with
          | some name => name
          | none => value.strings.headD ""
      .ok (some (.throws exception))

/-- The template that a method stands for. -/
def template (rule : String) (typeParams : List TypeVar) (head : MethodHead)
    (body : Option Node) : Except DeclarationError Template := do
  let typeParams := typeParams ++ head.typeParams
  let params ← head.params.mapM fun p => do
    return Template.Placeholder.mk p.name (TemplateScope.resolveTy typeParams p.ty)
      (← guard? rule p)
  let scope : TemplateScope :=
    ⟨rule, head.name, head.params.map (·.name), typeParams, []⟩
  let body ← match body with
    | none => .error (unsupportedConstruct rule head.name "abstract method")
    | some (.block _ [.ret _ (some e)]) => do pure (.expr (← scope.expr e))
    | some (.block _ stmts) => do pure (.block (← scope.stmts stmts))
    | some n => .error (unsupportedConstruct rule head.name n.kindName)
  return {
    name := head.name
    typeParams
    params
    returnType := TemplateScope.resolveTy typeParams head.returnType
    body }

/-- Which side of a rule a method is a template of. -/
inductive Side where
  | before
  | after
  deriving DecidableEq

/-- The side that a method's annotations put it on. -/
def side? (head : MethodHead) : Option Side :=
  if Annotation.isAmong head.annotations Marker.before then some .before
  else if Annotation.isAmong head.annotations Marker.after then some .after
  else none

variable (c : ClassDeclaration)

/-- Some method of the class is a template. -/
def definesTemplates : Bool := c.methods.any fun (head, _) => (side? head).isSome

/-- What the annotations of the class say about its rule. -/
def descriptor (rejectComments : Bool) : RuleDescriptor :=
  let rejects :=
    rejectComments && ! Annotation.isAmong c.head.annotations Marker.allowComments
  match Annotation.find? c.head.annotations Marker.migration with
  | none => ⟨rejects, none, none, none⟩
  | some marker =>
    let direction := match marker.value?.bind (·.asBool?) with
      | some true => Direction.backward
      | some false => Direction.forward
      | none => Direction.unspecified
    let endpoint (key : String) := (marker.values.get? key).bind (·.asType?)
    ⟨rejects, some direction, endpoint "from", endpoint "to"⟩

/-- The templates of the class, each with its side, in order. -/
def templates : Except DeclarationError (List (Side × Template)) :=
  (c.methods.filterMap fun (head, body) => (side? head).map (·, head, body)).mapM
    fun (side, head, body) => do return (side, ← template c.name c.head.typeParams head body)

/-- The templates of one side. -/
def onSide (side : Side) (ts : List (Side × Template)) : List Template :=
  (ts.filter (·.1 == side)).map (·.2)

/-- The rule that the class declares. Its After-Templates may use only what a
Before-Template binds, and all its templates are of one kind. -/
def rule (rejectComments : Bool) : Except DeclarationError Rule := do
  let templates ← c.templates
  let before := onSide .before templates
  let after := onSide .after templates
  let first ← match before with
    | [] => .error (noBeforeTemplate c.name)
    | first :: _ => .ok first
  let declared := before.flatMap fun t => t.params.map (·.name)
  after.forM fun t =>
    t.params.forM fun p =>
      if declared.contains p.name then .ok ()
      else .error (undeclaredPlaceholder c.name t.name p.name)
  match (before ++ after).find? (·.isExpression != first.isExpression) with
  | some odd =>
    .error (unsupportedConstruct c.name odd.name "mixed expression and block templates")
  | none => return ⟨c.name, before, after, c.descriptor rejectComments⟩

end ClassDeclaration

/-- The rules that a tree declares, in the order of its classes. -/
def Node.declaredRules (rejectComments : Bool) (root : Node) :
    Except DeclarationError (List Rule) :=
  (root.declaredClasses.filter (·.definesTemplates)).mapM (·.rule rejectComments)

end Codemod
