import Codemod.Interchange.Tree
import Codemod.Migration.Pair
/-!
# Rules as JSON

The written forms of templates, rules and migration pairs, to read and to
write. They travel in messages only; stored rules have a form of their own.
-/

namespace Codemod.Interchange

/-! ## Template expressions -/

/-- A method as templates name it. -/
def methodKey? : Reader Template.MethodKey := fun j => do
  let [owner, name, isStatic] ← fields? ["owner", "name", "is_static"] j | none
  return ⟨← required text? owner, ← required text? name, ← required bool? isStatic⟩

/-- A method as templates name it, written. -/
def methodKey (m : Template.MethodKey) : Json :=
  .obj [("owner", .str m.owner), ("name", .str m.name), ("is_static", .bool m.isStatic)]

/-- A template expression that nests no deeper than the number says. -/
def templateExprWithin? : Nat → Reader Template.Expr
  | 0, _ => none
  | depth + 1, j => do
    let expr? : Reader Template.Expr := templateExprWithin? depth
    let (name, content) ← variant? j
    let content ← content
    match name with
    | "Placeholder" => return .placeholder (← text? content)
    | "Local" => return .localRef (← text? content)
    | "Literal" => return .literal (← literal? content)
    | "Class" => return .classRef (← text? content)
    | "Field" =>
      let [receiver, name] ← variantFields? .message ["receiver", "name"] content | none
      return .field (← required expr? receiver) (← required text? name)
    | "Call" =>
      let [receiver, method, args] ←
        variantFields? .message ["receiver", "method", "args"] content | none
      return .call (← required expr? receiver) (← required methodKey? method)
        (← required (list? expr?) args)
    | "MethodRef" =>
      let [receiver, method] ← variantFields? .message ["receiver", "method"] content | none
      return .methodRef (← required expr? receiver) (← required methodKey? method)
    | "Unary" =>
      let [op, operand] ← variantFields? .message ["op", "operand"] content | none
      return .unary (← required (named? unaryOps) op) (← required expr? operand)
    | "Binary" =>
      let [op, lhs, rhs] ← variantFields? .message ["op", "lhs", "rhs"] content | none
      return .binary (← required (named? binaryOps) op) (← required expr? lhs)
        (← required expr? rhs)
    | "Cast" =>
      let [target, expr] ← variantFields? .message ["target", "expr"] content | none
      return .cast (← required (ty? .message) target) (← required expr? expr)
    | _ => none

/-- A template expression. -/
def templateExpr? : Reader Template.Expr := fun j => templateExprWithin? j.depth j

mutual

/-- A template expression, written. -/
def templateExpr (float : Double → Json) : Template.Expr → Json
  | .placeholder name => variant "Placeholder" (.str name)
  | .localRef name => variant "Local" (.str name)
  | .literal value => variant "Literal" (literal float value)
  | .classRef name => variant "Class" (.str name)
  | .field receiver name =>
    variant "Field" (.obj [("receiver", templateExpr float receiver), ("name", .str name)])
  | .call receiver method args =>
    variant "Call"
      (.obj [("receiver", templateExpr float receiver), ("method", methodKey method),
        ("args", .arr (templateExprs float args))])
  | .methodRef receiver method =>
    variant "MethodRef"
      (.obj [("receiver", templateExpr float receiver), ("method", methodKey method)])
  | .unary op operand =>
    variant "Unary" (.obj [("op", named unaryOps op), ("operand", templateExpr float operand)])
  | .binary op lhs rhs =>
    variant "Binary"
      (.obj [("op", named binaryOps op), ("lhs", templateExpr float lhs),
        ("rhs", templateExpr float rhs)])
  | .cast target expr =>
    variant "Cast" (.obj [("target", ty target), ("expr", templateExpr float expr)])

/-- Template expressions one after another. -/
def templateExprs (float : Double → Json) : List Template.Expr → List Json
  | [] => []
  | e :: rest => templateExpr float e :: templateExprs float rest

end

/-! ## Template bodies -/

/-- A template statement. -/
def templateStmt? : Reader Template.Stmt := fun j => do
  let (name, content) ← variant? j
  let content ← content
  match name with
  | "Expr" => return .expr (← templateExpr? content)
  | "Return" => return .ret (← optional templateExpr? (some content))
  | "Local" =>
    let [name, type, init] ← variantFields? .message ["name", "ty", "init"] content | none
    return .localVar (← required text? name) (← required (ty? .message) type)
      (← optional templateExpr? init)
  | _ => none

/-- A template statement, written. -/
def templateStmt (float : Double → Json) : Template.Stmt → Json
  | .expr e => variant "Expr" (templateExpr float e)
  | .ret e => variant "Return" (option (templateExpr float) e)
  | .localVar name type init =>
    variant "Local"
      (.obj [("name", .str name), ("ty", ty type), ("init", option (templateExpr float) init)])

/-- The body of a template. -/
def templateBody? : Reader Template.Body := fun j => do
  let (name, content) ← variant? j
  let content ← content
  match name with
  | "Expr" => return .expr (← templateExpr? content)
  | "Block" => return .block (← list? templateStmt? content)
  | _ => none

/-- The body of a template, written. -/
def templateBody (float : Double → Json) : Template.Body → Json
  | .expr e => variant "Expr" (templateExpr float e)
  | .block stmts => variant "Block" (list (templateStmt float) stmts)

/-! ## Templates -/

/-- What a placeholder asks of what it stands for. -/
def guard? : Reader Template.Guard := fun j => do
  let (name, content) ← variant? j
  match name with
  | "ParentIsReturn" => unitContent .parentIsReturn content
  | "Throws" => return .throws (← content.bind text?)
  | _ => none

/-- What a placeholder asks of what it stands for, written. -/
def guard : Template.Guard → Json
  | .parentIsReturn => .str "ParentIsReturn"
  | .throws exception => variant "Throws" (.str exception)

/-- A placeholder. -/
def placeholder? : Reader Template.Placeholder := fun j => do
  let [name, type, condition] ← fields? ["name", "ty", "guard"] j | none
  return ⟨← required text? name, ← required (ty? .message) type, ← optional guard? condition⟩

/-- A placeholder, written. -/
def placeholder (p : Template.Placeholder) : Json :=
  .obj [("name", .str p.name), ("ty", ty p.ty), ("guard", option guard p.guard)]

/-- A template. -/
def template? : Reader Template := fun j => do
  let [name, typeParams, params, returnType, body] ←
    fields? ["name", "type_params", "params", "return_type", "body"] j | none
  return {
    name := ← required text? name
    typeParams := ← required (list? (typeVar? .message)) typeParams
    params := ← required (list? placeholder?) params
    returnType := ← required (ty? .message) returnType
    body := ← required templateBody? body }

/-- A template, written. -/
def template (float : Double → Json) (t : Template) : Json :=
  .obj [("name", .str t.name), ("type_params", list typeVar t.typeParams),
    ("params", list placeholder t.params), ("return_type", ty t.returnType),
    ("body", templateBody float t.body)]

/-! ## Rules -/

/-- The directions of a migration by their names. -/
def directions : List (String × Direction) :=
  [("Forward", .forward), ("Backward", .backward), ("Unspecified", .unspecified)]

/-- What a rule goes by besides its templates. -/
def descriptor? : Reader RuleDescriptor := fun j => do
  let [rejectComments, migration, fromTy, toTy] ←
    fields? ["reject_comments", "migration", "from", "to"] j | none
  return {
    rejectComments := ← required bool? rejectComments
    migration := ← optional (named? directions) migration
    fromTy := ← optional (ty? .message) fromTy
    toTy := ← optional (ty? .message) toTy }

/-- What a rule goes by besides its templates, written. -/
def descriptor (d : RuleDescriptor) : Json :=
  .obj [("reject_comments", .bool d.rejectComments),
    ("migration", option (named directions) d.migration), ("from", option ty d.fromTy),
    ("to", option ty d.toTy)]

/-- A rule. -/
def rule? : Reader Rule := fun j => do
  let [name, before, after, about] ← fields? ["name", "before", "after", "descriptor"] j | none
  return {
    name := ← required text? name
    before := ← required (list? template?) before
    after := ← required (list? template?) after
    descriptor := ← required descriptor? about }

/-- A rule, written. -/
def rule (float : Double → Json) (r : Rule) : Json :=
  .obj [("name", .str r.name), ("before", list (template float) r.before),
    ("after", list (template float) r.after), ("descriptor", descriptor r.descriptor)]

/-- A migration pair. -/
def migrationPair? : Reader MigrationPair := fun j => do
  let [name, forward, backward, typeFrom, typeTo] ←
    fields? ["name", "forward", "backward", "type_from", "type_to"] j | none
  return {
    name := ← required text? name
    forward := ← required rule? forward
    backward := ← required rule? backward
    typeFrom := ← required (ty? .message) typeFrom
    typeTo := ← required (ty? .message) typeTo }

/-- A migration pair, written. -/
def migrationPair (float : Double → Json) (p : MigrationPair) : Json :=
  .obj [("name", .str p.name), ("forward", rule float p.forward),
    ("backward", rule float p.backward), ("type_from", ty p.typeFrom), ("type_to", ty p.typeTo)]

end Codemod.Interchange
