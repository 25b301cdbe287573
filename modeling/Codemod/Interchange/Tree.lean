import Codemod.Interchange.Basic
import Codemod.Tree.Basic
import Codemod.Types.Hierarchy
/-!
# Types and trees as JSON

The written forms of types, symbols, literals, annotations and nodes, to read
and to write, and of the classes that a hierarchy is to know. How a floating
point constant is written is for the writer to choose.
-/

namespace Codemod.Interchange

/-! ## Types -/

mutual

/-- A type that nests no deeper than the number says. -/
def tyWithin? (origin : Origin) : Nat → Reader Ty
  | 0, _ => none
  | depth + 1, j => do
    let (name, content) ← variant? j
    let content ← content
    match name with
    | "Named" =>
      let [name, args] ← variantFields? origin ["name", "args"] content | none
      return .named (← required text? name) (← required (list? (tyWithin? origin depth)) args)
    | "Var" => return (← typeVarWithin? origin depth content).toTy
    | _ => none

/-- A type variable whose bounds nest no deeper. -/
def typeVarWithin? (origin : Origin) : Nat → Reader TypeVar
  | 0, _ => none
  | depth + 1, j => do
    let [name, upper, lower] ← fields? ["name", "upper", "lower"] j | none
    return ⟨← required text? name, ← optional (tyWithin? origin depth) upper,
      ← optional (tyWithin? origin depth) lower⟩

end

/-- A type. It nests no deeper than the value it is read from. -/
def ty? (origin : Origin) : Reader Ty := fun j => tyWithin? origin j.depth j

/-- A type variable. -/
def typeVar? (origin : Origin) : Reader TypeVar := fun j => typeVarWithin? origin j.depth j

mutual

/-- A type, written. -/
def ty : Ty → Json
  | .named name args => variant "Named" (.obj [("name", .str name), ("args", .arr (tys args))])
  | .var name upper lower =>
    variant "Var" (.obj [("name", .str name), ("upper", bound upper), ("lower", bound lower)])

/-- Types one after another. -/
def tys : List Ty → List Json
  | [] => []
  | t :: rest => ty t :: tys rest

/-- A bound, which may be absent. -/
def bound : Option Ty → Json
  | none => .null
  | some t => ty t

end

/-- A type variable, written. -/
def typeVar (v : TypeVar) : Json :=
  .obj [("name", .str v.name), ("upper", bound v.upper), ("lower", bound v.lower)]

/-! ## Spans and symbols -/

/-- A span. -/
def span? : Reader Span := fun j => do
  let [start, stop] ← fields? ["start", "end"] j | none
  return ⟨← required nat? start, ← required nat? stop⟩

/-- A span, written. -/
def span (s : Span) : Json := .obj [("start", nat s.start), ("end", nat s.stop)]

/-- A method as names refer to it. -/
def methodSymbol? (origin : Origin) : Reader MethodSymbol := fun j => do
  let [owner, name, isStatic, returnType, thrown, replacement] ←
    fields? ["owner", "name", "is_static", "return_type", "thrown", "inline_replacement"] j | none
  return {
    owner := ← required text? owner
    name := ← required text? name
    isStatic := ← required bool? isStatic
    returnType := ← required (ty? origin) returnType
    thrown := ← required (list? text?) thrown
    inlineReplacement := ← optional text? replacement }

/-- A method as names refer to it, written. -/
def methodSymbol (m : MethodSymbol) : Json :=
  .obj [("owner", .str m.owner), ("name", .str m.name), ("is_static", .bool m.isStatic),
    ("return_type", ty m.returnType), ("thrown", texts m.thrown),
    ("inline_replacement", option .str m.inlineReplacement)]

/-- What a name refers to. -/
def symbol? (origin : Origin) : Reader Symbol := fun j => do
  let (name, content) ← variant? j
  let content ← content
  match name with
  | "Class" => return .ofClass (← text? content)
  | "Method" => return .ofMethod (← methodSymbol? origin content)
  | "Field" =>
    let [owner, name, isStatic] ←
      variantFields? origin ["owner", "name", "is_static"] content | none
    return .ofField (← required text? owner) (← required text? name)
      (← required bool? isStatic)
  | "Local" => return .ofLocal (← text? content)
  | "Param" => return .ofParam (← text? content)
  | _ => none

/-- What a name refers to, written. -/
def symbol : Symbol → Json
  | .ofClass name => variant "Class" (.str name)
  | .ofMethod m => variant "Method" (methodSymbol m)
  | .ofField owner name isStatic =>
    variant "Field"
      (.obj [("owner", .str owner), ("name", .str name), ("is_static", .bool isStatic)])
  | .ofLocal name => variant "Local" (.str name)
  | .ofParam name => variant "Param" (.str name)

/-! ## Literals and operators -/

/-- A constant. -/
def literal? : Reader Literal := fun j => do
  let (name, content) ← variant? j
  match name with
  | "Int" => return .int (← content.bind int?)
  | "Float" => return .float (← content.bind double?)
  | "Bool" => return .bool (← content.bind bool?)
  | "Char" => return .char (← content.bind char?)
  | "Str" => return .str (← content.bind text?)
  | "Null" => unitContent .null content
  | _ => none

/-- A constant, written. -/
def literal (float : Double → Json) : Literal → Json
  | .int n => variant "Int" (.int n)
  | .float x => variant "Float" (float x)
  | .bool b => variant "Bool" (.bool b)
  | .char c => variant "Char" (.str (String.singleton c))
  | .str s => variant "Str" (.str s)
  | .null => .str "Null"

/-- The operators before one operand by their names. -/
def unaryOps : List (String × UnaryOp) := [("Not", .not), ("Neg", .neg)]

/-- The operators between two operands by their names. -/
def binaryOps : List (String × BinaryOp) :=
  [("Add", .add), ("Sub", .sub), ("Mul", .mul), ("Div", .div), ("Rem", .rem), ("Eq", .eq),
    ("Ne", .ne), ("Lt", .lt), ("Le", .le), ("Gt", .gt), ("Ge", .ge), ("And", .and), ("Or", .or)]

/-- One of a table of values by name. -/
def named? {α : Type} (table : List (String × α)) : Reader α := fun j => do
  let (name, content) ← variant? j
  unitContent (← table.lookup name) content

/-- The name of a value in a table. -/
def named {α : Type} [BEq α] (table : List (String × α)) (value : α) : Json :=
  option (fun (entry : String × α) => .str entry.1) (table.find? (·.2 == value))

/-! ## Annotations and declarations -/

/-- An annotation value that nests no deeper than the number says. -/
def annotationValueWithin? (origin : Origin) : Nat → Reader AnnotationValue
  | 0, _ => none
  | depth + 1, j => do
    let (name, content) ← variant? j
    let content ← content
    match name with
    | "Bool" => return .bool (← bool? content)
    | "Str" => return .str (← text? content)
    | "Type" => return .type (← ty? origin content)
    | "List" => return .list (← list? (annotationValueWithin? origin depth) content)
    | _ => none

/-- An annotation value. -/
def annotationValue? (origin : Origin) : Reader AnnotationValue :=
  fun j => annotationValueWithin? origin j.depth j

mutual

/-- An annotation value, written. -/
def annotationValue : AnnotationValue → Json
  | .bool b => variant "Bool" (.bool b)
  | .str s => variant "Str" (.str s)
  | .type t => variant "Type" (ty t)
  | .list items => variant "List" (.arr (annotationValues items))

/-- Annotation values one after another. -/
def annotationValues : List AnnotationValue → List Json
  | [] => []
  | v :: rest => annotationValue v :: annotationValues rest

end

/-- An annotation. -/
def annotation? (origin : Origin) : Reader Annotation := fun j => do
  let [name, values] ← fields? ["name", "values"] j | none
  return ⟨← required text? name, ← required (dict? (annotationValue? origin)) values⟩

/-- An annotation, written. -/
def annotation (a : Annotation) : Json :=
  .obj [("name", .str a.name), ("values", dict annotationValue a.values)]

/-- A parameter. -/
def param? (origin : Origin) : Reader Param := fun j => do
  let [name, type, annotations] ← fields? ["name", "ty", "annotations"] j | none
  return ⟨← required text? name, ← required (ty? origin) type,
    ← required (list? (annotation? origin)) annotations⟩

/-- A parameter, written. -/
def param (p : Param) : Json :=
  .obj [("name", .str p.name), ("ty", ty p.ty), ("annotations", list annotation p.annotations)]

/-! ## Nodes -/

/-- A node that nests no deeper than the number says. -/
def nodeWithin? (origin : Origin) : Nat → Reader Node
  | 0, _ => none
  | depth + 1, j => do
    let node? : Reader Node := nodeWithin? origin depth
    let [kind, place, type, refersTo] ← fields? ["kind", "span", "ty", "symbol"] j | none
    let (kind, content) ← kind.bind variant?
    let content ← content
    let info : NodeInfo :=
      ⟨← required span? place, ← optional (ty? origin) type,
        ← optional (symbol? origin) refersTo⟩
    match kind with
    | "Ident" => return .ident info (← text? content)
    | "Literal" => return .literal info (← literal? content)
    | "Select" =>
      let [target, name, nameSpan] ←
        variantFields? origin ["target", "name", "name_span"] content | none
      return .select info (← required node? target) (← required text? name)
        (← required span? nameSpan)
    | "Call" =>
      let [callee, args] ← variantFields? origin ["callee", "args"] content | none
      return .call info (← required node? callee) (← required (list? node?) args)
    | "MethodRef" =>
      let [target, name] ← variantFields? origin ["target", "name"] content | none
      return .methodRef info (← required node? target) (← required text? name)
    | "Unary" =>
      let [op, operand] ← variantFields? origin ["op", "operand"] content | none
      return .unary info (← required (named? unaryOps) op) (← required node? operand)
    | "Binary" =>
      let [op, lhs, rhs] ← variantFields? origin ["op", "lhs", "rhs"] content | none
      return .binary info (← required (named? binaryOps) op) (← required node? lhs)
        (← required node? rhs)
    | "Cast" =>
      let [target, expr] ← variantFields? origin ["target", "expr"] content | none
      return .cast info (← required (ty? origin) target) (← required node? expr)
    | "Paren" => return .paren info (← node? content)
    | "Block" => return .block info (← list? node? content)
    | "ExprStmt" => return .exprStmt info (← node? content)
    | "Return" => return .ret info (← optional node? (some content))
    | "Local" =>
      let [name, declared, init] ←
        variantFields? origin ["name", "declared", "init"] content | none
      return .localVar info (← required text? name) (← required (ty? origin) declared)
        (← optional node? init)
    | "If" =>
      let [cond, thenBranch, elseBranch] ←
        variantFields? origin ["cond", "then_branch", "else_branch"] content | none
      return .ifElse info (← required node? cond) (← required node? thenBranch)
        (← optional node? elseBranch)
    | "While" =>
      let [cond, body] ← variantFields? origin ["cond", "body"] content | none
      return .whileLoop info (← required node? cond) (← required node? body)
    | "DoWhile" =>
      let [body, cond] ← variantFields? origin ["body", "cond"] content | none
      return .doWhile info (← required node? body) (← required node? cond)
    | "Synchronized" =>
      let [lock, body] ← variantFields? origin ["lock", "body"] content | none
      return .synchronized info (← required node? lock) (← required node? body)
    | "Method" =>
      let [name, annotations, typeParams, params, returnType, body] ←
        fields? ["name", "annotations", "type_params", "params", "return_type", "body"] content
        | none
      return .methodDecl info
        ⟨← required text? name, ← required (list? (annotation? origin)) annotations,
          ← required (list? (typeVar? origin)) typeParams,
          ← required (list? (param? origin)) params, ← required (ty? origin) returnType⟩
        (← optional node? body)
    | "Class" =>
      let [name, annotations, typeParams, members] ←
        fields? ["name", "annotations", "type_params", "members"] content | none
      return .classDecl info
        ⟨← required text? name, ← required (list? (annotation? origin)) annotations,
          ← required (list? (typeVar? origin)) typeParams⟩
        (← required (list? node?) members)
    | "Unit" => return .unit info (← list? node? content)
    | _ => none

/-- A node. It nests no deeper than the value it is read from. -/
def node? (origin : Origin) : Reader Node := fun j => nodeWithin? origin j.depth j

/-- What a node of a kind carries, as JSON. -/
def nodeWith (info : NodeInfo) (kind : String) (content : Json) : Json :=
  .obj [("kind", variant kind content), ("span", span info.span), ("ty", option ty info.ty),
    ("symbol", option symbol info.symbol)]

mutual

/-- A node, written. -/
def node (float : Double → Json) : Node → Json
  | .ident i name => nodeWith i "Ident" (.str name)
  | .literal i value => nodeWith i "Literal" (literal float value)
  | .select i target name nameSpan =>
    nodeWith i "Select"
      (.obj [("target", node float target), ("name", .str name), ("name_span", span nameSpan)])
  | .call i callee args =>
    nodeWith i "Call" (.obj [("callee", node float callee), ("args", .arr (nodes float args))])
  | .methodRef i target name =>
    nodeWith i "MethodRef" (.obj [("target", node float target), ("name", .str name)])
  | .unary i op operand =>
    nodeWith i "Unary" (.obj [("op", named unaryOps op), ("operand", node float operand)])
  | .binary i op lhs rhs =>
    nodeWith i "Binary"
      (.obj [("op", named binaryOps op), ("lhs", node float lhs), ("rhs", node float rhs)])
  | .cast i target expr =>
    nodeWith i "Cast" (.obj [("target", ty target), ("expr", node float expr)])
  | .paren i expr => nodeWith i "Paren" (node float expr)
  | .block i stmts => nodeWith i "Block" (.arr (nodes float stmts))
  | .exprStmt i expr => nodeWith i "ExprStmt" (node float expr)
  | .ret i expr => nodeWith i "Return" (optionalNode float expr)
  | .localVar i name declared init =>
    nodeWith i "Local"
      (.obj [("name", .str name), ("declared", ty declared), ("init", optionalNode float init)])
  | .ifElse i cond thenBranch elseBranch =>
    nodeWith i "If"
      (.obj [("cond", node float cond), ("then_branch", node float thenBranch),
        ("else_branch", optionalNode float elseBranch)])
  | .whileLoop i cond body =>
    nodeWith i "While" (.obj [("cond", node float cond), ("body", node float body)])
  | .doWhile i body cond =>
    nodeWith i "DoWhile" (.obj [("body", node float body), ("cond", node float cond)])
  | .synchronized i lock body =>
    nodeWith i "Synchronized" (.obj [("lock", node float lock), ("body", node float body)])
  | .methodDecl i head body =>
    nodeWith i "Method"
      (.obj [("name", .str head.name), ("annotations", list annotation head.annotations),
        ("type_params", list typeVar head.typeParams), ("params", list param head.params),
        ("return_type", ty head.returnType), ("body", optionalNode float body)])
  | .classDecl i head members =>
    nodeWith i "Class"
      (.obj [("name", .str head.name), ("annotations", list annotation head.annotations),
        ("type_params", list typeVar head.typeParams), ("members", .arr (nodes float members))])
  | .unit i items => nodeWith i "Unit" (.arr (nodes float items))

/-- Nodes one after another. -/
def nodes (float : Double → Json) : List Node → List Json
  | [] => []
  | n :: rest => node float n :: nodes float rest

/-- A node that may be absent. -/
def optionalNode (float : Double → Json) : Option Node → Json
  | none => .null
  | some n => node float n

end

/-! ## Classes -/

/-- A class for a hierarchy to know: its name, its type parameters and its
supertypes. The latter two may be missing. -/
def classEntry? (origin : Origin) : Reader (String × ClassInfo) := fun j => do
  let present := match j with
    | .arr items => items.length
    | _ => 3
  let [name, params, supers] ←
    (fields? (["name", "params", "supers"].take present) j).map fun fields =>
      fields ++ List.replicate (3 - present) none
    | none
  return (← required text? name, ⟨← defaulted (list? text?) [] params,
    ← defaulted (list? (ty? origin)) [] supers⟩)

/-- Declares classes one after another. -/
def declareAll (h : Hierarchy) (classes : List (String × ClassInfo)) : Hierarchy :=
  classes.foldl (fun h (name, info) => h.declare name info.params info.supers) h

end Codemod.Interchange
