import Codemod.Blob.Wire
import Codemod.Migration.Pair
/-!
# Rules as bytes

A record is its fields one after another, so that nothing but the order tells
them apart. A type or an expression nests no deeper than it has bytes; that is
how far reading follows it.
-/

namespace Codemod.Blob

/-- The operators before one operand, in the order of their numbers. -/
def unaryOps : List UnaryOp := [.not, .neg]

/-- The operators between two operands, in the order of their numbers. -/
def binaryOps : List BinaryOp :=
  [.add, .sub, .mul, .div, .rem, .eq, .ne, .lt, .le, .gt, .ge, .and, .or]

/-- The directions of a migration, in the order of their numbers. -/
def directions : List Direction := [.forward, .backward, .unspecified]

namespace Encode

mutual

/-- A type by its number among the two kinds. -/
def ty : Ty → Bytes
  | .named name args => tag 0 ++ text name ++ length args.length ++ tys args
  | .var name upper lower => tag 1 ++ text name ++ bound upper ++ bound lower

/-- Types one after another, without their number. -/
def tys : List Ty → Bytes
  | [] => []
  | t :: rest => ty t ++ tys rest

/-- A bound, which may be absent. -/
def bound : Option Ty → Bytes
  | none => [0]
  | some t => 1 :: ty t

end

/-- A type variable, without the number that a type has. -/
def typeVar (v : TypeVar) : Bytes := text v.name ++ bound v.upper ++ bound v.lower

/-- A constant by its kind and its value. -/
def literal : Literal → Bytes
  | .int n => tag 0 ++ int n
  | .float x => tag 1 ++ double x
  | .bool b => tag 2 ++ bool b
  | .char c => tag 3 ++ char c
  | .str s => tag 4 ++ text s
  | .null => tag 5

/-- A method by its owner, its name and whether it is static. -/
def methodKey (m : Template.MethodKey) : Bytes := text m.owner ++ text m.name ++ bool m.isStatic

mutual

/-- A template expression by its number among the ten kinds. -/
def expr : Template.Expr → Bytes
  | .placeholder name => tag 0 ++ text name
  | .localRef name => tag 1 ++ text name
  | .literal value => tag 2 ++ literal value
  | .classRef name => tag 3 ++ text name
  | .field receiver name => tag 4 ++ expr receiver ++ text name
  | .call receiver method args =>
    tag 5 ++ expr receiver ++ methodKey method ++ length args.length ++ exprs args
  | .methodRef receiver method => tag 6 ++ expr receiver ++ methodKey method
  | .unary op operand => tag 7 ++ oneOf unaryOps op ++ expr operand
  | .binary op lhs rhs => tag 8 ++ oneOf binaryOps op ++ expr lhs ++ expr rhs
  | .cast target e => tag 9 ++ ty target ++ expr e

/-- Template expressions one after another, without their number. -/
def exprs : List Template.Expr → Bytes
  | [] => []
  | e :: rest => expr e ++ exprs rest

end

/-- A template statement. -/
def stmt : Template.Stmt → Bytes
  | .expr e => tag 0 ++ expr e
  | .ret e => tag 1 ++ option expr e
  | .localVar name type init => tag 2 ++ text name ++ ty type ++ option expr init

/-- The body of a template. -/
def body : Template.Body → Bytes
  | .expr e => tag 0 ++ expr e
  | .block stmts => tag 1 ++ list stmt stmts

/-- What a placeholder asks of what it stands for. -/
def guard : Template.Guard → Bytes
  | .parentIsReturn => tag 0
  | .throws exception => tag 1 ++ text exception

/-- A placeholder with its type and its guard. -/
def placeholder (p : Template.Placeholder) : Bytes :=
  text p.name ++ ty p.ty ++ option guard p.guard

/-- A template, its body last. -/
def template (t : Template) : Bytes :=
  text t.name ++ list typeVar t.typeParams ++ list placeholder t.params ++ ty t.returnType ++
    body t.body

/-- What a rule goes by besides its templates. -/
def descriptor (d : RuleDescriptor) : Bytes :=
  bool d.rejectComments ++ option (oneOf directions) d.migration ++ option ty d.fromTy ++
    option ty d.toTy

/-- A rule, its Before-Templates first. -/
def rule (r : Rule) : Bytes :=
  text r.name ++ list template r.before ++ list template r.after ++ descriptor r.descriptor

/-- A migration pair, its two directions before its two types. -/
def migrationPair (p : MigrationPair) : Bytes :=
  text p.name ++ rule p.forward ++ rule p.backward ++ ty p.typeFrom ++ ty p.typeTo

end Encode

namespace Decode

mutual

/-- A type that nests no deeper than the number says. -/
def tyWithin : Nat → Decoder Ty
  | 0 => throw .endsInNumber
  | depth + 1 => do
    match ← tag with
    | 0 => return .named (← text) (← list (tyWithin depth))
    | 1 => return (← typeVarWithin depth).toTy
    | n => throw (.noVariant n 2)

/-- A type variable whose bounds nest no deeper. -/
def typeVarWithin : Nat → Decoder TypeVar
  | 0 => throw .endsInText
  | depth + 1 =>
    return ⟨← text, ← option (tyWithin depth), ← option (tyWithin depth)⟩

end

/-- A type, which nests no deeper than there are bytes. -/
def ty : Decoder Ty := do tyWithin ((← rest).length + 1)

/-- A type variable, which nests no deeper than there are bytes. -/
def typeVar : Decoder TypeVar := do typeVarWithin ((← rest).length + 1)

/-- A constant. -/
def literal : Decoder Literal := do
  match ← tag with
  | 0 => return .int (← int)
  | 1 => return .float (← double)
  | 2 => return .bool (← bool)
  | 3 => return .char (← char)
  | 4 => return .str (← text)
  | 5 => return .null
  | n => throw (.noVariant n 6)

/-- A method. -/
def methodKey : Decoder Template.MethodKey := return ⟨← text, ← text, ← bool⟩

/-- An expression that nests no deeper than the number says. -/
def exprWithin : Nat → Decoder Template.Expr
  | 0 => throw .endsInNumber
  | depth + 1 => do
    let expr := exprWithin depth
    match ← tag with
    | 0 => return .placeholder (← text)
    | 1 => return .localRef (← text)
    | 2 => return .literal (← literal)
    | 3 => return .classRef (← text)
    | 4 => return .field (← expr) (← text)
    | 5 => return .call (← expr) (← methodKey) (← list expr)
    | 6 => return .methodRef (← expr) (← methodKey)
    | 7 => return .unary (← oneOf unaryOps) (← expr)
    | 8 => return .binary (← oneOf binaryOps) (← expr) (← expr)
    | 9 => return .cast (← ty) (← expr)
    | n => throw (.noVariant n 10)

/-- A template expression, which nests no deeper than there are bytes. -/
def expr : Decoder Template.Expr := do exprWithin ((← rest).length + 1)

/-- A template statement. -/
def stmt : Decoder Template.Stmt := do
  match ← tag with
  | 0 => return .expr (← expr)
  | 1 => return .ret (← option expr)
  | 2 => return .localVar (← text) (← ty) (← option expr)
  | n => throw (.noVariant n 3)

/-- The body of a template. -/
def body : Decoder Template.Body := do
  match ← tag with
  | 0 => return .expr (← expr)
  | 1 => return .block (← list stmt)
  | n => throw (.noVariant n 2)

/-- What a placeholder asks of what it stands for. -/
def guard : Decoder Template.Guard := do
  match ← tag with
  | 0 => return .parentIsReturn
  | 1 => return .throws (← text)
  | n => throw (.noVariant n 2)

/-- A placeholder. -/
def placeholder : Decoder Template.Placeholder := return ⟨← text, ← ty, ← option guard⟩

/-- A template. -/
def template : Decoder Template :=
  return ⟨← text, ← list typeVar, ← list placeholder, ← ty, ← body⟩

/-- What a rule goes by besides its templates. -/
def descriptor : Decoder RuleDescriptor :=
  return ⟨← bool, ← option (oneOf directions), ← option ty, ← option ty⟩

/-- A rule. -/
def rule : Decoder Rule := return ⟨← text, ← list template, ← list template, ← descriptor⟩

/-- A migration pair. -/
def migrationPair : Decoder MigrationPair :=
  return ⟨← text, ← rule, ← rule, ← ty, ← ty⟩

end Decode

end Codemod.Blob
