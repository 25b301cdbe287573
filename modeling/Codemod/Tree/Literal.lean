import Codemod.Decimal.Shortest
/-!
# Literals and operators

The leaves of expressions and the operators that join them, with their
spelling in source code and how tightly they bind.
-/

namespace Codemod

namespace Text

/-! ## Text between quotes

A text literal in source code stands between quotes. Inside, a backslash, a
line feed, a tab, a carriage return and the quote itself are written with a
backslash before them; every other character stands for itself. -/

/-- One character as it stands inside a literal. -/
def escapeChar (quote c : Char) : List Char :=
  if c = '\\' then ['\\', '\\']
  else if c = '\n' then ['\\', 'n']
  else if c = '\t' then ['\\', 't']
  else if c = '\r' then ['\\', 'r']
  else if c = quote then ['\\', c]
  else [c]

/-- A text as it stands inside a literal. -/
def escape (quote : Char) (s : String) : String :=
  String.ofList (s.toList.flatMap (escapeChar quote))

/-- A literal: the text between quotes. -/
def quoted (quote : Char) (s : String) : String :=
  String.singleton quote ++ escape quote s ++ String.singleton quote

end Text

/-! ## Literals -/

/-- A constant in source code. -/
inductive Literal where
  | int (value : Int)
  | float (value : Double)
  | bool (value : Bool)
  | char (value : Char)
  | str (value : String)
  | null
  deriving Inhabited

namespace Literal

/-- Literals agree when they denote one constant; floating point ones compare
as numbers. -/
def beq : Literal → Literal → Bool
  | .int a, .int b => a == b
  | .float a, .float b => a.sameNumber b
  | .bool a, .bool b => a == b
  | .char a, .char b => a == b
  | .str a, .str b => a == b
  | .null, .null => true
  | _, _ => false

instance : BEq Literal := ⟨beq⟩

/-- A floating point constant is written without exponent, with the fewest
digits that read back, and always shows a decimal point. -/
def floatSource (x : Double) : String :=
  let sign := if x.isNegative then "-" else ""
  if x.isNaN then "NaN.0"
  else if x.isInfinite then sign ++ "inf.0"
  else if x.isZero then sign ++ "0.0"
  else
    let d := Decimal.shortest .up x
    sign ++ Decimal.positional d ++ if d.exponent < 0 then "" else ".0"

/-- The literal as source code spells it. -/
def toSource : Literal → String
  | .int n => toString n
  | .float x => floatSource x
  | .bool b => if b then "true" else "false"
  | .char c => Text.quoted '\'' (String.singleton c)
  | .str s => Text.quoted '"' s
  | .null => "null"

end Literal

/-- An operator before its operand. -/
inductive UnaryOp where
  | not
  | neg
  deriving DecidableEq, Inhabited

/-- An operator between its operands. -/
inductive BinaryOp where
  | add | sub | mul | div | rem
  | eq | ne | lt | le | gt | ge
  | and | or
  deriving DecidableEq, Inhabited

namespace UnaryOp

/-- The operator as source code spells it. -/
def symbol : UnaryOp → String
  | .not => "!"
  | .neg => "-"

end UnaryOp

namespace BinaryOp

/-- The operator as source code spells it. -/
def symbol : BinaryOp → String
  | .add => "+"
  | .sub => "-"
  | .mul => "*"
  | .div => "/"
  | .rem => "%"
  | .eq => "=="
  | .ne => "!="
  | .lt => "<"
  | .le => "<="
  | .gt => ">"
  | .ge => ">="
  | .and => "&&"
  | .or => "||"

/-- How tightly the operator binds its operands. -/
def precedence : BinaryOp → Nat
  | .or => 3
  | .and => 4
  | .eq | .ne => 8
  | .lt | .le | .gt | .ge => 9
  | .add | .sub => 11
  | .mul | .div | .rem => 12

end BinaryOp

namespace Precedence

/-- Unary operators and casts. -/
def unary : Nat := 13

/-- Names, literals, calls, selections and all that stands in parentheses. -/
def primary : Nat := 15

end Precedence

end Codemod
