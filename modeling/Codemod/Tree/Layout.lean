import Codemod.Tree.Basic
/-!
# Layout

The canonical print of a tree, and the tree as it then lies in its text.
`Node.text` is the print of a node at a nesting depth. `Node.place` sets the
spans of a node whose print starts at an offset: every node spans its own
print, and a selection knows where its name stands. The print of a node is
made of the prints of its parts, so the spans of the parts lie within its own.
-/

namespace Codemod

namespace Layout

/-- The line break before a line at a nesting depth, with the blanks that
begin the line. -/
def newline (depth : Nat) : String :=
  "\n" ++ String.join (List.replicate depth "    ")

/-- A parameter of a method, its annotations before it on the line. -/
def param (p : Param) : String :=
  String.join (p.annotations.map fun a => a.toSource ++ " ") ++ p.ty.toSource ++ " " ++ p.name

/-- A declared type variable; only its upper bound can be written. -/
def typeParam (v : TypeVar) : String :=
  match v.upper with
  | some upper => v.name ++ " extends " ++ upper.toSource
  | none => v.name

/-- The type variables of a declaration, nothing when there are none. -/
def typeParams : List TypeVar → String
  | [] => ""
  | vars => "<" ++ ", ".intercalate (vars.map typeParam) ++ ">"

/-- The annotations of a declaration, one to a line. -/
def annotations (depth : Nat) (as : List Annotation) : String :=
  String.join (as.map fun a => a.toSource ++ newline depth)

/-- What is printed of a method before its body. -/
def methodHead (depth : Nat) (m : MethodHead) : String :=
  annotations depth m.annotations ++
    (if m.typeParams.isEmpty then "" else typeParams m.typeParams ++ " ") ++
    m.returnType.toSource ++ " " ++ m.name ++ "(" ++ ", ".intercalate (m.params.map param) ++ ")"

/-- What is printed of a class before the line of its first member. -/
def classHead (depth : Nat) (c : ClassHead) : String :=
  annotations depth c.annotations ++ "class " ++ Name.simple c.name ++ typeParams c.typeParams ++
    " \x7b"

/-- What is printed before the value of a local variable. -/
def localHead (name : String) (declared : Ty) : String := declared.toSource ++ " " ++ name

/-- What is printed before the operand of a cast. -/
def castHead (target : Ty) : String := "(" ++ target.toSource ++ ") "

/-- What is printed before the right operand. -/
def infixOp (op : BinaryOp) : String := " " ++ op.symbol ++ " "

/-- A condition stands in parentheses, its own when it has any. -/
def condition (cond : Node) (text : String) : String :=
  if cond.isParen then text else "(" ++ text ++ ")"

/-- How far a condition's own print is from where the condition starts. -/
def conditionShift (cond : Node) : Nat := if cond.isParen then 0 else 1

/-- Lines, each with the break before it. -/
def lines (depth : Nat) (texts : List String) : String :=
  String.join (texts.map (newline depth ++ ·))

/-! ## Widths -/

/-- The number of bytes of a line break. -/
def newlineWidth (depth : Nat) : Nat := 1 + 4 * depth

/-- The number of bytes of texts that two bytes are set between. -/
def joinedWidth : List Nat → Nat
  | [] => 0
  | [w] => w
  | w :: rest => w + 2 + joinedWidth rest

/-- The number of bytes of lines, each with the break before it. -/
def linesWidth (depth : Nat) : List Nat → Nat
  | [] => 0
  | w :: rest => newlineWidth depth + w + linesWidth depth rest

/-- The number of bytes of a condition, given those of its own print. -/
def conditionWidth (cond : Node) (width : Nat) : Nat := if cond.isParen then width else width + 2

open Text

theorem newlineWidth_eq (depth : Nat) : newlineWidth depth = byteCount (newline depth) := by
  have h : ∀ n, byteCount (String.join (List.replicate n "    ")) = 4 * n := by
    intro n
    induction n with
    | zero => simp
    | succ n ih =>
      rw [List.replicate_succ, String.join_cons, byteCount_append, ih]
      have : byteCount "    " = 4 := by decide
      omega
  have : byteCount "\n" = 1 := by decide
  rw [newlineWidth, newline, byteCount_append, h, this]

theorem joinedWidth_eq {sep : String} (h : byteCount sep = 2) :
    ∀ ts : List String, joinedWidth (ts.map byteCount) = byteCount (sep.intercalate ts)
  | [] => by simp [joinedWidth]
  | [t] => by simp [joinedWidth]
  | t :: u :: rest => by
    have := joinedWidth_eq h (u :: rest)
    simp only [List.map_cons] at this
    simp [joinedWidth, String.intercalate_cons_cons, this, h]

theorem linesWidth_eq (depth : Nat) :
    ∀ ts : List String, linesWidth depth (ts.map byteCount) = byteCount (lines depth ts)
  | [] => by simp [linesWidth, lines]
  | t :: rest => by
    have := linesWidth_eq depth rest
    simp only [lines] at this
    simp [linesWidth, lines, String.join_cons, this, newlineWidth_eq]

theorem conditionWidth_eq (cond : Node) (text : String) :
    conditionWidth cond (byteCount text) = byteCount (condition cond text) := by
  have h : byteCount "(" = 1 := by decide
  have h' : byteCount ")" = 1 := by decide
  unfold conditionWidth condition
  split
  · rfl
  · simp only [byteCount_append, h, h']
    omega

end Layout

namespace Node

open Layout Text

mutual

/-- The print of the node at a nesting depth. -/
def text (depth : Nat) : Node → String
  | .ident _ name => name
  | .literal _ value => value.toSource
  | .select _ target name _ => text depth target ++ "." ++ name
  | .call _ callee args =>
    text depth callee ++ "(" ++ ", ".intercalate (texts depth args) ++ ")"
  | .methodRef _ target name => text depth target ++ "::" ++ name
  | .unary _ op operand => op.symbol ++ text depth operand
  | .binary _ op lhs rhs => text depth lhs ++ infixOp op ++ text depth rhs
  | .cast _ target expr => castHead target ++ text depth expr
  | .paren _ expr => "(" ++ text depth expr ++ ")"
  | .block _ stmts =>
    "\x7b" ++ lines (depth + 1) (texts (depth + 1) stmts) ++ newline depth ++ "\x7d"
  | .exprStmt _ expr => text depth expr ++ ";"
  | .ret _ none => "return;"
  | .ret _ (some expr) => "return " ++ text depth expr ++ ";"
  | .localVar _ name declared none => localHead name declared ++ ";"
  | .localVar _ name declared (some init) =>
    localHead name declared ++ " = " ++ text depth init ++ ";"
  | .ifElse _ cond thenBranch none =>
    "if " ++ condition cond (text depth cond) ++ " " ++ text depth thenBranch
  | .ifElse _ cond thenBranch (some elseBranch) =>
    "if " ++ condition cond (text depth cond) ++ " " ++ text depth thenBranch ++ " else " ++
      text depth elseBranch
  | .whileLoop _ cond body =>
    "while " ++ condition cond (text depth cond) ++ " " ++ text depth body
  | .doWhile _ body cond =>
    "do " ++ text depth body ++ " while " ++ condition cond (text depth cond) ++ ";"
  | .synchronized _ lock body =>
    "synchronized " ++ condition lock (text depth lock) ++ " " ++ text depth body
  | .methodDecl _ head none => methodHead depth head ++ ";"
  | .methodDecl _ head (some body) => methodHead depth head ++ " " ++ text depth body
  | .classDecl _ head members =>
    classHead depth head ++ lines (depth + 1) (texts (depth + 1) members) ++ newline depth ++
      "\x7d"
  | .unit _ items => "\n\n".intercalate (texts depth items) ++ "\n"
termination_by structural n => n

/-- The print of each node. -/
def texts (depth : Nat) : List Node → List String
  | [] => []
  | n :: rest => text depth n :: texts depth rest
termination_by structural ns => ns

end

mutual

/-- The number of bytes of the print, which `width_eq` says it is. -/
def width (depth : Nat) : Node → Nat
  | .ident _ name => byteCount name
  | .literal _ value => byteCount value.toSource
  | .select _ target name _ => width depth target + 1 + byteCount name
  | .call _ callee args => width depth callee + 1 + joinedWidth (widths depth args) + 1
  | .methodRef _ target name => width depth target + 2 + byteCount name
  | .unary _ op operand => byteCount op.symbol + width depth operand
  | .binary _ op lhs rhs => width depth lhs + byteCount (infixOp op) + width depth rhs
  | .cast _ target expr => byteCount (castHead target) + width depth expr
  | .paren _ expr => 1 + width depth expr + 1
  | .block _ stmts =>
    1 + linesWidth (depth + 1) (widths (depth + 1) stmts) + newlineWidth depth + 1
  | .exprStmt _ expr => width depth expr + 1
  | .ret _ none => 7
  | .ret _ (some expr) => 7 + width depth expr + 1
  | .localVar _ name declared none => byteCount (localHead name declared) + 1
  | .localVar _ name declared (some init) =>
    byteCount (localHead name declared) + 3 + width depth init + 1
  | .ifElse _ cond thenBranch none =>
    3 + conditionWidth cond (width depth cond) + 1 + width depth thenBranch
  | .ifElse _ cond thenBranch (some elseBranch) =>
    3 + conditionWidth cond (width depth cond) + 1 + width depth thenBranch + 6 +
      width depth elseBranch
  | .whileLoop _ cond body =>
    6 + conditionWidth cond (width depth cond) + 1 + width depth body
  | .doWhile _ body cond =>
    3 + width depth body + 7 + conditionWidth cond (width depth cond) + 1
  | .synchronized _ lock body =>
    13 + conditionWidth lock (width depth lock) + 1 + width depth body
  | .methodDecl _ head none => byteCount (methodHead depth head) + 1
  | .methodDecl _ head (some body) => byteCount (methodHead depth head) + 1 + width depth body
  | .classDecl _ head members =>
    byteCount (classHead depth head) + linesWidth (depth + 1) (widths (depth + 1) members) +
      newlineWidth depth + 1
  | .unit _ items => joinedWidth (widths depth items) + 1
termination_by structural n => n

/-- The number of bytes of each print. -/
def widths (depth : Nat) : List Node → List Nat
  | [] => []
  | n :: rest => width depth n :: widths depth rest
termination_by structural ns => ns

end

mutual

/-- The width of a node is the number of bytes of its print. -/
theorem width_eq (depth : Nat) (n : Node) : n.width depth = byteCount (n.text depth) := by
  cases n
  case select => simp only [width, text, byteCount_append, width_eq depth]; rfl
  case call =>
    simp only [width, text, byteCount_append, width_eq depth, widths_eq depth,
      @joinedWidth_eq ", " rfl]
    rfl
  case methodRef => simp only [width, text, byteCount_append, width_eq depth]; rfl
  case unary => simp only [width, text, byteCount_append, width_eq depth]
  case binary => simp only [width, text, byteCount_append, width_eq depth]
  case cast => simp only [width, text, byteCount_append, width_eq depth]
  case paren => simp only [width, text, byteCount_append, width_eq depth]; rfl
  case block =>
    simp only [width, text, byteCount_append, widths_eq (depth + 1), linesWidth_eq,
      newlineWidth_eq]
    rfl
  case exprStmt => simp only [width, text, byteCount_append, width_eq depth]; rfl
  case ret _ e => cases e <;> simp only [width, text, byteCount_append, width_eq depth] <;> rfl
  case localVar _ name declared init =>
    cases init <;> simp only [width, text, byteCount_append, width_eq depth] <;> rfl
  case ifElse _ cond thenBranch elseBranch =>
    cases elseBranch <;>
      simp only [width, text, byteCount_append, width_eq depth, conditionWidth_eq] <;> rfl
  case whileLoop =>
    simp only [width, text, byteCount_append, width_eq depth, conditionWidth_eq]; rfl
  case doWhile =>
    simp only [width, text, byteCount_append, width_eq depth, conditionWidth_eq]; rfl
  case synchronized =>
    simp only [width, text, byteCount_append, width_eq depth, conditionWidth_eq]; rfl
  case methodDecl _ head body =>
    cases body <;> simp only [width, text, byteCount_append, width_eq depth] <;> rfl
  case classDecl =>
    simp only [width, text, byteCount_append, widths_eq (depth + 1), linesWidth_eq,
      newlineWidth_eq]
    rfl
  case unit =>
    simp only [width, text, byteCount_append, widths_eq depth, @joinedWidth_eq "\n\n" rfl]
    rfl
  all_goals rfl

theorem widths_eq (depth : Nat) (ns : List Node) :
    widths depth ns = (texts depth ns).map byteCount := by
  cases ns with
  | nil => rfl
  | cons n rest => simp [widths, texts, width_eq depth n, widths_eq depth rest]

end

/-- What the node carries once its print starts at an offset. -/
def placedInfo (depth offset : Nat) (n : Node) : NodeInfo :=
  { n.info with span := ⟨offset, offset + n.width depth⟩ }

mutual

/-- The node with the spans it has when its print starts at an offset. -/
def place (depth offset : Nat) : Node → Node
  | .ident i name => .ident (placedInfo depth offset (.ident i name)) name
  | .literal i value => .literal (placedInfo depth offset (.literal i value)) value
  | .select i target name nameSpan =>
    let nameStart := offset + width depth target + 1
    .select (placedInfo depth offset (.select i target name nameSpan))
      (place depth offset target) name ⟨nameStart, nameStart + byteCount name⟩
  | .call i callee args =>
    .call (placedInfo depth offset (.call i callee args)) (place depth offset callee)
      (placeJoined depth (offset + width depth callee + 1) args)
  | .methodRef i target name =>
    .methodRef (placedInfo depth offset (.methodRef i target name)) (place depth offset target)
      name
  | .unary i op operand =>
    .unary (placedInfo depth offset (.unary i op operand)) op
      (place depth (offset + byteCount op.symbol) operand)
  | .binary i op lhs rhs =>
    .binary (placedInfo depth offset (.binary i op lhs rhs)) op (place depth offset lhs)
      (place depth (offset + width depth lhs + byteCount (infixOp op)) rhs)
  | .cast i target expr =>
    .cast (placedInfo depth offset (.cast i target expr)) target
      (place depth (offset + byteCount (castHead target)) expr)
  | .paren i expr =>
    .paren (placedInfo depth offset (.paren i expr)) (place depth (offset + 1) expr)
  | .block i stmts =>
    .block (placedInfo depth offset (.block i stmts)) (placeLines (depth + 1) (offset + 1) stmts)
  | .exprStmt i expr =>
    .exprStmt (placedInfo depth offset (.exprStmt i expr)) (place depth offset expr)
  | .ret i none => .ret (placedInfo depth offset (.ret i none)) none
  | .ret i (some expr) =>
    .ret (placedInfo depth offset (.ret i (some expr)))
      (some (place depth (offset + byteCount "return ") expr))
  | .localVar i name declared none =>
    .localVar (placedInfo depth offset (.localVar i name declared none)) name declared none
  | .localVar i name declared (some init) =>
    .localVar (placedInfo depth offset (.localVar i name declared (some init))) name declared
      (some (place depth (offset + byteCount (localHead name declared ++ " = ")) init))
  | .ifElse i cond thenBranch elseBranch =>
    let info := placedInfo depth offset (.ifElse i cond thenBranch elseBranch)
    let condStart := offset + byteCount "if "
    let thenStart := condStart + conditionWidth cond (width depth cond) + 1
    let elseStart := thenStart + width depth thenBranch + byteCount " else "
    .ifElse info (place depth (condStart + conditionShift cond) cond)
      (place depth thenStart thenBranch)
      (match elseBranch with
        | none => none
        | some branch => some (place depth elseStart branch))
  | .whileLoop i cond body =>
    let condStart := offset + byteCount "while "
    .whileLoop (placedInfo depth offset (.whileLoop i cond body))
      (place depth (condStart + conditionShift cond) cond)
      (place depth (condStart + conditionWidth cond (width depth cond) + 1) body)
  | .doWhile i body cond =>
    let bodyStart := offset + byteCount "do "
    let condStart := bodyStart + width depth body + byteCount " while "
    .doWhile (placedInfo depth offset (.doWhile i body cond)) (place depth bodyStart body)
      (place depth (condStart + conditionShift cond) cond)
  | .synchronized i lock body =>
    let lockStart := offset + byteCount "synchronized "
    .synchronized (placedInfo depth offset (.synchronized i lock body))
      (place depth (lockStart + conditionShift lock) lock)
      (place depth (lockStart + conditionWidth lock (width depth lock) + 1) body)
  | .methodDecl i head none =>
    .methodDecl (placedInfo depth offset (.methodDecl i head none)) head none
  | .methodDecl i head (some body) =>
    .methodDecl (placedInfo depth offset (.methodDecl i head (some body))) head
      (some (place depth (offset + byteCount (methodHead depth head) + 1) body))
  | .classDecl i head members =>
    .classDecl (placedInfo depth offset (.classDecl i head members)) head
      (placeLines (depth + 1) (offset + byteCount (classHead depth head)) members)
  | .unit i items =>
    .unit (placedInfo depth offset (.unit i items)) (placeJoined depth offset items)
termination_by structural n => n

/-- Nodes whose prints follow one another with two bytes between them. -/
def placeJoined (depth offset : Nat) : List Node → List Node
  | [] => []
  | n :: rest => place depth offset n :: placeJoined depth (offset + width depth n + 2) rest
termination_by structural ns => ns

/-- Nodes on lines of their own. -/
def placeLines (depth offset : Nat) : List Node → List Node
  | [] => []
  | n :: rest =>
    let start := offset + newlineWidth depth
    place depth start n :: placeLines depth (start + width depth n) rest
termination_by structural ns => ns

end

/-- The canonical print of a tree. -/
def print (n : Node) : String := n.text 0

/-- The tree as it lies in its canonical print. -/
def laidOut (n : Node) : Node := n.place 0 0

end Node

end Codemod
