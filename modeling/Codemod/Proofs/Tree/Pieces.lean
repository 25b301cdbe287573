import Codemod.Tree.Layout
/-!
# Prints in pieces

The print of a node is text of its own between the prints of its children.
`Node.pieces` lists both in order, so that what holds of a print from left to
right is shown once for lists of pieces, whatever the node: the text
(`Node.text_eq`), the children (`Node.children_eq`) and where they are placed
(`Node.pieces_place`). A node that is no name has text of its own, so its
children are shorter (`Node.width_lt_of_mem_children`).
-/

namespace Codemod

open Layout Text

/-- A piece of the print of a node. -/
inductive Piece where
  /-- Text of the node itself. -/
  | own (text : String)
  /-- The print of a child. -/
  | part (node : Node)

namespace Piece

/-- The text of the piece, children at a nesting depth. -/
def text (depth : Nat) : Piece → String
  | .own text => text
  | .part node => node.text depth

/-- The child that the piece is. -/
def node? : Piece → Option Node
  | .own _ => none
  | .part node => some node

/-- The piece with another node for the child. -/
def map (f : Node → Node) : Piece → Piece
  | .own text => .own text
  | .part node => .part (f node)

/-- The texts of pieces one after another. -/
def textOf (depth : Nat) (ps : List Piece) : String := String.join (ps.map (text depth))

/-- The children among pieces. -/
def nodes (ps : List Piece) : List Node := ps.filterMap node?

/-- Nodes with a text between them. -/
def joined (sep : String) : List Node → List Piece
  | [] => []
  | [n] => [.part n]
  | n :: rest => .part n :: .own sep :: joined sep rest

/-- Nodes on lines of their own. -/
def lined (depth : Nat) (ns : List Node) : List Piece :=
  ns.flatMap fun n => [.own (newline depth), .part n]

/-- A condition in parentheses, its own when it has any. -/
def enclosed (cond : Node) : List Piece :=
  if cond.isParen then [.part cond] else [.own "(", .part cond, .own ")"]

/-- The pieces with their children placed, the first piece at an offset. -/
def place (depth offset : Nat) : List Piece → List Piece
  | [] => []
  | .own text :: rest => .own text :: place depth (offset + byteCount text) rest
  | .part node :: rest =>
    .part (node.place depth offset) :: place depth (offset + node.width depth) rest

variable {depth : Nat}

@[simp] theorem textOf_nil : textOf depth [] = "" := rfl

@[simp] theorem textOf_cons (p : Piece) (ps : List Piece) :
    textOf depth (p :: ps) = p.text depth ++ textOf depth ps := by
  rw [textOf, List.map_cons, String.join_cons, textOf]

@[simp] theorem textOf_append (ps qs : List Piece) :
    textOf depth (ps ++ qs) = textOf depth ps ++ textOf depth qs := by
  induction ps with
  | nil => simp
  | cons p ps ih => simp [ih, String.append_assoc]

@[simp] theorem nodes_append (ps qs : List Piece) : nodes (ps ++ qs) = nodes ps ++ nodes qs :=
  List.filterMap_append

theorem textOf_joined (sep : String) (ns : List Node) :
    textOf depth (joined sep ns) = sep.intercalate (Node.texts depth ns) := by
  induction ns with
  | nil => simp [joined, Node.texts]
  | cons n rest ih =>
    cases rest with
    | nil => simp [joined, Node.texts, text]
    | cons m rest =>
      rw [joined, textOf_cons, textOf_cons, ih]
      · simp [Node.texts, text, String.intercalate_cons_cons, String.append_assoc]
      · simp

theorem nodes_joined (sep : String) (ns : List Node) : nodes (joined sep ns) = ns := by
  induction ns with
  | nil => rfl
  | cons n rest ih =>
    cases rest with
    | nil => rfl
    | cons m rest =>
      rw [joined]
      · exact congrArg (n :: ·) ih
      · simp

theorem textOf_lined (ns : List Node) :
    textOf depth (lined depth ns) = lines depth (Node.texts depth ns) := by
  induction ns with
  | nil => rfl
  | cons n rest ih =>
    have hlined : lined depth (n :: rest) = .own (newline depth) :: .part n :: lined depth rest :=
      rfl
    rw [hlined, textOf_cons, textOf_cons, ih]
    simp [lines, Node.texts, text, String.join_cons, String.append_assoc]

theorem nodes_lined (ns : List Node) : nodes (lined depth ns) = ns := by
  induction ns with
  | nil => rfl
  | cons n rest ih => exact congrArg (n :: ·) ih

theorem textOf_enclosed (cond : Node) :
    textOf depth (enclosed cond) = Layout.condition cond (cond.text depth) := by
  unfold enclosed Layout.condition
  split <;> simp [text, String.append_assoc]

theorem nodes_enclosed (cond : Node) : nodes (enclosed cond) = [cond] := by
  unfold enclosed
  split <;> rfl

theorem byteCount_textOf_enclosed (cond : Node) :
    byteCount (textOf depth (enclosed cond)) = conditionWidth cond (cond.width depth) := by
  rw [textOf_enclosed, Node.width_eq, conditionWidth_eq]

theorem byteCount_le_of_mem (depth : Nat) {p : Piece} {ps : List Piece} (hp : p ∈ ps) :
    byteCount (p.text depth) ≤ byteCount (textOf depth ps) := by
  induction ps with
  | nil => exact absurd hp List.not_mem_nil
  | cons q ps ih =>
    rw [textOf_cons, byteCount_append]
    rcases List.mem_cons.1 hp with rfl | hp
    · omega
    · have := ih hp
      omega

/-- Two pieces are together no longer than all of them. -/
theorem byteCount_add_le_of_mem (depth : Nat) {p q : Piece} {ps : List Piece} (hp : p ∈ ps)
    (hq : q ∈ ps) (hne : p ≠ q) :
    byteCount (p.text depth) + byteCount (q.text depth) ≤ byteCount (textOf depth ps) := by
  induction ps with
  | nil => exact absurd hp List.not_mem_nil
  | cons first ps ih =>
    rw [textOf_cons, byteCount_append]
    -- One of the two may be the first piece, but not both.
    rcases List.mem_cons.1 hp with rfl | hlater
    · rcases List.mem_cons.1 hq with rfl | hlater'
      · exact absurd rfl hne
      · have := byteCount_le_of_mem depth hlater'
        omega
    · rcases List.mem_cons.1 hq with rfl | hlater'
      · have := byteCount_le_of_mem depth hlater
        omega
      · have := ih hlater hlater'
        omega

theorem place_append (ps qs : List Piece) (offset : Nat) :
    place depth offset (ps ++ qs) =
      place depth offset ps ++ place depth (offset + byteCount (textOf depth ps)) qs := by
  induction ps generalizing offset with
  | nil => simp [place]
  | cons p ps ih =>
    cases p with
    | own t => simp [place, ih, text, Nat.add_assoc]
    | part n => simp [place, ih, text, Node.width_eq, Nat.add_assoc]

theorem place_joined {sep : String} (hsep : byteCount sep = 2) (ns : List Node) (offset : Nat) :
    place depth offset (joined sep ns) = joined sep (Node.placeJoined depth offset ns) := by
  induction ns generalizing offset with
  | nil => rfl
  | cons n rest ih =>
    cases rest with
    | nil => rfl
    | cons m rest =>
      rw [joined, place, place, ih, hsep]
      · rfl
      · simp

theorem place_lined (ns : List Node) (offset : Nat) :
    place depth offset (lined depth ns) = lined depth (Node.placeLines depth offset ns) := by
  induction ns generalizing offset with
  | nil => rfl
  | cons n rest ih =>
    have hlined : lined depth (n :: rest) = .own (newline depth) :: .part n :: lined depth rest :=
      rfl
    rw [hlined, place, place, ih, ← newlineWidth_eq]
    rfl

/-- Placing children that keep their prints keeps the text. -/
theorem textOf_place {ps : List Piece}
    (h : ∀ c ∈ nodes ps, ∀ offset, (c.place depth offset).text depth = c.text depth)
    (offset : Nat) : textOf depth (place depth offset ps) = textOf depth ps := by
  induction ps generalizing offset with
  | nil => rfl
  | cons p ps ih =>
    cases p with
    | own t =>
      rw [place, textOf_cons, textOf_cons, ih h]
    | part c =>
      rw [place, textOf_cons, textOf_cons, ih fun m hm => h m (List.mem_cons_of_mem _ hm), text,
        text, h c List.mem_cons_self]

/-- **A placed child is a child placed after the texts before it.** -/
theorem exists_of_mem_place {ps : List Piece} {l : String} {c : Node}
    (hc : c ∈ nodes (place depth (byteCount l) ps)) :
    ∃ m ∈ nodes ps, ∃ before after, c = m.place depth (byteCount (l ++ before)) ∧
      textOf depth ps = before ++ m.text depth ++ after := by
  induction ps generalizing l with
  | nil => exact absurd hc List.not_mem_nil
  | cons p ps ih =>
    cases p with
    | own t =>
      rw [place, ← byteCount_append] at hc
      obtain ⟨m, hm, before, after, hplace, htext⟩ := ih hc
      refine ⟨m, hm, t ++ before, after, by rw [hplace, String.append_assoc], ?_⟩
      rw [textOf_cons, htext, text]
      simp only [String.append_assoc]
    | part n =>
      rw [place, Node.width_eq, ← byteCount_append] at hc
      -- This child starts where the pieces do, later ones after its print.
      rcases List.mem_cons.1 hc with rfl | hc
      · exact ⟨n, List.mem_cons_self, "", textOf depth ps, by simp, by simp [text]⟩
      · obtain ⟨m, hm, before, after, hplace, htext⟩ := ih hc
        refine ⟨m, List.mem_cons_of_mem _ hm, n.text depth ++ before, after,
          by rw [hplace, String.append_assoc], ?_⟩
        rw [textOf_cons, htext, text]
        simp only [String.append_assoc]

end Piece

namespace Node

open Piece

theorem isParen_place (depth offset : Nat) (n : Node) :
    (n.place depth offset).isParen = n.isParen := by
  cases n
  case ret _ e => cases e <;> rfl
  case localVar _ _ _ init => cases init <;> rfl
  case methodDecl _ _ body => cases body <;> rfl
  case ifElse _ _ _ elseBranch => cases elseBranch <;> rfl
  all_goals rfl

/-- The nesting depth of the children of a node at a nesting depth. -/
def childDepth (depth : Nat) : Node → Nat
  | .block .. | .classDecl .. => depth + 1
  | _ => depth

/-- The pieces of a node's print at a nesting depth. -/
def pieces (depth : Nat) : Node → List Piece
  | .ident _ name => [.own name]
  | .literal _ value => [.own value.toSource]
  | .select _ target name _ => [.part target, .own ("." ++ name)]
  | .call _ callee args => .part callee :: .own "(" :: (joined ", " args ++ [.own ")"])
  | .methodRef _ target name => [.part target, .own ("::" ++ name)]
  | .unary _ op operand => [.own op.symbol, .part operand]
  | .binary _ op lhs rhs => [.part lhs, .own (infixOp op), .part rhs]
  | .cast _ target expr => [.own (castHead target), .part expr]
  | .paren _ expr => [.own "(", .part expr, .own ")"]
  | .block _ stmts =>
    .own "\x7b" :: (lined (depth + 1) stmts ++ [.own (newline depth ++ "\x7d")])
  | .exprStmt _ expr => [.part expr, .own ";"]
  | .ret _ none => [.own "return;"]
  | .ret _ (some expr) => [.own "return ", .part expr, .own ";"]
  | .localVar _ name declared none => [.own (localHead name declared ++ ";")]
  | .localVar _ name declared (some init) =>
    [.own (localHead name declared ++ " = "), .part init, .own ";"]
  | .ifElse _ cond thenBranch none =>
    .own "if " :: (enclosed cond ++ [.own " ", .part thenBranch])
  | .ifElse _ cond thenBranch (some elseBranch) =>
    .own "if " ::
      (enclosed cond ++ [.own " ", .part thenBranch, .own " else ", .part elseBranch])
  | .whileLoop _ cond body => .own "while " :: (enclosed cond ++ [.own " ", .part body])
  | .doWhile _ body cond =>
    .own "do " :: .part body :: .own " while " :: (enclosed cond ++ [.own ";"])
  | .synchronized _ lock body =>
    .own "synchronized " :: (enclosed lock ++ [.own " ", .part body])
  | .methodDecl _ head none => [.own (methodHead depth head ++ ";")]
  | .methodDecl _ head (some body) => [.own (methodHead depth head ++ " "), .part body]
  | .classDecl _ head members =>
    .own (classHead depth head) ::
      (lined (depth + 1) members ++ [.own (newline depth ++ "\x7d")])
  | .unit _ items => joined "\n\n" items ++ [.own "\n"]

/-- **A print is its pieces one after another.** -/
theorem text_eq (depth : Nat) (n : Node) :
    n.text depth = textOf (n.childDepth depth) (n.pieces depth) := by
  cases n
  case ret _ e => cases e <;> simp [Node.text, pieces, childDepth, Piece.text, String.append_assoc]
  case localVar _ _ _ init =>
    cases init <;> simp [Node.text, pieces, childDepth, Piece.text, String.append_assoc]
  case ifElse _ _ _ elseBranch =>
    cases elseBranch <;>
      simp [Node.text, pieces, childDepth, Piece.text, textOf_enclosed, String.append_assoc]
  case methodDecl _ _ body =>
    cases body <;> simp [Node.text, pieces, childDepth, Piece.text, String.append_assoc]
  all_goals
    simp [Node.text, pieces, childDepth, Piece.text, textOf_joined, textOf_lined,
      textOf_enclosed, String.append_assoc]

/-- **The children are the pieces that are nodes.** -/
theorem children_eq (depth : Nat) (n : Node) : n.children = nodes (n.pieces depth) := by
  have hcons : ∀ ps t, nodes (.own t :: ps) = nodes ps := fun _ _ => rfl
  have hcons' : ∀ ps n, nodes (.part n :: ps) = n :: nodes ps := fun _ _ => rfl
  cases n
  case ret _ e => cases e <;> rfl
  case localVar _ _ _ init => cases init <;> rfl
  case ifElse _ _ _ elseBranch =>
    cases elseBranch <;> simp [children, pieces, hcons, hcons', nodes_enclosed] <;> rfl
  case methodDecl _ _ body => cases body <;> rfl
  case call | block | classDecl | unit =>
    simp [children, pieces, hcons, hcons', nodes_joined, nodes_lined]
    rfl
  case whileLoop | doWhile | synchronized =>
    simp [children, pieces, hcons, hcons', nodes_enclosed]
    rfl
  all_goals rfl

theorem place_enclosed (depth offset : Nat) (cond : Node) :
    Piece.place depth offset (enclosed cond) =
      enclosed (cond.place depth (offset + conditionShift cond)) := by
  have hparen : byteCount "(" = 1 := by decide
  unfold enclosed conditionShift
  rw [isParen_place]
  split <;> simp [Piece.place, hparen]

/-- **The children of a placed node are placed where their pieces start.** -/
theorem pieces_place (depth offset : Nat) (n : Node) :
    (n.place depth offset).pieces depth =
      Piece.place (n.childDepth depth) offset (n.pieces depth) := by
  have hopen : byteCount "(" = 1 := by decide
  have hbrace : byteCount "\x7b" = 1 := by decide
  have hblank : byteCount " " = 1 := by decide
  have hcomma := @place_joined depth ", " rfl
  have hgap := @place_joined depth "\n\n" rfl
  cases n
  case ret _ e => cases e <;> rfl
  case localVar _ _ _ init => cases init <;> rfl
  case methodDecl _ _ body =>
    cases body with
    | none => rfl
    | some body => simp [place, pieces, Piece.place, childDepth, hblank, Nat.add_assoc]
  case ifElse _ cond _ elseBranch =>
    cases elseBranch <;>
      simp [place, pieces, Piece.place, childDepth, place_append, place_enclosed,
        byteCount_textOf_enclosed, hblank]
  case call =>
    simp [place, pieces, Piece.place, childDepth, place_append, hcomma, hopen]
  case block =>
    simp [place, pieces, Piece.place, childDepth, place_append, place_lined, hbrace]
  case classDecl =>
    simp [place, pieces, Piece.place, childDepth, place_append, place_lined]
  case unit =>
    simp [place, pieces, Piece.place, childDepth, place_append, hgap]
  case paren => simp [place, pieces, Piece.place, childDepth, hopen]
  case whileLoop | doWhile | synchronized =>
    simp [place, pieces, Piece.place, childDepth, place_append, place_enclosed,
        byteCount_textOf_enclosed, hblank]
  all_goals rfl

/-- **A child of a placed node** is a child, placed after the print before it. -/
theorem exists_of_mem_children_place {depth : Nat} {n c : Node} {l : String}
    (hc : c ∈ (n.place depth (byteCount l)).children) :
    ∃ m ∈ n.children, ∃ before after,
      c = m.place (n.childDepth depth) (byteCount (l ++ before)) ∧
      n.text depth = before ++ m.text (n.childDepth depth) ++ after := by
  rw [children_eq depth, pieces_place] at hc
  rw [text_eq, children_eq depth]
  exact exists_of_mem_place hc

/-- A child is one of the pieces. -/
theorem mem_pieces_of_mem_children {depth : Nat} {c n : Node} (hc : c ∈ n.children) :
    .part c ∈ n.pieces depth := by
  rw [children_eq depth] at hc
  obtain ⟨p, hp, hnode⟩ := List.mem_filterMap.1 hc
  cases p with
  | own t => exact absurd hnode nofun
  | part m =>
    obtain rfl := Option.some.inj hnode
    exact hp

/-- Whatever has children has text of its own. -/
theorem exists_own_of_mem_children (depth : Nat) {c n : Node} (hc : c ∈ n.children) :
    ∃ t, .own t ∈ n.pieces depth ∧ t ≠ "" := by
  cases n
  case ident | literal => exact absurd hc List.not_mem_nil
  case unary _ op _ => exact ⟨op.symbol, by simp [pieces], by cases op <;> decide⟩
  case ret _ e =>
    cases e with
    | none => exact absurd hc List.not_mem_nil
    | some e => exact ⟨";", by simp [pieces], by decide⟩
  case localVar _ _ _ init =>
    cases init with
    | none => exact absurd hc List.not_mem_nil
    | some e => exact ⟨";", by simp [pieces], by decide⟩
  case ifElse _ _ _ elseBranch =>
    cases elseBranch <;> exact ⟨"if ", by simp [pieces], by decide⟩
  case methodDecl _ head body =>
    cases body with
    | none => exact absurd hc List.not_mem_nil
    | some e => exact ⟨methodHead depth head ++ " ", by simp [pieces], by simp⟩
  case select _ _ name _ => exact ⟨"." ++ name, by simp [pieces], by simp⟩
  case methodRef _ _ name => exact ⟨"::" ++ name, by simp [pieces], by simp⟩
  case binary _ op _ _ => exact ⟨infixOp op, by simp [pieces], by simp [infixOp]⟩
  case cast _ target _ => exact ⟨castHead target, by simp [pieces], by simp [castHead]⟩
  case classDecl =>
    exact ⟨newline depth ++ "\x7d", by simp [pieces], by simp⟩
  case block => exact ⟨"\x7b", by simp [pieces], by decide⟩
  case call | paren => exact ⟨"(", by simp [pieces], by decide⟩
  case exprStmt => exact ⟨";", by simp [pieces], by decide⟩
  case whileLoop => exact ⟨"while ", by simp [pieces], by decide⟩
  case doWhile => exact ⟨"do ", by simp [pieces], by decide⟩
  case synchronized => exact ⟨"synchronized ", by simp [pieces], by decide⟩
  case unit => exact ⟨"\n", by simp [pieces], by decide⟩

/-- **A child is shorter than its parent.** -/
theorem width_lt_of_mem_children {depth : Nat} {c n : Node} (hc : c ∈ n.children) :
    c.width (n.childDepth depth) < n.width depth := by
  -- The print of the child and text of the node's own are pieces side by side.
  obtain ⟨t, ht, hne⟩ := exists_own_of_mem_children depth hc
  have hsum := Piece.byteCount_add_le_of_mem (n.childDepth depth) ht
    (mem_pieces_of_mem_children hc) nofun
  have hpos : byteCount t ≠ 0 := fun hzero => hne (byteCount_eq_zero_iff.1 hzero)
  rw [width_eq, width_eq, text_eq depth n]
  simp only [Piece.text] at hsum
  omega

end Node

end Codemod
