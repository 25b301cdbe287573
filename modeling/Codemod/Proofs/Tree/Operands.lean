import Codemod.Proofs.Tree.Nesting
import Mathlib.Data.List.Basic
/-!
# Operands

Where a node stands among the children of another says how tightly it must bind
to be read as that child without parentheses (`Node.required`). In a tree whose
nodes all do (`Node.BindsTightly`) one node can take the place of another that
binds no more tightly, and the tree stays such a tree
(`Node.bindsTightly_replace`).
-/

namespace Codemod

/-! ## What positions require -/

namespace Node

variable {callee i : Nat} {c m n root : Node} {above : List Ancestor}

/-- How tightly a child must bind. The first operand of an operator may be one of
the same precedence, the second may not. What is called is no operand of an
operator, and how tightly it must bind is left open; arguments, statements and
what stands in parentheses may bind as they like. -/
def required (callee : Nat) (n : Node) (i : Nat) : Nat :=
  match n with
  | .select .. | .methodRef .. => Precedence.primary
  | .call .. => if i = 0 then callee else 0
  | .unary .. | .cast .. => Precedence.unary
  | .binary _ op _ _ => if i = 0 then op.precedence else op.precedence + 1
  | _ => 0

/-- Every node of the tree binds as tightly as its position requires. -/
def BindsTightly (callee : Nat) (n : Node) : Prop :=
  ∀ m ∈ n.preorder, ∀ i c, m.children[i]? = some c → m.required callee i ≤ c.precedence

theorem bindsTightly_iff :
    n.BindsTightly callee ↔
      (∀ i c, n.children[i]? = some c → n.required callee i ≤ c.precedence) ∧
        ∀ c ∈ n.children, c.BindsTightly callee := by
  unfold BindsTightly
  rw [preorder_eq, List.forall_mem_cons, List.forall_mem_flatMap]

theorem BindsTightly.child (h : n.BindsTightly callee) (hc : c ∈ n.children) :
    c.BindsTightly callee :=
  (bindsTightly_iff.1 h).2 c hc

theorem BindsTightly.of_under (hroot : root.BindsTightly callee) (h : root.Under n above) :
    n.BindsTightly callee := by
  induction h with
  | root => exact hroot
  | child _ hc ih => exact ih.child (List.mem_of_getElem? hc)

/-- A node without children requires nothing. -/
theorem bindsTightly_of_children_eq_nil (h : n.children = []) : n.BindsTightly callee := by
  rw [bindsTightly_iff, h]
  exact ⟨nofun, nofun⟩

/-- A node with one child requires something of that alone. -/
theorem bindsTightly_of_child (h : n.children = [c]) (hc : c.BindsTightly callee)
    (hle : n.required callee 0 ≤ c.precedence) : n.BindsTightly callee := by
  rw [bindsTightly_iff, h]
  refine ⟨fun i d hd => ?_, fun d hd => List.mem_singleton.1 hd ▸ hc⟩
  obtain ⟨rfl, rfl⟩ : i = 0 ∧ c = d := by
    rw [List.getElem?_singleton] at hd
    split at hd
    · exact ⟨‹i = 0›, Option.some.inj hd⟩
    · exact absurd hd nofun
  exact hle

/-- An operator requires more of its second operand than of its first. -/
theorem bindsTightly_binary {info : NodeInfo} {op : BinaryOp} {lhs rhs : Node}
    (hlhs : lhs.BindsTightly callee) (hrhs : rhs.BindsTightly callee)
    (hle : op.precedence ≤ lhs.precedence) (hlt : op.precedence < rhs.precedence) :
    (binary info op lhs rhs).BindsTightly callee := by
  refine bindsTightly_iff.2 ⟨fun i c hc => ?_, ?_⟩
  · match i, hc with
    | 0, hc => exact Option.some.inj hc ▸ hle
    | 1, hc => exact Option.some.inj hc ▸ hlt
  · exact List.forall_mem_cons.2 ⟨hlhs, List.forall_mem_singleton.2 hrhs⟩

/-! ## Other children -/

/-- The node with other children in the places of those it has. -/
def withChildren (n : Node) (cs : List Node) : Node :=
  match n, cs with
  | .select info _ name nameSpan, [c] => .select info c name nameSpan
  | .call info _ _, c :: args => .call info c args
  | .methodRef info _ name, [c] => .methodRef info c name
  | .unary info op _, [c] => .unary info op c
  | .binary info op _ _, [c, d] => .binary info op c d
  | .cast info target _, [c] => .cast info target c
  | .paren info _, [c] => .paren info c
  | .block info _, stmts => .block info stmts
  | .exprStmt info _, [c] => .exprStmt info c
  | .ret info (some _), [c] => .ret info (some c)
  | .localVar info name declared (some _), [c] => .localVar info name declared (some c)
  | .ifElse info _ _ none, [c, d] => .ifElse info c d none
  | .ifElse info _ _ (some _), [c, d, e] => .ifElse info c d (some e)
  | .whileLoop info _ _, [c, d] => .whileLoop info c d
  | .doWhile info _ _, [c, d] => .doWhile info c d
  | .synchronized info _ _, [c, d] => .synchronized info c d
  | .methodDecl info head (some _), [c] => .methodDecl info head (some c)
  | .classDecl info head _, members => .classDecl info head members
  | .unit info _, items => .unit info items
  | n, _ => n

/-- **A node has the children that it was given**, and is what it was but for
them. -/
theorem of_withChildren {cs : List Node} (h : cs.length = n.children.length) :
    (n.withChildren cs).children = cs ∧ (n.withChildren cs).precedence = n.precedence ∧
      (n.withChildren cs).required callee = n.required callee := by
  cases n
  case ident | literal =>
    obtain rfl := List.length_eq_zero_iff.1 h
    exact ⟨rfl, rfl, rfl⟩
  case ret _ e | localVar _ _ _ e | methodDecl _ _ e =>
    cases e with
    | none =>
      obtain rfl := List.length_eq_zero_iff.1 h
      exact ⟨rfl, rfl, rfl⟩
    | some e =>
      obtain ⟨c, rfl⟩ := List.length_eq_one_iff.1 h
      exact ⟨rfl, rfl, rfl⟩
  case ifElse _ _ _ elseBranch =>
    cases elseBranch with
    | none =>
      obtain ⟨c, d, rfl⟩ := List.length_eq_two.1 h
      exact ⟨rfl, rfl, rfl⟩
    | some elseBranch =>
      obtain ⟨c, d, e, rfl⟩ := List.length_eq_three.1 h
      exact ⟨rfl, rfl, rfl⟩
  case binary | whileLoop | doWhile | synchronized =>
    obtain ⟨c, d, rfl⟩ := List.length_eq_two.1 h
    exact ⟨rfl, rfl, rfl⟩
  case call =>
    cases cs with
    | nil => exact absurd h nofun
    | cons c args => exact ⟨rfl, rfl, rfl⟩
  case block | classDecl | unit => exact ⟨rfl, rfl, rfl⟩
  all_goals
    obtain ⟨c, rfl⟩ := List.length_eq_one_iff.1 h
    exact ⟨rfl, rfl, rfl⟩

/-! ## Another node at a place -/

/-- The node with another child in the place of one it has. -/
def withChild (n : Node) (i : Nat) (c : Node) : Node := n.withChildren (n.children.set i c)

theorem children_withChild (n : Node) (i : Nat) (c : Node) :
    (n.withChild i c).children = n.children.set i c :=
  (@of_withChildren 0 n _ List.length_set).1

theorem required_withChild (callee : Nat) (n : Node) (i : Nat) (c : Node) :
    (n.withChild i c).required callee = n.required callee :=
  (of_withChildren List.length_set).2.2

/-- **A node keeps to what is required of its children** when a child is replaced
by one that binds as tightly as the position requires. -/
theorem BindsTightly.withChild (h : n.BindsTightly callee) (hc : n.children[i]? = some c)
    (hm : m.BindsTightly callee) (hle : n.required callee i ≤ m.precedence) :
    (n.withChild i m).BindsTightly callee ∧ (n.withChild i m).precedence = n.precedence := by
  obtain ⟨hhere, hbelow⟩ := bindsTightly_iff.1 h
  have hprecedence : (n.withChild i m).precedence = n.precedence :=
    (@of_withChildren callee n _ List.length_set).2.1
  refine ⟨bindsTightly_iff.2 ⟨fun j d hd => ?_, fun d hd => ?_⟩, hprecedence⟩
  · rw [children_withChild] at hd
    rw [required_withChild]
    by_cases hsame : i = j
    · subst hsame
      obtain ⟨hi, -⟩ := List.getElem?_eq_some_iff.1 hc
      rw [List.getElem?_set_self hi] at hd
      obtain rfl := Option.some.inj hd
      exact hle
    · rw [List.getElem?_set_ne hsame] at hd
      exact hhere j d hd
  · rw [children_withChild] at hd
    rcases List.mem_or_eq_of_mem_set hd with hd | rfl
    · exact hbelow d hd
    · exact hm

end Node

/-- The tree of a place with another node at it. -/
def Place.replace (p : Place) (m : Node) : Node :=
  p.above.foldl (fun below ancestor => ancestor.node.withChild ancestor.child below) m

namespace Node

variable {callee : Nat} {m n root : Node} {above : List Ancestor} {place : Place}

/-- What binds no less tightly can be put below ancestors. -/
theorem BindsTightly.replace (hroot : root.BindsTightly callee) (h : root.Under n above)
    (hm : m.BindsTightly callee) (hle : n.precedence ≤ m.precedence) :
    (Place.replace ⟨n, above⟩ m).BindsTightly callee := by
  induction h generalizing m with
  | root => exact hm
  | @child n c above i hn hc ih =>
    have hparent := hroot.of_under hn
    have hrequired := Nat.le_trans ((bindsTightly_iff.1 hparent).1 i c hc) hle
    obtain ⟨hwith, hprecedence⟩ := hparent.withChild hc hm hrequired
    exact ih hwith (Nat.le_of_eq hprecedence.symm)

/-- **Where a node stood, one can stand that binds no less tightly**: the tree
still has every node bind as tightly as its position requires. -/
theorem bindsTightly_replace (hroot : root.BindsTightly callee) (h : place ∈ root.places)
    (hm : m.BindsTightly callee) (hle : place.node.precedence ≤ m.precedence) :
    (place.replace m).BindsTightly callee :=
  hroot.replace (under_of_mem_places h) hm hle

end Node

end Codemod
