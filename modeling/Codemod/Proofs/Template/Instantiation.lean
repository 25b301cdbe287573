import Codemod.Proofs.Outcome
import Codemod.Template.Rendering
import Codemod.Tree.Fresh
/-!
# Instantiated templates

A template can be made into a tree before anything is printed: placeholders
become the nodes they are bound to, and grouping parentheses are set where a
node binds less tightly than its place requires (`Template.Expr.instantiate`).
Rendering gives the print of that tree (`RenderContext.text_instantiate`), so
long as the source texts of bound nodes are their prints.
-/

namespace Codemod

open Outcome Rendering

/-- The node, in grouping parentheses where it binds less tightly than
required. -/
def Node.grouped (required : Nat) (n : Node) : Node :=
  if n.precedence < required then Fresh.paren n else n

theorem Node.text_grouped (depth required : Nat) (n : Node) :
    (n.grouped required).text depth = parenthesize n.precedence required (n.text depth) := by
  unfold grouped parenthesize
  split <;> rfl

namespace Template.Expr

/-- The node that a placeholder stands for; its name when it stands for
nothing. -/
def boundNode (b : Bindings) (name : String) : Node :=
  match b.get? name with
  | some bound => bound.node
  | none => Fresh.ident name

mutual

/-- The tree that an expression stands for at a place that requires a
precedence. Classes go by their simple names, locals by what they stand for, and
types have their variables replaced. -/
def instantiate (b : Bindings) (required : Nat) (e : Expr) : Node :=
  match e with
  | .placeholder name => (boundNode b name).grouped required
  | .localRef name => (Fresh.ident ((b.locals.get? name).getD name)).grouped required
  | .literal value => (Fresh.literal value).grouped required
  | .classRef name => (Fresh.classRef name).grouped required
  | .field receiver name =>
    (Fresh.select (instantiate b Precedence.primary receiver) name).grouped required
  | .call receiver method args =>
    let callee := Fresh.select (instantiate b Precedence.primary receiver) method.name
    (Node.call .blank callee (instantiateAll b args)).grouped required
  | .methodRef receiver method =>
    let target := instantiate b Precedence.primary receiver
    (Node.methodRef .blank target method.name).grouped required
  | .unary op operand =>
    (Node.unary .blank op (instantiate b Precedence.unary operand)).grouped required
  | .binary op lhs rhs =>
    (Node.binary .blank op (instantiate b op.precedence lhs)
      (instantiate b (op.precedence + 1) rhs)).grouped required
  | .cast target expr =>
    (Node.cast .blank (target.substitute b.types)
      (instantiate b Precedence.unary expr)).grouped required
termination_by structural e

/-- Arguments, where nothing is required. -/
def instantiateAll (b : Bindings) (es : List Expr) : List Node :=
  match es with
  | [] => []
  | e :: rest => instantiate b 0 e :: instantiateAll b rest
termination_by structural es

end

end Template.Expr

namespace RenderContext

open Template.Expr

variable {c : RenderContext} {depth : Nat}

/-- The source texts of bound nodes are their prints at a nesting depth. -/
def ReadsBound (c : RenderContext) (depth : Nat) : Prop :=
  ∀ name bound, c.bindings.get? name = some bound →
    sourceOf c.source bound.node = bound.node.text depth

mutual

/-- **The text of an expression is the print of the tree that it stands for.** -/
theorem text_instantiate (hbound : c.ReadsBound depth) {e : Template.Expr} {required : Nat}
    {r : Replacement} (h : c.renderExpr e required = .ok r) :
    r.text = (e.instantiate c.bindings required).text depth := by
  match e with
  | .placeholder name =>
    rw [renderExpr] at h
    rw [instantiate, Node.text_grouped, boundNode]
    split at h
    · exact absurd h nofun
    · rename_i bound hname
      obtain rfl := Except.ok.inj h
      rw [hname, hbound name bound hname]
  | .localRef name =>
    obtain rfl := Except.ok.inj h
    rw [instantiate, Node.text_grouped]
    rfl
  | .literal value =>
    obtain rfl := Except.ok.inj h
    rw [instantiate, Node.text_grouped]
    rfl
  | .classRef name =>
    obtain ⟨imports, -, h⟩ := bind_eq_ok_iff.1 h
    obtain rfl := pure_eq_ok_iff.1 h
    rw [instantiate, Node.text_grouped]
    rfl
  | .field receiver name =>
    obtain ⟨target, hreceiver, h⟩ := bind_eq_ok_iff.1 h
    obtain rfl := pure_eq_ok_iff.1 h
    rw [instantiate, Node.text_grouped, text_instantiate hbound hreceiver]
    rfl
  | .call receiver method args =>
    obtain ⟨target, hreceiver, h⟩ := bind_eq_ok_iff.1 h
    obtain ⟨texts, hargs, h⟩ := bind_eq_ok_iff.1 h
    obtain rfl := pure_eq_ok_iff.1 h
    rw [instantiate, Node.text_grouped, text_instantiate hbound hreceiver,
      texts_instantiateAll hbound hargs]
    rfl
  | .methodRef receiver method =>
    obtain ⟨target, hreceiver, h⟩ := bind_eq_ok_iff.1 h
    obtain rfl := pure_eq_ok_iff.1 h
    rw [instantiate, Node.text_grouped, text_instantiate hbound hreceiver]
    rfl
  | .unary op operand =>
    obtain ⟨inner, hoperand, h⟩ := bind_eq_ok_iff.1 h
    obtain rfl := pure_eq_ok_iff.1 h
    rw [instantiate, Node.text_grouped, text_instantiate hbound hoperand]
    rfl
  | .binary op lhs rhs =>
    obtain ⟨left, hlhs, h⟩ := bind_eq_ok_iff.1 h
    obtain ⟨right, hrhs, h⟩ := bind_eq_ok_iff.1 h
    obtain rfl := pure_eq_ok_iff.1 h
    rw [instantiate, Node.text_grouped, text_instantiate hbound hlhs,
      text_instantiate hbound hrhs]
    rfl
  | .cast target expr =>
    obtain ⟨ty, hty, h⟩ := bind_eq_ok_iff.1 h
    obtain ⟨inner, hexpr, h⟩ := bind_eq_ok_iff.1 h
    obtain rfl := pure_eq_ok_iff.1 h
    obtain ⟨imports, -, hty⟩ := bind_eq_ok_iff.1 hty
    obtain rfl := pure_eq_ok_iff.1 hty
    rw [instantiate, Node.text_grouped, text_instantiate hbound hexpr]
    rfl

theorem texts_instantiateAll (hbound : c.ReadsBound depth) {es : List Template.Expr}
    {rs : List String × NameSet} (h : c.renderArgs es = .ok rs) :
    rs.1 = Node.texts depth (instantiateAll c.bindings es) := by
  match es with
  | [] =>
    obtain rfl := Except.ok.inj h
    rfl
  | e :: rest =>
    obtain ⟨first, he, h⟩ := bind_eq_ok_iff.1 h
    obtain ⟨texts, hrest, h⟩ := bind_eq_ok_iff.1 h
    obtain rfl := pure_eq_ok_iff.1 h
    rw [instantiateAll, Node.texts, text_instantiate hbound he,
      texts_instantiateAll hbound hrest]

end

end RenderContext

end Codemod
