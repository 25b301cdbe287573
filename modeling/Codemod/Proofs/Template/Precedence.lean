import Codemod.Proofs.Template.Instantiation
import Codemod.Proofs.Tree.Operands
import Codemod.Types.Hierarchy
/-!
# Rendered templates bind as required

Rendering sets parentheses by comparing precedences in two places, for what is
bound and for what the template says itself. In the tree that a template stands
for every part binds as tightly as its position requires
(`Template.Expr.bindsTightly_instantiate`), and the tree itself as tightly as its
place. It can therefore be put there (`Template.text_bindsTightly_of_render`).
-/

namespace Codemod

open Rendering

theorem Precedence.unary_le : unary ≤ primary := by decide

/-- Operators bind less tightly than names do. -/
theorem BinaryOp.precedence_lt (op : BinaryOp) : op.precedence < Precedence.primary := by
  cases op <;> decide

/-! ## Grouping -/

namespace Node

variable {callee required : Nat} {n : Node}

/-- A node binds no more tightly than a name. -/
theorem precedence_le (n : Node) : n.precedence ≤ Precedence.primary := by
  cases n
  case binary _ op _ _ => exact Nat.le_of_lt op.precedence_lt
  case unary | cast => exact Precedence.unary_le
  all_goals exact Nat.le_refl _

/-- What is grouped binds as tightly as required. -/
theorem le_precedence_grouped (h : required ≤ Precedence.primary) :
    required ≤ (n.grouped required).precedence := by
  unfold grouped
  split
  · exact h
  · omega

theorem BindsTightly.grouped (h : n.BindsTightly callee) (required : Nat) :
    (n.grouped required).BindsTightly callee := by
  unfold Node.grouped
  split
  · exact bindsTightly_of_child rfl h (Nat.zero_le _)
  · exact h

end Node

/-! ## Templates -/

namespace Template.Expr

open Node

variable {b : Bindings} {callee : Nat}

/-- The tree itself binds as tightly as its place requires. -/
theorem le_precedence_instantiate {required : Nat} (h : required ≤ Precedence.primary) (e : Expr) :
    required ≤ (e.instantiate b required).precedence := by
  cases e <;> rw [instantiate] <;> exact le_precedence_grouped h

/-- So does a node that requires of its one operand what this is instantiated
for. -/
theorem bindsTightly_of_operand {n : Node} {e : Expr} {required : Nat}
    (hchildren : n.children = [e.instantiate b required])
    (hrequired : n.required callee 0 = required) (hle : required ≤ Precedence.primary)
    (hoperand : (e.instantiate b required).BindsTightly callee) : n.BindsTightly callee :=
  bindsTightly_of_child hchildren hoperand (hrequired ▸ le_precedence_instantiate hle e)

mutual

/-- **Every part of the tree that a template stands for binds as tightly as its
position requires**, if that is so in what is bound. -/
theorem bindsTightly_instantiate (hcallee : callee ≤ Precedence.primary)
    (hbound : ∀ name bound, b.get? name = some bound → bound.node.BindsTightly callee)
    (e : Expr) (required : Nat) : (e.instantiate b required).BindsTightly callee := by
  match e with
  | .placeholder name =>
    rw [instantiate, boundNode]
    refine BindsTightly.grouped ?_ required
    split
    · rename_i bound hname
      exact hbound name bound hname
    · exact bindsTightly_of_children_eq_nil rfl
  | .localRef name => exact (bindsTightly_of_children_eq_nil rfl).grouped required
  | .literal value => exact (bindsTightly_of_children_eq_nil rfl).grouped required
  | .classRef name => exact (bindsTightly_of_children_eq_nil rfl).grouped required
  | .field receiver name =>
    have hreceiver := bindsTightly_instantiate hcallee hbound receiver Precedence.primary
    rw [instantiate]
    refine BindsTightly.grouped ?_ required
    exact bindsTightly_of_operand rfl rfl (Nat.le_refl _) hreceiver
  | .call receiver method args =>
    have hreceiver := bindsTightly_instantiate hcallee hbound receiver Precedence.primary
    have hfunction : (Fresh.select (receiver.instantiate b Precedence.primary)
        method.name).BindsTightly callee :=
      bindsTightly_of_operand rfl rfl (Nat.le_refl _) hreceiver
    have hargs := bindsTightly_of_mem_instantiateAll hcallee hbound args
    rw [instantiate]
    refine BindsTightly.grouped (bindsTightly_iff.2 ⟨fun i c hc => ?_, ?_⟩) required
    · cases i with
      | zero => exact Option.some.inj hc ▸ hcallee
      | succ i => exact Nat.zero_le _
    · exact List.forall_mem_cons.2 ⟨hfunction, hargs⟩
  | .methodRef receiver method =>
    have hreceiver := bindsTightly_instantiate hcallee hbound receiver Precedence.primary
    rw [instantiate]
    refine BindsTightly.grouped ?_ required
    exact bindsTightly_of_operand rfl rfl (Nat.le_refl _) hreceiver
  | .unary op operand =>
    have hoperand := bindsTightly_instantiate hcallee hbound operand Precedence.unary
    rw [instantiate]
    refine BindsTightly.grouped ?_ required
    exact bindsTightly_of_operand rfl rfl Precedence.unary_le hoperand
  | .binary op lhs rhs =>
    have hlhs := bindsTightly_instantiate hcallee hbound lhs op.precedence
    have hrhs := bindsTightly_instantiate hcallee hbound rhs (op.precedence + 1)
    have hlt := op.precedence_lt
    have hle := le_precedence_instantiate (b := b) (Nat.le_of_lt hlt) lhs
    have hle' := le_precedence_instantiate (b := b) hlt rhs
    rw [instantiate]
    exact BindsTightly.grouped (bindsTightly_binary hlhs hrhs hle hle') required
  | .cast target expr =>
    have hexpr := bindsTightly_instantiate hcallee hbound expr Precedence.unary
    rw [instantiate]
    refine BindsTightly.grouped ?_ required
    exact bindsTightly_of_operand rfl rfl Precedence.unary_le hexpr

theorem bindsTightly_of_mem_instantiateAll (hcallee : callee ≤ Precedence.primary)
    (hbound : ∀ name bound, b.get? name = some bound → bound.node.BindsTightly callee)
    (es : List Expr) : ∀ n ∈ instantiateAll b es, n.BindsTightly callee := by
  match es with
  | [] => nofun
  | e :: rest =>
    exact List.forall_mem_cons.2 ⟨bindsTightly_instantiate hcallee hbound e 0,
      bindsTightly_of_mem_instantiateAll hcallee hbound rest⟩

end

end Template.Expr

/-! ## Rendering -/

/-- What has no text in the source is printed. -/
theorem Rendering.sourceOf_eq_print {source : String} {n : Node}
    (h : n.span.isEmpty = true ∨ n.span.slice? source = none) : sourceOf source n = n.print := by
  unfold sourceOf
  split
  · rename_i text hslice
    rcases h with hempty | hnone
    · rw [if_pos hempty]
    · exact absurd (hnone.symm.trans hslice) nofun
  · rfl

namespace Template

variable {t : Template} {oracle : TypeOracle} {source rule : String} {b : Bindings} {span : Span}
  {precedence : Nat} {r : Replacement} {e : Expr}

/-- **What is rendered can take the place of a node of the precedence it was
rendered for.** The text of an expression template is the print of the tree that
the template stands for, when nothing bound has a text of its own; this binds as
tightly as its place requires, if anything can. If every part of what is bound
binds as tightly as its position requires, so does every part of that tree, and
every part of a tree in which it takes the place of such a node. -/
theorem text_bindsTightly_of_render (hbody : t.body = .expr e)
    (hbound : ∀ name bound, b.get? name = some bound →
      bound.node.span.isEmpty = true ∨ bound.node.span.slice? source = none)
    (h : t.render oracle source rule b span precedence = .ok r) :
    r.text = (e.instantiate b precedence).print ∧
      (precedence ≤ Precedence.primary → precedence ≤ (e.instantiate b precedence).precedence) ∧
      ∀ callee ≤ Precedence.primary,
        (∀ name bound, b.get? name = some bound → bound.node.BindsTightly callee) →
        (e.instantiate b precedence).BindsTightly callee ∧
        ∀ tree : Node, tree.BindsTightly callee → ∀ place ∈ tree.places,
          place.node.precedence = precedence →
          (place.replace (e.instantiate b precedence)).BindsTightly callee := by
  have hreads : (RenderContext.mk oracle source rule t.name b).ReadsBound 0 :=
    fun name bound hname => sourceOf_eq_print (hbound name bound hname)
  unfold render at h
  rw [hbody] at h
  refine ⟨RenderContext.text_instantiate hreads h, fun hle => Expr.le_precedence_instantiate hle e,
    fun callee hcallee hparts => ?_⟩
  have htight := Expr.bindsTightly_instantiate hcallee hparts e precedence
  refine ⟨htight, fun tree htree place hplace hprecedence => ?_⟩
  subst hprecedence
  exact Node.bindsTightly_replace htree hplace htight
    (Expr.le_precedence_instantiate place.node.precedence_le e)

/-! ## Half of a difference -/

/-- The expression `a / 2` for a number. -/
def halved : Template where
  name := "halved"
  typeParams := []
  params := [⟨"a", .plain "int", none⟩]
  returnType := .plain "int"
  body := .expr (.binary .div (.placeholder "a") (.literal (.int 2)))

/-- The difference `x - 1`. -/
def difference : Node := Fresh.binary .sub (Fresh.ident "x") (Fresh.literal (.int 1))

/-- The quotient `u / v`. -/
def quotient : Node := Fresh.binary .div (Fresh.ident "u") (Fresh.ident "v")

/-- The product `u / v * y`. -/
def scaled : Node := Fresh.binary .mul quotient (Fresh.ident "y")

theorem bindsTightly_difference : difference.BindsTightly Precedence.primary :=
  Node.bindsTightly_binary (Node.bindsTightly_of_children_eq_nil rfl)
    (Node.bindsTightly_of_children_eq_nil rfl) (by decide) (by decide)

theorem bindsTightly_scaled : scaled.BindsTightly Precedence.primary :=
  Node.bindsTightly_binary
    (Node.bindsTightly_binary (Node.bindsTightly_of_children_eq_nil rfl)
      (Node.bindsTightly_of_children_eq_nil rfl) (by decide) (by decide))
    (Node.bindsTightly_of_children_eq_nil rfl) (by decide) (by decide)

/-- The difference is put in parentheses and its half is not, where a quotient
is multiplied. -/
theorem bindsTightly_render_halved :
    ∃ b r tree, halved.render Hierarchy.javaLang.oracle "" "com.example.Halved" b ⟨0, 0⟩
        quotient.precedence = .ok r ∧
      r.text = "(x - 1) / 2" ∧ r.text = Node.print tree ∧
      (Place.replace ⟨quotient, [⟨scaled, 0⟩]⟩ tree).print = "(x - 1) / 2 * y" ∧
      (Place.replace ⟨quotient, [⟨scaled, 0⟩]⟩ tree).BindsTightly Precedence.primary := by
  have hbound : ∀ name bound,
      (Bindings.empty.bindExpr "a" ⟨difference, .plain "int"⟩).get? name = some bound →
        bound.node = difference := by
    intro name bound hname
    rw [Bindings.bindExpr, Bindings.get?, Dict.get?_insert] at hname
    split at hname
    · exact (Option.some.inj hname) ▸ rfl
    · exact absurd hname nofun
  have hplace : (⟨quotient, [⟨scaled, 0⟩]⟩ : Place) ∈ scaled.places := by
    have hunder : (⟨quotient, [⟨scaled, 0⟩]⟩ : Place) ∈ quotient.placesUnder [⟨scaled, 0⟩] := by
      rw [Node.placesUnder_eq]
      exact List.mem_cons_self
    rw [Node.places, Node.placesUnder_eq]
    exact List.mem_cons_of_mem _ (List.mem_flatMap.2 ⟨(quotient, 0), List.mem_cons_self, hunder⟩)
  have hrender : halved.render Hierarchy.javaLang.oracle "" "com.example.Halved"
      (Bindings.empty.bindExpr "a" ⟨difference, .plain "int"⟩) ⟨0, 0⟩ quotient.precedence =
        .ok ⟨"(x - 1) / 2", .empty⟩ := by
    rfl
  obtain ⟨htext, -, htight⟩ := text_bindsTightly_of_render rfl
    (fun name bound hname => .inl (hbound name bound hname ▸ rfl)) hrender
  obtain ⟨-, hreplace⟩ := htight Precedence.primary (Nat.le_refl _) fun name bound hname =>
    hbound name bound hname ▸ bindsTightly_difference
  exact ⟨_, _, _, hrender, rfl, htext, by decide +kernel,
    hreplace scaled bindsTightly_scaled _ hplace rfl⟩

end Template

end Codemod
