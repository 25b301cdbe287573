import Codemod.Proofs.Tree.Shape
import Codemod.Proofs.Tree.Standing
import Codemod.Template.Matching
import Codemod.Template.Rendering
/-!
# Code as templates are rendered

Rendering has one way to write what a template stands for: classes by their
simple names, methods and locals by their own, and grouping parentheses around
what binds less tightly than its place requires. Code that is written in this
way is canonical (`Node.IsCanonical`). Two canonical expressions of one shape
have the same print, whatever their places (`Node.text_eq_of_sameShape`).
-/

namespace Codemod.Node

open Rendering

variable {a b c n : Node} {depth required : Nat}

/-! ## Grouping -/

/-- The expression stands in parentheses where it binds less tightly than its
place requires, and in no others. -/
def IsGrouped (required : Nat) (n : Node) : Prop :=
  n.parenCount = if n.skipParens.precedence < required then 1 else 0

theorem skipParens_of_parenCount (h : n.parenCount = 0) : n.skipParens = n := by
  cases n
  case paren => exact absurd h (Nat.succ_ne_zero _)
  all_goals rfl

/-- What stands in no parentheses is grouped as it binds itself. -/
theorem isGrouped_precedence (h : n.isParen = false) : n.IsGrouped n.precedence := by
  rw [IsGrouped, skipParens_eq_self h, if_neg (Nat.lt_irrefl _)]
  cases n
  case paren => exact absurd h nofun
  all_goals rfl

/-- **The print of a grouped expression** is the print of what it groups, in
parentheses where that is required. -/
theorem IsGrouped.text_eq (h : n.IsGrouped required) :
    n.text depth = parenthesize n.skipParens.precedence required (n.skipParens.text depth) := by
  unfold IsGrouped at h
  unfold parenthesize
  split
  · rename_i hlow
    rw [if_pos hlow] at h
    cases n
    case paren _ expr =>
      have hexpr : expr.skipParens = expr := skipParens_of_parenCount (Nat.succ.inj h)
      rw [skipParens, hexpr]
      rfl
    all_goals exact absurd h (Nat.zero_ne_one)
  · rename_i hhigh
    rw [if_neg hhigh] at h
    rw [skipParens_of_parenCount h]

/-- Expressions that are grouped for one place have the same print when what
they group has, and binds as tightly. -/
theorem IsGrouped.text_congr (ha : a.IsGrouped required) (hb : b.IsGrouped required)
    (h : a.skipParens.text depth = b.skipParens.text depth ∧
      a.skipParens.precedence = b.skipParens.precedence) : a.text depth = b.text depth := by
  rw [ha.text_eq, hb.text_eq, h.1, h.2]

/-! ## Canonical code -/

/-- The node is written the way rendering writes it: a class by its simple name,
a local, a called method and a method reference by their own names, a member on
what it is selected from, no static import, each operand grouped as its place
requires and everything else in no parentheses. No constant is a floating-point
number, and no type that is written has variables. -/
def IsConventional : Node → Prop
  | .ident i name =>
    match i.symbol with
    | some (.ofClass cls) => name = Name.simple cls
    | some (.ofLocal symbol) => name = symbol
    | some (.ofField _ _ true) => False
    | _ => True
  | .literal _ value => ∀ x, value ≠ .float x
  | .select i target _ _ =>
    (∀ cls, i.symbol ≠ some (.ofClass cls)) ∧ target.IsGrouped Precedence.primary
  | .call i callee args =>
    (∃ calleeInfo target name nameSpan, callee = .select calleeInfo target name nameSpan ∧
      ∀ method, (Node.call i callee args).methodSymbol? = some method → name = method.name) ∧
      ∀ arg ∈ args, arg.IsGrouped 0
  | .methodRef i target name =>
    (∀ method, (Node.methodRef i target name).methodSymbol? = some method → name = method.name) ∧
      target.IsGrouped Precedence.primary
  | .unary _ _ operand => operand.IsGrouped Precedence.unary
  | .binary _ op lhs rhs => lhs.IsGrouped op.precedence ∧ rhs.IsGrouped (op.precedence + 1)
  | .cast _ target expr => target.mentionsVar = false ∧ expr.IsGrouped Precedence.unary
  | .exprStmt _ expr => expr.IsGrouped 0
  | .ret _ expr => ∀ e ∈ expr, e.IsGrouped 0
  | .localVar _ _ declared init => declared.mentionsVar = false ∧ ∀ e ∈ init, e.IsGrouped 0
  | _ => True

/-- **The code is canonical**: it is all written the way rendering writes it. -/
def IsCanonical (n : Node) : Prop := ∀ m ∈ n.preorder, m.IsConventional

theorem isCanonical_iff :
    n.IsCanonical ↔ n.IsConventional ∧ ∀ c ∈ n.children, c.IsCanonical := by
  unfold IsCanonical
  rw [preorder_eq, List.forall_mem_cons, List.forall_mem_flatMap]

theorem IsCanonical.isConventional (h : n.IsCanonical) : n.IsConventional := (isCanonical_iff.1 h).1

theorem IsCanonical.child (h : n.IsCanonical) (hc : c ∈ n.children) : c.IsCanonical :=
  (isCanonical_iff.1 h).2 c hc

/-- What stands in canonical code is canonical. -/
theorem IsCanonical.of_stands {root : Node} (hroot : root.IsCanonical)
    (h : root.Stands depth n) : n.IsCanonical := by
  induction h with
  | root => exact hroot
  | child _ hc ih => exact ih.child hc

theorem IsCanonical.skipParens (h : n.IsCanonical) : n.skipParens.IsCanonical := by
  induction n using inductionOnChildren with
  | h n ih =>
    cases n
    case paren _ expr => exact ih expr List.mem_cons_self (h.child List.mem_cons_self)
    all_goals exact h

/-- A reference to a class is an identifier with its simple name. -/
theorem IsConventional.eq_ident_of_refersToClass {name : String} (h : n.IsConventional)
    (hcls : Template.refersToClass name n = true) : ∃ info, n = .ident info (Name.simple name) := by
  cases n
  case ident info spelled =>
    rw [Template.refersToClass, beq_iff_eq] at hcls
    rw [IsConventional, hcls] at h
    exact ⟨info, by rw [h]⟩
  case select =>
    rw [Template.refersToClass, beq_iff_eq] at hcls
    exact absurd hcls (h.1 name)
  all_goals exact absurd hcls nofun

/-! ## Expressions of one shape -/

mutual

/-- **Canonical expressions of one shape have the same print**, up to the
grouping of the whole, and bind as tightly. -/
theorem text_eq_of_sameShape {a b : Node} {depth : Nat} (h : a.sameShape b = true)
    (ha : a.IsCanonical) (hb : b.IsCanonical) :
    a.skipParens.text depth = b.skipParens.text depth ∧
      a.skipParens.precedence = b.skipParens.precedence := by
  cases a
  case paren _ expr => exact text_eq_of_sameShape (a := expr) h (ha.child List.mem_cons_self) hb
  -- The shape of the first decides the constructor of the second without its parentheses.
  all_goals
    simp only [sameShape] at h
    have hb := hb.skipParens
    have hself := ha.isConventional
  case ident =>
    split at h
    · rename_i heq
      rw [heq, beq_iff_eq.1 h]
      exact ⟨rfl, rfl⟩
    · exact absurd h (by simp)
  case literal =>
    split at h
    · rename_i heq
      rw [heq]
      rcases Literal.beq_iff.1 h with ⟨x, -, rfl, -⟩ | ⟨-, rfl⟩
      · exact absurd rfl (hself x)
      · exact ⟨rfl, rfl⟩
    · exact absurd h (by simp)
  case select _ s _ _ =>
    split at h
    · rename_i t _ _ heq
      rw [heq] at hb ⊢
      rw [Bool.and_eq_true, beq_iff_eq] at h
      have htext : s.text depth = t.text depth := hself.2.text_congr hb.isConventional.2
        (text_eq_of_sameShape h.2 (ha.child List.mem_cons_self) (hb.child List.mem_cons_self))
      exact ⟨by simp only [skipParens, text, htext, h.1], rfl⟩
    · exact absurd h (by simp)
  case methodRef _ s _ =>
    split at h
    · rename_i t _ heq
      rw [heq] at hb ⊢
      rw [Bool.and_eq_true, beq_iff_eq] at h
      have htext : s.text depth = t.text depth := hself.2.text_congr hb.isConventional.2
        (text_eq_of_sameShape h.2 (ha.child List.mem_cons_self) (hb.child List.mem_cons_self))
      exact ⟨by simp only [skipParens, text, htext, h.1], rfl⟩
    · exact absurd h (by simp)
  case call _ c as =>
    split at h
    · rename_i d bs heq
      rw [heq] at hb ⊢
      rw [Bool.and_eq_true] at h
      obtain ⟨⟨_, _, _, _, rfl, -⟩, hargs⟩ := hself
      obtain ⟨⟨_, _, _, _, rfl, -⟩, hargs'⟩ := hb.isConventional
      -- Neither callee stands in parentheses, being a selection.
      have hcallee : Node.text depth _ = Node.text depth _ := (text_eq_of_sameShape h.1
        (ha.child List.mem_cons_self) (hb.child List.mem_cons_self)).1
      have htexts : texts depth as = texts depth bs := texts_eq_of_sameShapes h.2
        (fun a h => ⟨ha.child (List.mem_cons_of_mem _ h), hargs a h⟩)
        (fun b h => ⟨hb.child (List.mem_cons_of_mem _ h), hargs' b h⟩)
      simp only [skipParens, text] at hcallee
      exact ⟨by simp only [skipParens, text, hcallee, htexts], rfl⟩
    · exact absurd h (by simp)
  case unary _ _ s =>
    split at h
    · rename_i t heq
      rw [heq] at hb ⊢
      rw [Bool.and_eq_true, beq_iff_eq] at h
      have htext : s.text depth = t.text depth := IsGrouped.text_congr hself hb.isConventional
        (text_eq_of_sameShape h.2 (ha.child List.mem_cons_self) (hb.child List.mem_cons_self))
      exact ⟨by simp only [skipParens, text, htext, h.1], rfl⟩
    · exact absurd h (by simp)
  case binary _ op s s' =>
    split at h
    · rename_i op' t t' heq
      rw [heq] at hb ⊢
      simp only [Bool.and_eq_true, beq_iff_eq] at h
      obtain ⟨⟨rfl, hlhs⟩, hrhs⟩ := h
      have hleft : s.text depth = t.text depth := hself.1.text_congr hb.isConventional.1
        (text_eq_of_sameShape hlhs (ha.child List.mem_cons_self) (hb.child List.mem_cons_self))
      have hsecond : ∀ {i : NodeInfo} {l r : Node}, r ∈ (binary i op l r).children :=
        List.mem_cons_of_mem _ List.mem_cons_self
      have hright : s'.text depth = t'.text depth := hself.2.text_congr hb.isConventional.2
        (text_eq_of_sameShape hrhs (ha.child hsecond) (hb.child hsecond))
      exact ⟨by simp only [skipParens, text, hleft, hright], rfl⟩
    · exact absurd h (by simp)
  case cast _ ty s =>
    split at h
    · rename_i t heq
      rw [heq] at hb ⊢
      rw [Bool.and_eq_true, beq_iff_eq] at h
      have htext : s.text depth = t.text depth := hself.2.text_congr hb.isConventional.2
        (text_eq_of_sameShape h.2 (ha.child List.mem_cons_self) (hb.child List.mem_cons_self))
      exact ⟨by simp only [skipParens, text, htext, h.1], rfl⟩
    · exact absurd h (by simp)
  all_goals exact absurd h (by simp)

theorem texts_eq_of_sameShapes {as bs : List Node} {depth : Nat} (h : sameShapes as bs = true)
    (ha : ∀ a ∈ as, a.IsCanonical ∧ a.IsGrouped 0) (hb : ∀ b ∈ bs, b.IsCanonical ∧ b.IsGrouped 0) :
    texts depth as = texts depth bs := by
  match as, bs with
  | [], [] => rfl
  | a :: as, b :: bs =>
    rw [sameShapes, Bool.and_eq_true] at h
    obtain ⟨ha, hrest⟩ := List.forall_mem_cons.1 ha
    obtain ⟨hb, hrest'⟩ := List.forall_mem_cons.1 hb
    rw [texts, texts, ha.2.text_congr hb.2 (text_eq_of_sameShape h.1 ha.1 hb.1),
      texts_eq_of_sameShapes h.2 hrest hrest']
  | [], _ :: _ => exact absurd h (by simp [sameShapes])
  | _ :: _, [] => exact absurd h (by simp [sameShapes])

end

end Codemod.Node
