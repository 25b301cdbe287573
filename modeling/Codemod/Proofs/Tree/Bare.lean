import Codemod.Proofs.Tree.Operands
import Codemod.Proofs.Tree.Shape
import Codemod.Tree.Fresh
import Mathlib.Data.List.Forall2
import Mathlib.Logic.Relation
/-!
# Bare trees

Two trees have the same shape exactly when both consist of expressions alone and
their bare trees are equal: what remains without grouping parentheses and
without what nodes carry (`Node.sameShape_iff_bare_eq`). So a tree has its own
shape exactly when it consists of expressions, and parentheses may be put
anywhere into either tree, or taken out, without a difference. Floating-point
constants are left out, since they compare as numbers.
-/

namespace Codemod.Node

variable {a b c m n root : Node}

/-! ## What is spelled -/

mutual

/-- The node without the grouping parentheses in it, and without the spans, types
and symbols that its nodes carry. -/
def bare : Node → Node
  | .ident _ name => .ident .blank name
  | .literal _ value => .literal .blank value
  | .select _ target name _ => .select .blank (bare target) name ⟨0, 0⟩
  | .call _ callee args => .call .blank (bare callee) (allBare args)
  | .methodRef _ target name => .methodRef .blank (bare target) name
  | .unary _ op operand => .unary .blank op (bare operand)
  | .binary _ op lhs rhs => .binary .blank op (bare lhs) (bare rhs)
  | .cast _ target expr => .cast .blank target (bare expr)
  | .paren _ expr => bare expr
  | .block _ stmts => .block .blank (allBare stmts)
  | .exprStmt _ expr => .exprStmt .blank (bare expr)
  | .ret _ none => .ret .blank none
  | .ret _ (some expr) => .ret .blank (some (bare expr))
  | .localVar _ name declared none => .localVar .blank name declared none
  | .localVar _ name declared (some init) => .localVar .blank name declared (some (bare init))
  | .ifElse _ cond thenBranch none => .ifElse .blank (bare cond) (bare thenBranch) none
  | .ifElse _ cond thenBranch (some elseBranch) =>
    .ifElse .blank (bare cond) (bare thenBranch) (some (bare elseBranch))
  | .whileLoop _ cond body => .whileLoop .blank (bare cond) (bare body)
  | .doWhile _ body cond => .doWhile .blank (bare body) (bare cond)
  | .synchronized _ lock body => .synchronized .blank (bare lock) (bare body)
  | .methodDecl _ head none => .methodDecl .blank head none
  | .methodDecl _ head (some body) => .methodDecl .blank head (some (bare body))
  | .classDecl _ head members => .classDecl .blank head (allBare members)
  | .unit _ items => .unit .blank (allBare items)
termination_by structural n => n

/-- The bare forms of several nodes. -/
def allBare : List Node → List Node
  | [] => []
  | n :: rest => bare n :: allBare rest
termination_by structural ns => ns

end

theorem bare_skipParens (n : Node) : n.skipParens.bare = n.bare := by
  cases n
  case paren _ expr => exact bare_skipParens expr
  all_goals rfl

/-! ## Kinds of nodes -/

/-- The tree consists of expressions alone. -/
def ConsistsOfExpressions (n : Node) : Prop := ∀ m ∈ n.preorder, m.isExpression = true

theorem consistsOfExpressions_iff :
    n.ConsistsOfExpressions ↔
      n.isExpression = true ∧ ∀ c ∈ n.children, c.ConsistsOfExpressions := by
  unfold ConsistsOfExpressions
  rw [preorder_eq, List.forall_mem_cons, List.forall_mem_flatMap]

/-- No constant in the tree is a floating-point number. -/
def HasNoFloats (n : Node) : Prop :=
  ∀ m ∈ n.preorder, ∀ (i : NodeInfo) (x : Double), m ≠ .literal i (.float x)

theorem hasNoFloats_iff :
    n.HasNoFloats ↔
      (∀ (i : NodeInfo) (x : Double), n ≠ .literal i (.float x)) ∧
        ∀ c ∈ n.children, c.HasNoFloats := by
  unfold HasNoFloats
  rw [preorder_eq, List.forall_mem_cons, List.forall_mem_flatMap]

/-! ## Shapes of bare trees -/

theorem sameShapes_allBare {ns : List Node} (h : ∀ n ∈ ns, n.sameShape n.bare = true) :
    sameShapes ns (allBare ns) = true := by
  induction ns with
  | nil => rfl
  | cons n ns ih =>
    obtain ⟨hn, hns⟩ := List.forall_mem_cons.1 h
    rw [allBare, sameShapes, hn, ih hns, Bool.and_self]

/-- **A tree of expressions has the shape of its bare tree.** -/
theorem sameShape_bare (hn : n.ConsistsOfExpressions) (hfloats : n.HasNoFloats) :
    n.sameShape n.bare = true := by
  induction n using inductionOnChildren with
  | h n ih =>
    obtain ⟨hexpr, hchildren⟩ := consistsOfExpressions_iff.1 hn
    obtain ⟨hfloat, hbelow⟩ := hasNoFloats_iff.1 hfloats
    have hparts : ∀ c ∈ n.children, c.sameShape c.bare = true := fun c hc =>
      ih c hc (hchildren c hc) (hbelow c hc)
    cases n
    case ident => simp [bare, sameShape, skipParens]
    case literal info value =>
      have hvalue : (value == value) = true :=
        Literal.beq_iff.2 (.inr ⟨fun x hx => hfloat info x (hx ▸ rfl), rfl⟩)
      simp [bare, sameShape, skipParens, hvalue]
    case call =>
      obtain ⟨hcallee, hargs⟩ := List.forall_mem_cons.1 hparts
      simp [bare, sameShape, skipParens, hcallee, sameShapes_allBare hargs]
    case binary =>
      obtain ⟨hlhs, hrhs⟩ := List.forall_mem_cons.1 hparts
      simp [bare, sameShape, skipParens, hlhs, List.forall_mem_singleton.1 hrhs]
    case paren _ expr => exact hparts expr List.mem_cons_self
    case select | methodRef | unary | cast =>
      simp [bare, sameShape, skipParens, List.forall_mem_singleton.1 hparts]
    all_goals exact absurd hexpr (by simp [isExpression])

theorem of_sameShapes {as bs : List Node} (h : sameShapes as bs = true)
    (heach : ∀ a ∈ as, ∀ b : Node, a.sameShape b = true →
      a.ConsistsOfExpressions ∧ a.bare = b.bare) :
    (∀ a ∈ as, a.ConsistsOfExpressions) ∧ allBare as = allBare bs := by
  induction as generalizing bs with
  | nil =>
    cases bs with
    | nil => exact ⟨List.forall_mem_nil _, rfl⟩
    | cons => exact absurd h nofun
  | cons a as ih =>
    cases bs with
    | nil => exact absurd h nofun
    | cons b bs =>
      rw [sameShapes, Bool.and_eq_true] at h
      obtain ⟨hfirst, hrest⟩ := List.forall_mem_cons.1 heach
      obtain ⟨ha, hab⟩ := hfirst b h.1
      obtain ⟨has, hbs⟩ := ih h.2 hrest
      exact ⟨List.forall_mem_cons.2 ⟨ha, has⟩, by rw [allBare, allBare, hab, hbs]⟩

/-- **What has a shape consists of expressions**, and shapes are the same only of
equal bare trees. -/
theorem of_sameShape (hfloats : a.HasNoFloats) (h : a.sameShape b = true) :
    a.ConsistsOfExpressions ∧ a.bare = b.bare := by
  induction a using inductionOnChildren generalizing b with
  | h a ih =>
    obtain ⟨hfloat, hbelow⟩ := hasNoFloats_iff.1 hfloats
    have hparts : ∀ c ∈ a.children, ∀ b : Node, c.sameShape b = true →
        c.ConsistsOfExpressions ∧ c.bare = b.bare := fun c hc b h => ih c hc (hbelow c hc) h
    rw [consistsOfExpressions_iff, ← bare_skipParens b]
    cases a
    case paren _ expr =>
      obtain ⟨hexpr, hbare⟩ := hparts expr List.mem_cons_self b h
      exact ⟨⟨rfl, List.forall_mem_singleton.2 hexpr⟩, by rw [bare, hbare, bare_skipParens]⟩
    all_goals simp only [sameShape] at h
    case ident =>
      split at h
      · rename_i heq
        rw [heq, bare, bare, beq_iff_eq.1 h]
        exact ⟨⟨rfl, List.forall_mem_nil _⟩, rfl⟩
      · exact absurd h (by simp)
    case literal =>
      split at h
      · rename_i heq
        rcases Literal.beq_iff.1 h with ⟨x, -, rfl, -⟩ | ⟨-, rfl⟩
        · exact absurd rfl (hfloat _ x)
        · rw [heq]
          exact ⟨⟨rfl, List.forall_mem_nil _⟩, rfl⟩
      · exact absurd h (by simp)
    case select target _ _ | methodRef target _ | unary target | cast target =>
      split at h
      · rename_i heq
        simp only [Bool.and_eq_true, beq_iff_eq] at h
        obtain ⟨hexpr, hbare⟩ := hparts _ List.mem_cons_self _ h.2
        rw [heq, bare, bare, h.1, hbare]
        exact ⟨⟨rfl, List.forall_mem_singleton.2 hexpr⟩, rfl⟩
      · exact absurd h (by simp)
    case call =>
      split at h
      · rename_i heq
        rw [Bool.and_eq_true] at h
        obtain ⟨hfirst, hrest⟩ := List.forall_mem_cons.1 hparts
        obtain ⟨hcallee, hbare⟩ := hfirst _ h.1
        obtain ⟨hargs, hbares⟩ := of_sameShapes h.2 hrest
        rw [heq, bare, bare, hbare, hbares]
        exact ⟨⟨rfl, List.forall_mem_cons.2 ⟨hcallee, hargs⟩⟩, rfl⟩
      · exact absurd h (by simp)
    case binary =>
      split at h
      · rename_i heq
        simp only [Bool.and_eq_true, beq_iff_eq] at h
        obtain ⟨hlhs, hbare⟩ := hparts _ List.mem_cons_self _ h.1.2
        obtain ⟨hrhs, hbare'⟩ := hparts _ (List.mem_cons_of_mem _ List.mem_cons_self) _ h.2
        rw [heq, bare, bare, h.1.1, hbare, hbare']
        exact ⟨⟨rfl, List.forall_mem_cons.2 ⟨hlhs, List.forall_mem_singleton.2 hrhs⟩⟩, rfl⟩
      · exact absurd h (by simp)
    all_goals exact absurd h (by simp)

/-! ## Parentheses anywhere -/

theorem isExpression_withChildren (n : Node) (cs : List Node) :
    (n.withChildren cs).isExpression = n.isExpression := by
  unfold withChildren
  split <;> rfl

theorem sameShape_eq_false (h : n.isExpression = false) (m : Node) : n.sameShape m = false := by
  cases n
  case ident | literal | select | call | methodRef | unary | binary | cast | paren =>
    exact absurd h (by simp [isExpression])
  all_goals rfl

theorem sameShapes_congr {cs ds : List Node}
    (h : List.Forall₂ (fun c d => ∀ m : Node, c.sameShape m = d.sameShape m) cs ds)
    (ms : List Node) : sameShapes cs ms = sameShapes ds ms := by
  induction h generalizing ms with
  | nil => rfl
  | cons hcd _ ih =>
    cases ms with
    | nil => rfl
    | cons m ms => rw [sameShapes, sameShapes, hcd, ih]

/-- **A node keeps its shape with other parts** that have the shapes of its own. -/
theorem sameShape_withChildren {cs : List Node}
    (h : List.Forall₂ (fun c d => ∀ m : Node, c.sameShape m = d.sameShape m) cs n.children)
    (m : Node) : (n.withChildren cs).sameShape m = n.sameShape m := by
  cases hexpr : n.isExpression with
  | false =>
    -- What is no expression has no shape, whatever its parts.
    rw [sameShape_eq_false hexpr,
      sameShape_eq_false ((isExpression_withChildren n cs).trans hexpr)]
  | true =>
    cases n
    case ident | literal => rfl
    case call =>
      cases h with
      | cons hcallee hargs =>
        simp only [withChildren, sameShape, hcallee, sameShapes_congr hargs]
    case binary =>
      cases h with
      | cons hlhs hrest =>
        cases hrest with
        | cons hrhs hnone =>
          cases hnone
          simp only [withChildren, sameShape, hlhs, hrhs]
    case paren =>
      cases h with
      | cons hexpr hnone =>
        cases hnone
        exact hexpr m
    case select | methodRef | unary | cast =>
      cases h with
      | cons hpart hnone =>
        cases hnone
        simp only [withChildren, sameShape, hpart]
    all_goals exact absurd hexpr (by simp [isExpression])

/-- **A tree keeps its shape with another node at a place** that has the shape of
the one there. -/
theorem sameShape_replace {above : List Ancestor} (h : root.Under n above)
    (hm : ∀ b : Node, m.sameShape b = n.sameShape b) (b : Node) :
    (Place.replace ⟨n, above⟩ m).sameShape b = root.sameShape b := by
  induction h generalizing m with
  | root => exact hm b
  | @child n c above i _ hc ih =>
    refine ih fun b => sameShape_withChildren ?_ b
    -- Only one part is another, and it has the shape of the one before.
    obtain ⟨hi, rfl⟩ := List.getElem?_eq_some_iff.1 hc
    refine List.forall₂_iff_get.2 ⟨List.length_set, fun j hj hj' d => ?_⟩
    rw [List.get_eq_getElem, List.get_eq_getElem, List.getElem_set]
    split
    · rename_i hsame
      subst hsame
      exact hm d
    · rfl

/-- The second tree is the first with one more pair of parentheses, around some
node of it. -/
def GroupsOneMore (a b : Node) : Prop :=
  ∃ place ∈ a.places, ∃ info, b = place.replace (.paren info place.node)

theorem GroupsOneMore.sameShape_eq (h : GroupsOneMore a b) (m : Node) :
    a.sameShape m = b.sameShape m := by
  obtain ⟨place, hplace, info, rfl⟩ := h
  have hparen : ∀ b : Node, (Node.paren info place.node).sameShape b = place.node.sameShape b :=
    fun _ => rfl
  exact (sameShape_replace (under_of_mem_places hplace) hparen m).symm

/-- Trees that differ in parentheses, put in and taken out one after another, have
the same shapes. -/
theorem sameShape_eq_of_eqvGen (h : Relation.EqvGen GroupsOneMore a b) (m : Node) :
    a.sameShape m = b.sameShape m := by
  induction h with
  | rel a b h => exact h.sameShape_eq m
  | refl a => rfl
  | symm a b _ ih => exact ih.symm
  | trans a b c _ _ ihab ihbc => exact ihab.trans ihbc

/-! ## Having the same shape -/

/-- **Trees have the same shape exactly when both consist of expressions and are
equal when bare.** So having the same shape is symmetric and transitive, a tree
has its own shape exactly when it consists of expressions, and parentheses make no
difference wherever they are put into the trees or taken out of them. -/
theorem sameShape_iff_bare_eq :
    (∀ a b : Node, a.HasNoFloats → b.HasNoFloats →
      (a.sameShape b = true ↔
        a.ConsistsOfExpressions ∧ b.ConsistsOfExpressions ∧ a.bare = b.bare)) ∧
      (∀ a b : Node, a.sameShape b = true → b.sameShape a = true) ∧
      (∀ a b c : Node, a.sameShape b = true → b.sameShape c = true → a.sameShape c = true) ∧
      (∀ a : Node, a.HasNoFloats → (a.sameShape a = true ↔ a.ConsistsOfExpressions)) ∧
      ∀ a a' b b' : Node, Relation.EqvGen GroupsOneMore a a' →
        Relation.EqvGen GroupsOneMore b b' → a.sameShape b = a'.sameShape b' := by
  have hiff : ∀ a b : Node, a.HasNoFloats → b.HasNoFloats →
      (a.sameShape b = true ↔
        a.ConsistsOfExpressions ∧ b.ConsistsOfExpressions ∧ a.bare = b.bare) := by
    intro a b ha hb
    constructor
    · intro h
      obtain ⟨haexpr, hbare⟩ := of_sameShape ha h
      exact ⟨haexpr, (of_sameShape hb (sameShape_symm h)).1, hbare⟩
    · rintro ⟨haexpr, hbexpr, hbare⟩
      have hside : a.bare.sameShape b = true := hbare ▸ sameShape_symm (sameShape_bare hbexpr hb)
      exact sameShape_trans (sameShape_bare haexpr ha) hside
  refine ⟨hiff, fun _ _ => sameShape_symm, fun _ _ _ => sameShape_trans, fun a ha => ?_,
    fun a a' b b' haa' hbb' => ?_⟩
  · rw [hiff a a ha ha]
    exact ⟨fun h => h.1, fun h => ⟨h, h, rfl⟩⟩
  · have hcomm (n m : Node) : n.sameShape m = m.sameShape n :=
      Bool.eq_iff_iff.2 ⟨sameShape_symm, sameShape_symm⟩
    rw [sameShape_eq_of_eqvGen haa', hcomm, sameShape_eq_of_eqvGen hbb', hcomm]

/-! ## A sum -/

/-- The sum `x + 1`, which stands nowhere yet. -/
def looseSum : Node := Fresh.binary .add (Fresh.ident "x") (Fresh.literal (.int 1))

/-- The sum `x + (1)` of a variable, behind an indentation. -/
def placedSum : Node :=
  .binary ⟨⟨4, 11⟩, some (.plain "int"), none⟩ .add
    (.ident ⟨⟨4, 5⟩, some (.plain "int"), some (.ofLocal "x")⟩ "x")
    (.paren ⟨⟨8, 11⟩, none, none⟩ (.literal ⟨⟨9, 10⟩, some (.plain "int"), none⟩ (.int 1)))

/-- Both sums have one shape, with more parentheses as well, and an empty block has
none. -/
theorem sameShape_looseSum :
    looseSum.sameShape placedSum = true ∧
      (Node.paren .blank looseSum).sameShape placedSum = true ∧
      (Node.block .blank []).sameShape (.block .blank []) = false := by
  have hloose : looseSum.ConsistsOfExpressions ∧ looseSum.HasNoFloats := by
    simp [ConsistsOfExpressions, HasNoFloats, looseSum, Fresh.binary, Fresh.ident, Fresh.literal,
      preorder_eq, children, isExpression]
  have hplaced : placedSum.ConsistsOfExpressions ∧ placedSum.HasNoFloats := by
    simp [ConsistsOfExpressions, HasNoFloats, placedSum, preorder_eq, children, isExpression]
  have hsame : looseSum.sameShape placedSum = true :=
    (sameShape_iff_bare_eq.1 _ _ hloose.2 hplaced.2).2 ⟨hloose.1, hplaced.1, rfl⟩
  have hgroups : GroupsOneMore looseSum (.paren .blank looseSum) :=
    ⟨⟨looseSum, []⟩, mem_placesUnder_self _ _, .blank, rfl⟩
  refine ⟨hsame, ?_, Bool.eq_false_iff.2 fun h => ?_⟩
  · rw [← sameShape_iff_bare_eq.2.2.2.2 _ _ _ _ (.rel _ _ hgroups) (.refl _)]
    exact hsame
  · have hfloats : (Node.block .blank []).HasNoFloats := by
      simp [HasNoFloats, preorder_eq, children]
    have hblock := (sameShape_iff_bare_eq.2.2.2.1 _ hfloats).1 h
    exact absurd (consistsOfExpressions_iff.1 hblock).1 (by simp [isExpression])

end Codemod.Node
