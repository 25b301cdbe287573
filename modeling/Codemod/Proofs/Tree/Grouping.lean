import Codemod.Proofs.Comment
import Codemod.Proofs.Tree.Faithfulness
/-!
# Grouping parentheses

Trees that differ in parentheses around expressions, and in where they lie, have
one ungrouped form (`Node.ungrouped`). Parentheses around the callee of a call
are part of that form, since a call is another call without them; so are, if
asked for, those around what is returned and around the whole tree, which hide
from an expression that it may be returned.
-/

namespace Codemod

open Comment Layout

namespace Node

/-- The node in parentheses, if the original stands in some and they are to be
kept. -/
def regroup (keep : Bool) (original n : Node) : Node :=
  if keep && original.isParen then .paren original.info.unplaced n else n

mutual

/-- The node without its spans and without the parentheses around expressions in
it, but those around callees and, if asked for, around what is returned. -/
def ungroup (keep : Bool) : Node → Node
  | .ident i name => .ident i.unplaced name
  | .literal i value => .literal i.unplaced value
  | .select i target name _ => .select i.unplaced (ungroup keep target) name ⟨0, 0⟩
  | .call i callee args =>
    .call i.unplaced (regroup true callee (ungroup keep callee)) (ungroups keep args)
  | .methodRef i target name => .methodRef i.unplaced (ungroup keep target) name
  | .unary i op operand => .unary i.unplaced op (ungroup keep operand)
  | .binary i op lhs rhs => .binary i.unplaced op (ungroup keep lhs) (ungroup keep rhs)
  | .cast i target expr => .cast i.unplaced target (ungroup keep expr)
  | .paren i expr =>
    if expr.skipParens.isExpression then ungroup keep expr
    else .paren i.unplaced (ungroup keep expr)
  | .block i stmts => .block i.unplaced (ungroups keep stmts)
  | .exprStmt i expr => .exprStmt i.unplaced (ungroup keep expr)
  | .ret i none => .ret i.unplaced none
  | .ret i (some expr) => .ret i.unplaced (some (regroup keep expr (ungroup keep expr)))
  | .localVar i name declared none => .localVar i.unplaced name declared none
  | .localVar i name declared (some init) =>
    .localVar i.unplaced name declared (some (ungroup keep init))
  | .ifElse i cond thenBranch none =>
    .ifElse i.unplaced (ungroup keep cond) (ungroup keep thenBranch) none
  | .ifElse i cond thenBranch (some elseBranch) =>
    .ifElse i.unplaced (ungroup keep cond) (ungroup keep thenBranch)
      (some (ungroup keep elseBranch))
  | .whileLoop i cond body => .whileLoop i.unplaced (ungroup keep cond) (ungroup keep body)
  | .doWhile i body cond => .doWhile i.unplaced (ungroup keep body) (ungroup keep cond)
  | .synchronized i lock body => .synchronized i.unplaced (ungroup keep lock) (ungroup keep body)
  | .methodDecl i head none => .methodDecl i.unplaced head none
  | .methodDecl i head (some body) => .methodDecl i.unplaced head (some (ungroup keep body))
  | .classDecl i head members => .classDecl i.unplaced head (ungroups keep members)
  | .unit i items => .unit i.unplaced (ungroups keep items)
termination_by structural n => n

/-- The nodes, each without its spans and those parentheses. -/
def ungroups (keep : Bool) : List Node → List Node
  | [] => []
  | n :: rest => ungroup keep n :: ungroups keep rest
termination_by structural ns => ns

end

/-- The ungrouped form of a tree. -/
def ungrouped (keep : Bool) (n : Node) : Node := regroup keep n (n.ungroup keep)

variable {keep : Bool} {n m c : Node}

theorem ungroups_eq_map (ns : List Node) : ungroups keep ns = ns.map (ungroup keep) := by
  induction ns with
  | nil => rfl
  | cons n ns ih => rw [ungroups, ih, List.map_cons]

/-! ## What ungrouping keeps -/

theorem skipParens_regroup (original n : Node) :
    (regroup keep original n).skipParens = n.skipParens := by
  unfold regroup
  split <;> rfl

/-- What ungrouping keeps of a node, whatever its parts. -/
structure Kept (n m : Node) : Prop where
  isParen : m.isParen = n.isParen
  isBlock : m.isBlock = n.isBlock
  info : m.info = n.info.unplaced
  kindName : m.kindName = n.kindName
  annotations : m.annotations = n.annotations

/-- What stands in no parentheses remains what it is. -/
theorem kept_ungroup (h : n.isParen = false) : n.Kept (n.ungroup keep) := by
  cases n
  case paren => exact absurd h (by simp [isParen])
  case ret _ e => cases e <;> exact ⟨rfl, rfl, rfl, rfl, rfl⟩
  case localVar _ _ _ init => cases init <;> exact ⟨rfl, rfl, rfl, rfl, rfl⟩
  case methodDecl _ _ body => cases body <;> exact ⟨rfl, rfl, rfl, rfl, rfl⟩
  case ifElse _ _ _ elseBranch => cases elseBranch <;> exact ⟨rfl, rfl, rfl, rfl, rfl⟩
  all_goals exact ⟨rfl, rfl, rfl, rfl, rfl⟩

theorem isParen_ungroup (h : n.isParen = false) : (n.ungroup keep).isParen = false :=
  (kept_ungroup h).isParen.trans h

theorem isExpression_ungroup (n : Node) : (n.ungroup keep).isExpression = n.isExpression := by
  cases n
  case paren i expr =>
    rw [ungroup]
    split
    · rename_i hcore
      rw [isExpression_ungroup expr]
      -- What groups is around an expression, or around parentheses.
      cases hparen : expr.isParen with
      | false => rwa [skipParens_eq_self hparen] at hcore
      | true =>
        cases expr
        case paren => rfl
        all_goals exact absurd hparen (by simp [isParen])
    · rfl
  case ret _ e => cases e <;> rfl
  case localVar _ _ _ init => cases init <;> rfl
  case methodDecl _ _ body => cases body <;> rfl
  case ifElse _ _ _ elseBranch => cases elseBranch <;> rfl
  all_goals rfl

/-- **Ungrouping goes into parentheses.** -/
theorem skipParens_ungroup (n : Node) :
    (n.ungroup keep).skipParens = n.skipParens.ungroup keep := by
  cases hparen : n.isParen with
  | false => rw [skipParens_eq_self hparen, skipParens_eq_self (isParen_ungroup hparen)]
  | true =>
    cases n
    case paren i expr =>
      have hexpr := skipParens_ungroup expr
      rw [ungroup]
      split <;> exact hexpr
    all_goals exact absurd hparen (by simp [isParen])

theorem exists_of_isBlock (h : n.isBlock = true) : ∃ i stmts, n = .block i stmts := by
  cases n
  case block i stmts => exact ⟨i, stmts, rfl⟩
  all_goals exact absurd h (by simp [isBlock])

theorem symbol?_regroup (n : Node) : (regroup true n (n.ungroup keep)).symbol? = n.symbol? := by
  unfold regroup
  cases hparen : n.isParen with
  | false =>
    rw [Bool.and_false, if_neg Bool.false_ne_true]
    rw [symbol?, symbol?, (kept_ungroup hparen).info]
    rfl
  | true => rfl

/-- Parentheses that are kept remain. -/
theorem isParen_ungrouped (n : Node) : (n.ungrouped true).isParen = n.isParen := by
  rw [ungrouped, regroup]
  cases hparen : n.isParen with
  | false => exact isParen_ungroup hparen
  | true => rfl

theorem skipParens_ungrouped (n : Node) :
    (n.ungrouped keep).skipParens = n.skipParens.ungroup keep := by
  rw [ungrouped, skipParens_regroup, skipParens_ungroup]

/-- What a call resolved to does not depend on grouping. -/
theorem methodSymbol?_call_ungroup (keep : Bool) (i : NodeInfo) (callee : Node) (args : List Node) :
    ((Node.call i callee args).ungroup keep).methodSymbol? =
      (Node.call i callee args).methodSymbol? := by
  have hcallee : (regroup true callee (callee.ungroup keep)).symbol? = callee.symbol? :=
    symbol?_regroup callee
  have hself : (Node.call i.unplaced (regroup true callee (callee.ungroup keep))
      (ungroups keep args)).symbol? = (Node.call i callee args).symbol? := rfl
  rw [ungroup]
  unfold methodSymbol?
  rw [hself]
  rcases (Node.call i callee args).symbol? with _ | _ | _ | _ | _ | _ <;> simp only [hcallee]

theorem methodSymbol?_methodRef_ungroup (keep : Bool) (i : NodeInfo) (target : Node)
    (name : String) :
    ((Node.methodRef i target name).ungroup keep).methodSymbol? =
      (Node.methodRef i target name).methodSymbol? := by
  have hself : (Node.methodRef i.unplaced (target.ungroup keep) name).symbol? =
      (Node.methodRef i target name).symbol? := rfl
  rw [ungroup]
  unfold methodSymbol?
  rw [hself]
  rcases (Node.methodRef i target name).symbol? with _ | _ | _ | _ | _ | _ <;> rfl

/-! ## Shapes -/

mutual

/-- **Ungrouping does not change a shape.** -/
theorem sameShape_ungroup_left (n other : Node) :
    (n.ungroup keep).sameShape other = n.sameShape other := by
  cases n
  case paren i expr =>
    have hexpr := sameShape_ungroup_left expr other
    rw [ungroup]
    split <;> exact hexpr
  case ret _ e => cases e <;> rfl
  case localVar _ _ _ init => cases init <;> rfl
  case methodDecl _ _ body => cases body <;> rfl
  case ifElse _ _ _ elseBranch => cases elseBranch <;> rfl
  case call i callee args =>
    have hcallee (d : Node) : (regroup true callee (callee.ungroup keep)).sameShape d =
        callee.sameShape d := by
      rw [← sameShape_skipParens_left, skipParens_regroup, sameShape_skipParens_left]
      exact sameShape_ungroup_left callee d
    have hargs := sameShapes_ungroups_left args
    simp only [ungroup, sameShape, hcallee, hargs]
  case select i target _ _ =>
    have h := sameShape_ungroup_left target
    simp only [ungroup, sameShape, h]
  case methodRef i target _ =>
    have h := sameShape_ungroup_left target
    simp only [ungroup, sameShape, h]
  case unary _ _ operand =>
    have h := sameShape_ungroup_left operand
    simp only [ungroup, sameShape, h]
  case cast _ _ expr =>
    have h := sameShape_ungroup_left expr
    simp only [ungroup, sameShape, h]
  case binary _ _ lhs rhs =>
    have hl := sameShape_ungroup_left lhs
    have hr := sameShape_ungroup_left rhs
    simp only [ungroup, sameShape, hl, hr]
  all_goals rfl

theorem sameShapes_ungroups_left (ns others : List Node) :
    sameShapes (ungroups keep ns) others = sameShapes ns others := by
  cases ns with
  | nil => rfl
  | cons n ns =>
    cases others with
    | nil => rfl
    | cons other others =>
      simp only [ungroups, sameShapes, sameShape_ungroup_left n, sameShapes_ungroups_left ns]

end

theorem sameShape_comm (a b : Node) : a.sameShape b = b.sameShape a :=
  Bool.eq_iff_iff.2 ⟨sameShape_symm, sameShape_symm⟩

theorem sameShape_ungroup (a b : Node) :
    (a.ungroup keep).sameShape (b.ungroup keep) = a.sameShape b := by
  rw [sameShape_ungroup_left, sameShape_comm, sameShape_ungroup_left, sameShape_comm]

/-! ## Placed trees -/

theorem isExpression_skipParens_unplaced (n : Node) :
    n.unplaced.skipParens.isExpression = n.skipParens.isExpression := by
  cases n
  case paren i expr => exact isExpression_skipParens_unplaced expr
  case ret _ e => cases e <;> rfl
  case localVar _ _ _ init => cases init <;> rfl
  case methodDecl _ _ body => cases body <;> rfl
  case ifElse _ _ _ elseBranch => cases elseBranch <;> rfl
  all_goals rfl

theorem regroup_unplaced (original n : Node) :
    regroup keep original.unplaced n = regroup keep original n := by
  cases original
  case ret _ e => cases e <;> rfl
  case localVar _ _ _ init => cases init <;> rfl
  case methodDecl _ _ body => cases body <;> rfl
  case ifElse _ _ _ elseBranch => cases elseBranch <;> rfl
  all_goals rfl

mutual

/-- The ungrouped form says nothing of spans. -/
theorem ungroup_unplaced (n : Node) : n.unplaced.ungroup keep = n.ungroup keep := by
  have hinfo (i : NodeInfo) : i.unplaced.unplaced = i.unplaced := rfl
  cases n
  case ident | literal => rfl
  case call =>
    simp only [unplaced, ungroup, hinfo, ungroup_unplaced, ungroups_allUnplaced, regroup_unplaced]
  case paren =>
    simp only [unplaced, ungroup, hinfo, ungroup_unplaced, isExpression_skipParens_unplaced]
  case ret _ e =>
    cases e <;> simp only [unplaced, ungroup, hinfo, ungroup_unplaced, regroup_unplaced]
  case localVar _ _ _ init => cases init <;> simp only [unplaced, ungroup, hinfo, ungroup_unplaced]
  case methodDecl _ _ body => cases body <;> simp only [unplaced, ungroup, hinfo, ungroup_unplaced]
  case ifElse _ _ _ elseBranch =>
    cases elseBranch <;> simp only [unplaced, ungroup, hinfo, ungroup_unplaced]
  case block | classDecl | unit => simp only [unplaced, ungroup, hinfo, ungroups_allUnplaced]
  all_goals simp only [unplaced, ungroup, hinfo, ungroup_unplaced]

theorem ungroups_allUnplaced (ns : List Node) :
    ungroups keep (allUnplaced ns) = ungroups keep ns := by
  cases ns with
  | nil => rfl
  | cons n ns => simp only [allUnplaced, ungroups, ungroup_unplaced, ungroups_allUnplaced]

end

/-- **Where a tree lies** does not matter for its ungrouped form. -/
theorem ungroup_place (depth offset : Nat) (n : Node) :
    (n.place depth offset).ungroup keep = n.ungroup keep := by
  rw [← ungroup_unplaced, unplaced_place, ungroup_unplaced]

theorem ungrouped_laidOut (n : Node) : n.laidOut.ungrouped keep = n.ungrouped keep := by
  rw [ungrouped, ← regroup_unplaced, unplaced_laidOut, regroup_unplaced, laidOut, ungroup_place,
    ungrouped]

/-! ## Statements -/

/-- The parts of a node that stand where statements and declarations do. -/
def statements : Node → List Node
  | .block _ nodes | .classDecl _ _ nodes | .unit _ nodes => nodes
  | .methodDecl _ _ body => body.toList
  | .ifElse _ _ thenBranch elseBranch => thenBranch :: elseBranch.toList
  | .whileLoop _ _ body | .doWhile _ body _ | .synchronized _ _ body => [body]
  | _ => []

/-- No expression stands by itself where a statement should. -/
def HasStatements (n : Node) : Prop :=
  ∀ m ∈ n.preorder, ∀ c ∈ m.statements, c.isExpression = false

theorem hasStatements_iff :
    n.HasStatements ↔
      (∀ c ∈ n.statements, c.isExpression = false) ∧ ∀ c ∈ n.children, c.HasStatements := by
  unfold HasStatements
  rw [preorder_eq, List.forall_mem_cons, List.forall_mem_flatMap]

theorem statements_subset (n : Node) : n.statements ⊆ n.children := by
  cases n
  case block | classDecl | unit | methodDecl => exact List.Subset.refl _
  case ifElse | whileLoop | synchronized => exact List.subset_cons_self _ _
  case doWhile => exact List.subset_append_left [_] [_]
  all_goals exact List.nil_subset _

theorem hasStatements_of_children_eq_nil (h : n.children = []) : n.HasStatements := by
  have hnone : n.statements = [] := List.subset_nil.1 (h ▸ n.statements_subset)
  rw [hasStatements_iff, h, hnone]
  exact ⟨List.forall_mem_nil _, List.forall_mem_nil _⟩

theorem statements_ungroup (h : n.isParen = false) :
    (n.ungroup keep).statements = n.statements.map (ungroup keep) := by
  cases n
  case paren => exact absurd h (by simp [isParen])
  case block | classDecl | unit => exact ungroups_eq_map _
  case ret _ e => cases e <;> rfl
  case localVar _ _ _ init => cases init <;> rfl
  case methodDecl _ _ body => cases body <;> rfl
  case ifElse _ _ _ elseBranch => cases elseBranch <;> rfl
  all_goals rfl

/-- What does not depend on parentheses holds of the ungrouped parts if it holds
of the parts of the ungrouped form. -/
theorem forall_children_ungroup {P : Node → Prop} (hparen : ∀ i expr, P (.paren i expr) ↔ P expr)
    (h : n.isParen = false) :
    (∀ c ∈ (n.ungroup keep).children, P c) ↔ ∀ c ∈ n.children, P (c.ungroup keep) := by
  have hregroup (keep : Bool) (original n : Node) : P (regroup keep original n) ↔ P n := by
    unfold regroup
    split
    · exact hparen _ _
    · rfl
  cases n
  case paren => exact absurd h (by simp [isParen])
  case call => simp [ungroup, children, hregroup, ungroups_eq_map]
  case block | classDecl | unit => simp [ungroup, children, ungroups_eq_map]
  case ret _ e => cases e <;> simp [ungroup, children, hregroup]
  case localVar _ _ _ init => cases init <;> simp [ungroup, children]
  case methodDecl _ _ body => cases body <;> simp [ungroup, children]
  case ifElse _ _ _ elseBranch => cases elseBranch <;> simp [ungroup, children]
  all_goals simp [ungroup, children]

theorem hasStatements_paren (i : NodeInfo) (expr : Node) :
    (Node.paren i expr).HasStatements ↔ expr.HasStatements := by
  rw [hasStatements_iff]
  simp [statements, children]

/-- **Statements stand in their places in a tree** if they do in its ungrouped
form. -/
theorem hasStatements_ungroup (n : Node) : (n.ungroup keep).HasStatements ↔ n.HasStatements := by
  induction n using inductionOnChildren with
  | h n ih =>
    cases hparen : n.isParen with
    | false =>
      rw [hasStatements_iff, hasStatements_iff, statements_ungroup hparen,
        forall_children_ungroup hasStatements_paren hparen, List.forall_mem_map]
      simp only [isExpression_ungroup]
      exact and_congr_right fun _ => forall₂_congr ih
    | true =>
      cases n
      case paren i expr =>
        have hexpr := ih expr List.mem_cons_self
        rw [ungroup]
        split
        · rw [hexpr, hasStatements_paren]
        · rw [hasStatements_paren, hasStatements_paren, hexpr]
      all_goals exact absurd hparen (by simp [isParen])

theorem HasStatements.congr (h : n.ungroup keep = m.ungroup keep) (hn : n.HasStatements) :
    m.HasStatements := by
  rwa [← hasStatements_ungroup, ← h, hasStatements_ungroup]

theorem HasStatements.of_stands {root : Node} {depth : Nat} (hroot : root.HasStatements)
    (h : root.Stands depth n) : n.HasStatements := by
  induction h with
  | root => exact hroot
  | child _ hc ih => exact (hasStatements_iff.1 ih).2 _ hc

/-! ## Prints -/

section

variable {t : String} {depth depth' : Nat}

theorem alike_regroup (keep : Bool) (original : Node) (h : Alike t (n.text depth)) :
    Alike t ((regroup keep original n).text depth) := by
  unfold regroup
  split
  · exact h.symm.parens.symm
  · exact h

theorem alike_condition (cond : Node) (t : String) : Alike (condition cond t) t := by
  unfold condition
  split
  · exact .refl t
  · exact (Alike.refl t).parens

theorem read_annotations (s : Progress) (depth depth' : Nat) (as : List Annotation) :
    s.read (Layout.annotations depth as) = s.read (Layout.annotations depth' as) := by
  induction as generalizing s with
  | nil => rfl
  | cons a as ih =>
    have hcons (depth : Nat) : Layout.annotations depth (a :: as) =
        a.toSource ++ newline depth ++ Layout.annotations depth as := by
      rw [Layout.annotations, List.map_cons, String.join_cons]
      rfl
    rw [hcons, hcons]
    simp only [Progress.read_append, Progress.read_newline, ih]

/-- It does not matter how far a declaration is indented. -/
theorem readSame_methodHead (depth depth' : Nat) (head : MethodHead) :
    ReadSame (methodHead depth head) (methodHead depth' head) := by
  intro s _
  simp only [methodHead, Progress.read_append, read_annotations s depth depth']

theorem readSame_classHead (depth depth' : Nat) (head : ClassHead) :
    ReadSame (classHead depth head) (classHead depth' head) := by
  intro s _
  simp only [classHead, Progress.read_append, read_annotations s depth depth']

theorem forall₂_texts {R : String → String → Prop} {ns : List Node}
    (h : ∀ n ∈ ns, R (n.text depth) ((n.ungroup keep).text depth')) :
    List.Forall₂ R (texts depth ns) (texts depth' (ungroups keep ns)) := by
  induction ns with
  | nil => exact .nil
  | cons n ns ih =>
    obtain ⟨hfirst, hrest⟩ := List.forall_mem_cons.1 h
    exact .cons hfirst (ih hrest)

/-- Lines between braces are read the same if each of them is. -/
theorem readSame_braces {head head' : String} {ns : List Node} (hhead : ReadSame head head')
    (h : ∀ c ∈ ns, ReadSame (c.text (depth + 1)) ((c.ungroup keep).text (depth' + 1))) :
    ReadSame (head ++ lines (depth + 1) (texts (depth + 1) ns) ++ newline depth ++ "\x7d")
      (head' ++ lines (depth' + 1) (texts (depth' + 1) (ungroups keep ns)) ++ newline depth' ++
        "\x7d") := by
  intro s hs
  simp only [Progress.read_append, Progress.read_newline, hhead s hs]
  rw [read_lines _ _ (forall₂_texts h)]

/-- The parts of a node are read like their ungrouped forms. -/
def ReadsParts (keep : Bool) (n : Node) : Prop :=
  ∀ c ∈ n.children, ∀ depth depth', Alike (c.text depth) ((c.ungroup keep).text depth')

theorem ReadsParts.condition (h : n.ReadsParts keep) (cond : Node) (hcond : cond ∈ n.children)
    (depth depth' : Nat) :
    Alike (condition cond (cond.text depth))
      (Layout.condition (cond.ungroup keep) ((cond.ungroup keep).text depth')) :=
  ((alike_condition cond _).trans (h cond hcond depth depth')).trans (alike_condition _ _).symm

theorem settles_append {w : String} (h : endsPlain w = true) (t : String) : Settles (t ++ w) :=
  (settles_of_endsPlain h).append t

/-- What stands before the statement that a condition is for is read the same. -/
theorem ReadsParts.readSame_head (h : n.ReadsParts keep) {w : String}
    (hword : endsPlain w = true) {cond : Node} (hcond : cond ∈ n.children)
    (depth depth' : Nat) :
    ReadSame (w ++ Layout.condition cond (cond.text depth) ++ " ")
      (w ++ Layout.condition (cond.ungroup keep) ((cond.ungroup keep).text depth') ++ " ") := by
  have hcondition := (ReadSame.refl w).append_alike (settles_of_endsPlain hword)
    (h.condition cond hcond depth depth')
  exact hcondition.followed (by decide)

/-- An expression is read like its ungrouped form if its parts are. -/
theorem ReadsParts.alike_text (hparts : n.ReadsParts keep) (hn : n.isExpression = true)
    (depth depth' : Nat) : Alike (n.text depth) ((n.ungroup keep).text depth') := by
  cases n
  case ident | literal => exact .refl _
  case select i target name _ =>
    have htarget := hparts target List.mem_cons_self depth depth'
    have hdot := htarget.followed (w := ".") (by decide)
    exact hdot.append_alike (settles_append (by decide) _) (.refl name)
  case methodRef i target name =>
    have htarget := hparts target List.mem_cons_self depth depth'
    have hcolons := htarget.followed (w := "::") (by decide)
    exact hcolons.append_alike (settles_append (by decide) _) (.refl name)
  case call i callee args =>
    have hcallee := alike_regroup true callee (hparts callee List.mem_cons_self depth depth')
    have hargs : Alike (", ".intercalate (texts depth args))
        (", ".intercalate (texts depth' (ungroups keep args))) :=
      alike_intercalate (by decide) (by decide)
        (forall₂_texts fun c hc => hparts c (List.mem_cons_of_mem _ hc) depth depth')
    have hopened := (hcallee.followed (w := "(") (by decide)).append_alike
      (settles_append (by decide) _) hargs
    exact (hopened.followed (w := ")") (by decide)).alike
  case unary i op operand =>
    have hoperand := hparts operand List.mem_cons_self depth depth'
    have hop : endsPlain op.symbol = true := by cases op <;> decide
    exact (ReadSame.refl _).append_alike (settles_of_endsPlain hop) hoperand
  case binary i op lhs rhs =>
    have hlhs := hparts lhs List.mem_cons_self depth depth'
    have hrhs := hparts rhs (List.mem_cons_of_mem _ List.mem_cons_self) depth depth'
    have hbegins : beginsPlain (infixOp op) = true := by cases op <;> decide
    have hends : endsPlain (infixOp op) = true := by cases op <;> decide
    exact (hlhs.followed hbegins).append_alike (settles_append hends _) hrhs
  case cast i target expr =>
    have hexpr := hparts expr List.mem_cons_self depth depth'
    exact (ReadSame.refl _).append_alike (settles_append (by decide) _) hexpr
  case paren i expr =>
    have hexpr := hparts expr List.mem_cons_self depth depth'
    rw [ungroup]
    split
    · exact hexpr.parens
    · exact hexpr.parens.trans (Alike.refl _).parens.symm
  all_goals exact absurd hn (by simp [isExpression])

/-- A statement or a declaration is read the same as its ungrouped form if the
statements in it are. -/
theorem ReadsParts.readSame_text (hparts : n.ReadsParts keep) (hn : n.isExpression = false)
    (hstatements : ∀ c ∈ n.statements, ∀ depth depth',
      ReadSame (c.text depth) ((c.ungroup keep).text depth')) (depth depth' : Nat) :
    ReadSame (n.text depth) ((n.ungroup keep).text depth') := by
  cases n
  case block i stmts =>
    exact readSame_braces (.refl "\x7b") fun c hc => hstatements c hc (depth + 1) (depth' + 1)
  case exprStmt i expr =>
    exact (hparts expr List.mem_cons_self depth depth').followed (w := ";") (by decide)
  case ret i expr =>
    cases expr with
    | none => exact .refl _
    | some expr =>
      have hexpr := alike_regroup keep expr (hparts expr List.mem_cons_self depth depth')
      have hreturn :=
        (ReadSame.refl "return ").append_alike (settles_of_endsPlain (by decide)) hexpr
      exact hreturn.followed (w := ";") (by decide)
  case localVar i name declared init =>
    cases init with
    | none => exact .refl _
    | some init =>
      have hinit := hparts init List.mem_cons_self depth depth'
      have hlocal := (ReadSame.refl (localHead name declared ++ " = ")).append_alike
        (settles_append (by decide) _) hinit
      exact hlocal.followed (w := ";") (by decide)
  case ifElse i cond thenBranch elseBranch =>
    have hif := hparts.readSame_head (w := "if ") (by decide) List.mem_cons_self depth depth'
    have hthen := hstatements thenBranch List.mem_cons_self depth depth'
    cases elseBranch with
    | none => exact hif.append (settles_append (by decide) _) hthen
    | some elseBranch =>
      have hbranch := hif.append_alike (settles_append (by decide) _) hthen.alike
      have helse := hstatements elseBranch (List.mem_cons_of_mem _ List.mem_cons_self) depth depth'
      exact (hbranch.followed (w := " else ") (by decide)).append (settles_append (by decide) _)
        helse
  case whileLoop i cond body =>
    have hwhile := hparts.readSame_head (w := "while ") (by decide) List.mem_cons_self depth
      depth'
    exact hwhile.append (settles_append (by decide) _)
      (hstatements body List.mem_cons_self depth depth')
  case synchronized i lock body =>
    have hlock := hparts.readSame_head (w := "synchronized ") (by decide) List.mem_cons_self
      depth depth'
    exact hlock.append (settles_append (by decide) _)
      (hstatements body List.mem_cons_self depth depth')
  case doWhile i body cond =>
    have hbody := hstatements body List.mem_cons_self depth depth'
    have hdo := (ReadSame.refl "do ").append_alike (settles_of_endsPlain (by decide)) hbody.alike
    have hwhile := (hdo.followed (w := " while ") (by decide)).append_alike
      (settles_append (by decide) _)
      (hparts.condition cond (List.mem_cons_of_mem _ List.mem_cons_self) depth depth')
    exact hwhile.followed (w := ";") (by decide)
  case methodDecl i head body =>
    have hhead := (readSame_methodHead depth depth' head).alike
    cases body with
    | none => exact hhead.followed (w := ";") (by decide)
    | some body =>
      have hbody := hstatements body List.mem_cons_self depth depth'
      exact (hhead.followed (w := " ") (by decide)).append (settles_append (by decide) _) hbody
  case classDecl i head members =>
    exact readSame_braces (readSame_classHead depth depth' head)
      fun c hc => hstatements c hc (depth + 1) (depth' + 1)
  case unit i items =>
    have hitems : List.Forall₂ ReadSame (texts depth items) (texts depth' (ungroups keep items)) :=
      forall₂_texts fun c hc => hstatements c hc depth depth'
    have hgap : Settles "\n\n" := fun s => by
      have hbytes : Text.utf8 "\n\n" = [lineFeed, lineFeed] := by decide
      rw [Progress.read, hbytes]
      exact Progress.settle_next_lineFeed _
    intro s hs
    rw [text, ungroup, text, Progress.read_append, Progress.read_append,
      readSame_intercalate hgap hitems s hs]
  all_goals exact absurd hn (by simp [isExpression])

/-- **Grouping parentheses are read over** where statements stand in their
places: an expression is read like its ungrouped form up to a plain byte, a
statement the same. -/
theorem HasStatements.alike_text (hn : n.HasStatements) (depth depth' : Nat) :
    Alike (n.text depth) ((n.ungroup keep).text depth') ∧
      (n.isExpression = false → ReadSame (n.text depth) ((n.ungroup keep).text depth')) := by
  induction n using inductionOnChildren generalizing depth depth' with
  | h n ih =>
    obtain ⟨hkinds, hchildren⟩ := hasStatements_iff.1 hn
    have hparts : n.ReadsParts keep := fun c hc depth depth' =>
      (ih c hc (hchildren c hc) depth depth').1
    have hstatements : ∀ c ∈ n.statements, ∀ depth depth',
        ReadSame (c.text depth) ((c.ungroup keep).text depth') := fun c hc depth depth' =>
      have hchild := statements_subset n hc
      (ih c hchild (hchildren c hchild) depth depth').2 (hkinds c hc)
    cases hexpr : n.isExpression with
    | true => exact ⟨hparts.alike_text hexpr depth depth', fun h => absurd h (by simp)⟩
    | false =>
      have hsame := hparts.readSame_text hexpr hstatements depth depth'
      exact ⟨hsame.alike, fun _ => hsame⟩

/-- **Nodes of one ungrouped form contain a comment or not**, both of them. -/
theorem HasStatements.contains_text_eq (hn : n.HasStatements) (hm : m.HasStatements)
    (h : n.ungroup keep = m.ungroup keep) (depth depth' : Nat) :
    contains (n.text depth) = contains (m.text depth') := by
  have hread : Alike (n.text depth) ((n.ungroup keep).text 0) := (hn.alike_text depth 0).1
  rw [h] at hread
  exact (hread.trans (hm.alike_text depth' 0).1.symm).contains_eq

/-- So do runs of statements of one ungrouped form. -/
theorem contains_lines_eq {ns ms : List Node}
    (hns : ∀ n ∈ ns, n.HasStatements ∧ n.isExpression = false)
    (hms : ∀ m ∈ ms, m.HasStatements ∧ m.isExpression = false)
    (h : ns.map (ungroup keep) = ms.map (ungroup keep)) (depth depth' : Nat) :
    contains ((newline depth).intercalate (texts depth ns)) =
      contains ((newline depth').intercalate (texts depth' ms)) := by
  have hread {ns : List Node} (hns : ∀ n ∈ ns, n.HasStatements ∧ n.isExpression = false)
      (depth : Nat) : contains ((newline depth).intercalate (texts depth ns)) =
        contains ((newline 0).intercalate (texts 0 (ungroups keep ns))) :=
    contains_intercalate_newline _ _
      (forall₂_texts fun n hn => ((hns n hn).1.alike_text depth 0).2 (hns n hn).2)
  rw [hread hns, hread hms, ungroups_eq_map, h, ungroups_eq_map]

end

end Node

end Codemod
