import Codemod.Proofs.Edit.Turning
import Codemod.Proofs.Tree.Standing
/-!
# Rewriting a tree and editing its print

A tree is rewritten by putting other nodes in place of some of its nodes,
outermost first (`Node.replace`). The same can be done to its print, one edit
for each node that is replaced (`Node.rewrites`): the edits turn the print of
the tree into the print of the rewritten tree (`Node.turns_rewrites`). They are
those of all nodes to be replaced, but for nodes within others that are replaced
(`Node.rewrites_subset_of_stands`).
-/

namespace Codemod

open Layout Text

namespace Node

mutual

/-- The tree with other nodes in place of some. What is put in is not looked
into again. -/
def replace (r : Node → Option Node) (n : Node) : Node :=
  match r n with
  | some m => m
  | none =>
    match n with
    | .ident i name => .ident i name
    | .literal i value => .literal i value
    | .select i target name nameSpan => .select i (replace r target) name nameSpan
    | .call i callee args => .call i (replace r callee) (replaceAll r args)
    | .methodRef i target name => .methodRef i (replace r target) name
    | .unary i op operand => .unary i op (replace r operand)
    | .binary i op lhs rhs => .binary i op (replace r lhs) (replace r rhs)
    | .cast i target expr => .cast i target (replace r expr)
    | .paren i expr => .paren i (replace r expr)
    | .block i stmts => .block i (replaceAll r stmts)
    | .exprStmt i expr => .exprStmt i (replace r expr)
    | .ret i none => .ret i none
    | .ret i (some expr) => .ret i (some (replace r expr))
    | .localVar i name declared none => .localVar i name declared none
    | .localVar i name declared (some init) => .localVar i name declared (some (replace r init))
    | .ifElse i cond thenBranch none => .ifElse i (replace r cond) (replace r thenBranch) none
    | .ifElse i cond thenBranch (some elseBranch) =>
      .ifElse i (replace r cond) (replace r thenBranch) (some (replace r elseBranch))
    | .whileLoop i cond body => .whileLoop i (replace r cond) (replace r body)
    | .doWhile i body cond => .doWhile i (replace r body) (replace r cond)
    | .synchronized i lock body => .synchronized i (replace r lock) (replace r body)
    | .methodDecl i head none => .methodDecl i head none
    | .methodDecl i head (some body) => .methodDecl i head (some (replace r body))
    | .classDecl i head members => .classDecl i head (replaceAll r members)
    | .unit i items => .unit i (replaceAll r items)
termination_by structural n

/-- The nodes with others in the places of some. -/
def replaceAll (r : Node → Option Node) (ns : List Node) : List Node :=
  match ns with
  | [] => []
  | n :: rest => replace r n :: replaceAll r rest
termination_by structural ns

end

variable {r : Node → Option Node} {depth : Nat} {n m : Node}

theorem replaceAll_eq_map (ns : List Node) : replaceAll r ns = ns.map (replace r) := by
  induction ns with
  | nil => rfl
  | cons n ns ih => rw [replaceAll, ih, List.map_cons]

theorem replace_of_some (h : r n = some m) : n.replace r = m := by
  rw [replace.eq_def, h]

/-- No grouping parentheses are replaced. -/
def KeepsParens (r : Node → Option Node) : Prop := ∀ n, n.isParen = true → r n = none

theorem isParen_replace (hr : KeepsParens r) (h : n.isParen = true) :
    (n.replace r).isParen = true := by
  have hkept := hr n h
  cases n
  case paren => rw [replace.eq_def, hkept]; rfl
  all_goals exact absurd h nofun

end Node

namespace Piece

variable {r : Node → Option Node} {depth : Nat}

theorem map_lined (f : Node → Node) (ns : List Node) :
    (lined depth ns).map (map f) = lined depth (ns.map f) := by
  simp [lined, List.map_flatMap, List.flatMap_map, map]

theorem map_joined (f : Node → Node) (sep : String) (ns : List Node) :
    (joined sep ns).map (map f) = joined sep (ns.map f) := by
  induction ns with
  | nil => rfl
  | cons n rest ih =>
    cases rest with
    | nil => rfl
    | cons m rest =>
      rw [joined, List.map_cons, List.map_cons, ih]
      · rfl
      · simp

/-- Parentheses that a condition has it keeps. -/
theorem map_enclosed (hr : Node.KeepsParens r) {cond : Node} (h : cond.isParen = true) :
    (enclosed cond).map (map (Node.replace r)) = enclosed (cond.replace r) := by
  rw [enclosed, enclosed, if_pos h, if_pos (Node.isParen_replace hr h)]
  rfl

end Piece

namespace Node

open Piece

variable {r : Node → Option Node} {depth : Nat} {n m : Node}

/-- **A node that stays is printed anew part by part.** -/
theorem pieces_replace (hr : KeepsParens r) (hspelled : n.IsSpelled) (hkept : r n = none) :
    (n.replace r).pieces depth = (n.pieces depth).map (Piece.map (replace r)) := by
  rw [replace.eq_def, hkept]
  cases n
  case ret _ e => cases e <;> rfl
  case localVar _ _ _ init => cases init <;> rfl
  case methodDecl _ _ body => cases body <;> rfl
  case ifElse _ cond _ elseBranch =>
    cases elseBranch <;> simp [pieces, Piece.map, map_enclosed hr hspelled]
  case whileLoop | doWhile | synchronized =>
    simp [pieces, Piece.map, map_enclosed hr hspelled]
  case call | block | classDecl | unit =>
    simp [pieces, Piece.map, map_lined, map_joined, replaceAll_eq_map]
  all_goals rfl

theorem childDepth_replace (hkept : r n = none) :
    (n.replace r).childDepth depth = n.childDepth depth := by
  rw [replace.eq_def, hkept]
  cases n
  case ret _ e => cases e <;> rfl
  case localVar _ _ _ init => cases init <;> rfl
  case methodDecl _ _ body => cases body <;> rfl
  case ifElse _ _ _ elseBranch => cases elseBranch <;> rfl
  all_goals rfl

theorem isSpelled_place (depth offset : Nat) (h : n.IsSpelled) :
    (n.place depth offset).IsSpelled := by
  cases n
  case ret _ e => cases e <;> trivial
  case localVar _ _ _ init => cases init <;> trivial
  case methodDecl _ _ body => cases body <;> trivial
  case ident => exact h
  case ifElse _ _ _ elseBranch => cases elseBranch <;> exact (isParen_place _ _ _).trans h
  case whileLoop | doWhile | synchronized => exact (isParen_place _ _ _).trans h
  all_goals trivial

/-! ## Edits for what is replaced -/

/-- One edit for each node of the tree that is replaced. -/
def rewrites (r : Node → Option Node) (depth : Nat) (n : Node) : List Edit :=
  match r n with
  | some m => [⟨n.span, m.text depth⟩]
  | none => n.children.attach.flatMap fun ⟨c, _⟩ => rewrites r (n.childDepth depth) c
termination_by n
decreasing_by exact sizeOf_lt_of_mem_children ‹_›

theorem rewrites_of_some (h : r n = some m) : n.rewrites r depth = [⟨n.span, m.text depth⟩] := by
  rw [rewrites, h]

theorem rewrites_of_none (h : r n = none) :
    n.rewrites r depth = n.children.flatMap (rewrites r (n.childDepth depth)) := by
  rw [rewrites, h]
  simp [List.flatMap_subtype, List.unattach_attach]

/-- Edits for the parts make up the edits for pieces. -/
theorem turns_pieces {ps : List Piece}
    (h : ∀ c ∈ nodes ps, ∀ offset, Turns offset ((c.place depth offset).rewrites r depth)
      (c.text depth) (((c.place depth offset).replace r).text depth)) (offset : Nat) :
    Turns offset ((nodes (Piece.place depth offset ps)).flatMap (rewrites r depth))
      (textOf depth ps)
      (textOf depth ((Piece.place depth offset ps).map (Piece.map (replace r)))) := by
  induction ps generalizing offset with
  | nil => exact .keep ""
  | cons p ps ih =>
    cases p with
    | own t =>
      have hrest := ih h (offset + byteCount t)
      rw [Piece.place, List.map_cons, textOf_cons, textOf_cons]
      exact .append (.keep t) hrest
    | part c =>
      have hrest := ih (fun m hm => h m (List.mem_cons_of_mem _ hm)) (offset + c.width depth)
      rw [Piece.place, List.map_cons, textOf_cons, textOf_cons]
      rw [width_eq] at hrest ⊢
      exact .append (h c List.mem_cons_self offset) hrest

/-- **The edits turn the print of a placed tree into the print of the rewritten
tree.** -/
theorem turns_rewrites (hr : KeepsParens r) (hn : n.IsWritten) (depth offset : Nat) :
    Turns offset ((n.place depth offset).rewrites r depth) (n.text depth)
      (((n.place depth offset).replace r).text depth) := by
  -- A node that is replaced is one edit; one that stays is turned piece by piece.
  induction n using inductionOnChildren generalizing depth offset with
  | h n ih =>
    cases hreplaced : r (n.place depth offset) with
    | some m =>
      rw [rewrites_of_some hreplaced, replace_of_some hreplaced, span_place, width_eq]
      exact .replace _ _
    | none =>
      have hspelled := isSpelled_place depth offset hn.isSpelled
      rw [rewrites_of_none hreplaced, text_eq depth n, text_eq depth (replace r _),
        childDepth_replace hreplaced, pieces_replace hr hspelled hreplaced,
        children_eq depth (n.place depth offset), pieces_place, childDepth_place]
      refine turns_pieces (fun c hc offset => ?_) offset
      rw [← children_eq depth] at hc
      exact ih c hc (hn.child hc) _ offset

/-! ## Whose edits they are -/

variable {root : Node}

/-- Every edit is for a node that is replaced. -/
theorem exists_of_mem_rewrites (h : Stands root depth n) {e : Edit}
    (he : e ∈ n.rewrites r depth) :
    ∃ depth n m, Stands root depth n ∧ r n = some m ∧ e = ⟨n.span, m.text depth⟩ := by
  induction n using inductionOnChildren generalizing depth with
  | h n ih =>
    cases hreplaced : r n with
    | some m =>
      rw [rewrites_of_some hreplaced] at he
      exact ⟨depth, n, m, h, hreplaced, List.mem_singleton.1 he⟩
    | none =>
      rw [rewrites_of_none hreplaced] at he
      obtain ⟨c, hc, he⟩ := List.mem_flatMap.1 he
      exact ih c hc (h.child hc) he

/-- A node of the tree around another, and longer. -/
structure Encloses (root : Node) (n : Node) (outer : Node) : Prop where
  stands : ∃ depth, Stands root depth outer
  start_le : outer.span.start ≤ n.span.start
  stop_le : n.span.stop ≤ outer.span.stop
  longer : n.span.length < outer.span.length

/-- **Every node that is replaced has its edit**, unless a node around it is
replaced. -/
theorem rewrites_subset_of_stands {tree : Node} (htree : tree.IsWritten)
    (h : Stands tree.laidOut depth n) :
    n.rewrites r depth ⊆ tree.laidOut.rewrites r 0 ∨
      ∃ outer, Encloses tree.laidOut n outer ∧ (r outer).isSome = true := by
  induction h with
  | root => exact .inl (List.Subset.refl _)
  | @child depth n c hn hc ih =>
    have hwithin := (liesIn_of_stands htree hn).span_child hc
    -- Unless something further out is replaced, it depends on the parent.
    rcases ih with hsub | ⟨outer, houter, hreplaced⟩
    · cases hreplaced : r n with
      | some m =>
        exact .inr ⟨n, ⟨⟨depth, hn⟩, hwithin.1, hwithin.2.1, hwithin.2.2⟩, by rw [hreplaced]; rfl⟩
      | none =>
        rw [rewrites_of_none hreplaced] at hsub
        exact .inl fun e he => hsub (List.mem_flatMap.2 ⟨c, hc, he⟩)
    · have hstart := houter.start_le
      have hstop := houter.stop_le
      have hlonger := houter.longer
      unfold Span.length at hlonger
      refine .inr ⟨outer, ⟨houter.stands, ?_, ?_, ?_⟩, hreplaced⟩
      · omega
      · omega
      · unfold Span.length
        omega

end Node

end Codemod
