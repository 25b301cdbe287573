import Codemod.Proofs.Tree.Pieces
import Codemod.Scan.Visits
import Codemod.Tree.Walk
/-!
# Where nodes stand

A node stands in a tree at a nesting depth when children lead to it
(`Node.Stands`). In the tree as it lies in its print, every such node spans the
very text that is printed of it at that depth (`Node.LiesIn`,
`Node.liesIn_of_stands`), as the pieces of each print show. Where all names have
letters no node is printed as nothing (`Node.width_pos`), and so every span has
bytes.
-/

namespace Codemod

open Layout Text

/-! ## Induction on trees -/

/-- What holds of every node whose children it holds of, holds of all nodes. -/
theorem Node.inductionOnChildren {P : Node → Prop} (h : ∀ n, (∀ c ∈ n.children, P c) → P n)
    (n : Node) : P n :=
  h n fun c hc =>
    have : sizeOf c < sizeOf n := Node.sizeOf_lt_of_mem_children hc
    Node.inductionOnChildren h c
termination_by sizeOf n

/-! ## Literals have text -/

namespace Literal

theorem ofList_ne_empty {cs : List Char} (h : cs ≠ []) : String.ofList cs ≠ "" := by
  intro hempty
  exact h (by simpa using congrArg String.toList hempty)

theorem positional_ne_empty (d : Decimal) : Decimal.positional d ≠ "" := by
  unfold Decimal.positional
  dsimp only
  split
  · refine ofList_ne_empty fun hnil => ?_
    exact Nat.toDigits_ne_nil (List.append_eq_nil_iff.1 hnil).1
  · exact ofList_ne_empty (by simp)

/-- Every literal is written as something. -/
theorem toSource_ne_empty (l : Literal) : l.toSource ≠ "" := by
  cases l with
  | int n =>
    have hdigits (m : Nat) : m.repr ≠ "" := by
      rw [Nat.repr_eq_ofList_toDigits]
      exact ofList_ne_empty Nat.toDigits_ne_nil
    rw [toSource, Int.toString_eq_repr, Int.repr_eq_if]
    split
    · exact hdigits _
    · simp
  | float x =>
    rw [toSource, floatSource]
    dsimp only
    split
    · decide
    split
    · simp
    split
    · simp
    · intro hempty
      have hparts := String.append_eq_empty_iff.1 hempty
      exact positional_ne_empty _ (String.append_eq_empty_iff.1 hparts.1).2
  | bool b => cases b <;> decide
  | char c => simp [toSource, quoted]
  | str s => simp [toSource, quoted]
  | null => decide

end Literal

namespace Node

/-! ## Trees that are written out -/

/-- The node is written out: a name has letters, and a condition stands in
parentheses of its own. -/
def IsSpelled : Node → Prop
  | .ident _ name => name ≠ ""
  | .ifElse _ cond _ _ | .whileLoop _ cond _ | .doWhile _ _ cond => cond.isParen = true
  | .synchronized _ lock _ => lock.isParen = true
  | _ => True

/-- All nodes of the tree are written out. -/
def IsWritten (n : Node) : Prop := ∀ m ∈ n.preorder, m.IsSpelled

variable {depth : Nat} {c n : Node}

theorem isWritten_iff :
    n.IsWritten ↔ n.IsSpelled ∧ ∀ c ∈ n.children, c.IsWritten := by
  unfold IsWritten
  rw [preorder_eq, List.forall_mem_cons, List.forall_mem_flatMap]

theorem IsWritten.isSpelled (h : n.IsWritten) : n.IsSpelled := (isWritten_iff.1 h).1

theorem IsWritten.child (h : n.IsWritten) (hc : c ∈ n.children) : c.IsWritten :=
  (isWritten_iff.1 h).2 c hc

/-- **What is written out is printed as something.** -/
theorem width_pos (h : n.IsWritten) : 0 < n.width depth := by
  cases hchildren : n.children with
  | cons c rest =>
    have hc : c ∈ n.children := by rw [hchildren]; exact List.mem_cons_self
    exact Nat.zero_lt_of_lt (width_lt_of_mem_children hc)
  | nil =>
    -- What has no children is printed as text of its own.
    have hpos {t : String} (ht : t ≠ "") : 0 < byteCount t :=
      Nat.pos_of_ne_zero fun hzero => ht (byteCount_eq_zero_iff.1 hzero)
    cases n
    case ident name => exact hpos h.isSpelled
    case literal value => exact hpos value.toSource_ne_empty
    case ret _ e =>
      cases e with
      | none => exact Nat.succ_pos _
      | some e => exact absurd hchildren nofun
    case localVar _ _ _ init =>
      cases init with
      | none => exact Nat.succ_pos _
      | some e => exact absurd hchildren nofun
    case methodDecl _ _ body =>
      cases body with
      | none => exact Nat.succ_pos _
      | some e => exact absurd hchildren nofun
    case block => exact Nat.succ_pos _
    case classDecl => exact Nat.succ_pos _
    case unit => exact Nat.succ_pos _
    all_goals exact absurd hchildren nofun

/-! ## Placed nodes -/

theorem info_place (depth offset : Nat) (n : Node) :
    (n.place depth offset).info = placedInfo depth offset n := by
  cases n
  case ret _ e => cases e <;> rfl
  case localVar _ _ _ init => cases init <;> rfl
  case methodDecl _ _ body => cases body <;> rfl
  case ifElse _ _ _ elseBranch => cases elseBranch <;> rfl
  all_goals rfl

theorem span_place (depth offset : Nat) (n : Node) :
    (n.place depth offset).span = ⟨offset, offset + n.width depth⟩ := by
  rw [span, info_place]
  rfl

theorem childDepth_place (depth depth' offset : Nat) (n : Node) :
    (n.place depth offset).childDepth depth' = n.childDepth depth' := by
  cases n
  case ret _ e => cases e <;> rfl
  case localVar _ _ _ init => cases init <;> rfl
  case methodDecl _ _ body => cases body <;> rfl
  case ifElse _ _ _ elseBranch => cases elseBranch <;> rfl
  all_goals rfl

/-- **Placing a node does not change its print.** -/
theorem text_place (depth offset : Nat) (n : Node) :
    (n.place depth offset).text depth = n.text depth := by
  induction n using inductionOnChildren generalizing depth offset with
  | h n ih =>
    rw [text_eq, text_eq depth n, childDepth_place, pieces_place]
    refine Piece.textOf_place (fun c hc offset => ih c ?_ _ offset) offset
    rwa [children_eq depth]

/-! ## Standing and lying -/

/-- Children lead from the tree to a node at a nesting depth. -/
inductive Stands (root : Node) : Nat → Node → Prop
  | root : Stands root 0 root
  | child {depth : Nat} {n c : Node} :
      Stands root depth n → c ∈ n.children → Stands root (n.childDepth depth) c

/-- **A walk of the tree meets all that a walk of what stands in it meets.** -/
theorem Stands.preorder_subset {root : Node} (h : Stands root depth n) :
    n.preorder ⊆ root.preorder := by
  induction h with
  | root => exact List.Subset.refl _
  | @child depth n c _ hc ih =>
    refine List.Subset.trans (fun m hm => ?_) ih
    rw [preorder_eq]
    exact List.mem_cons_of_mem _ (List.mem_flatMap.2 ⟨c, hc, hm⟩)

theorem Stands.mem_preorder {root : Node} (h : Stands root depth n) : n ∈ root.preorder :=
  h.preorder_subset (by rw [preorder_eq]; exact List.mem_cons_self)

variable {source : String} {root : Node}

/-- The node is what some node becomes when it is placed where the source has
its print. -/
def PlacedIn (source : String) (depth : Nat) (n : Node) : Prop :=
  ∃ bare l r, n = place depth (byteCount l) bare ∧ source = l ++ bare.text depth ++ r

/-- **What is placed in the source has its children placed there.** -/
theorem PlacedIn.child (h : PlacedIn source depth n) (hc : c ∈ n.children) :
    PlacedIn source (n.childDepth depth) c := by
  obtain ⟨bare, l, r, rfl, hsource⟩ := h
  obtain ⟨m, hm, before, after, rfl, htext⟩ := exists_of_mem_children_place hc
  rw [childDepth_place]
  refine ⟨m, l ++ before, after ++ r, rfl, ?_⟩
  rw [hsource, htext]
  simp only [String.append_assoc]

/-- **Every node of a laid out tree is placed in the print.** -/
theorem placedIn_of_stands {tree : Node} (h : Stands tree.laidOut depth n) :
    PlacedIn tree.print depth n := by
  induction h with
  | root => exact ⟨tree, "", "", rfl, by simp [print]⟩
  | child _ hc ih => exact ih.child hc

/-- The source reads as the print of what is placed in it. -/
theorem PlacedIn.slice? (h : PlacedIn source depth n) :
    n.span.start ≤ n.span.stop ∧ n.span.slice? source = some (n.text depth) := by
  obtain ⟨bare, l, r, rfl, hsource⟩ := h
  rw [span_place, text_place]
  refine ⟨Nat.le_add_right _ _, slice?_eq_some_iff.2 ⟨l, r, hsource, rfl, ?_⟩⟩
  rw [width_eq]

/-- **A child spans part of its parent**, and not all of it. -/
theorem PlacedIn.span_child (h : PlacedIn source depth n) (hc : c ∈ n.children) :
    n.span.start ≤ c.span.start ∧ c.span.stop ≤ n.span.stop ∧
      c.span.stop - c.span.start < n.span.stop - n.span.start := by
  obtain ⟨bare, l, r, rfl, -⟩ := h
  obtain ⟨m, hm, before, after, rfl, htext⟩ := exists_of_mem_children_place hc
  have hlt : m.width (bare.childDepth depth) < bare.width depth := width_lt_of_mem_children hm
  have hwidth := congrArg byteCount htext
  rw [byteCount_append, byteCount_append, ← width_eq, ← width_eq] at hwidth
  rw [span_place, span_place, byteCount_append]
  dsimp only
  omega

/-- The node is what a written node becomes when it is placed where the source
has its print. -/
def LiesIn (source : String) (depth : Nat) (n : Node) : Prop :=
  ∃ bare l r, n = place depth (byteCount l) bare ∧ bare.IsWritten ∧
    source = l ++ bare.text depth ++ r

theorem LiesIn.placedIn (h : LiesIn source depth n) : PlacedIn source depth n := by
  obtain ⟨bare, l, r, hplace, -, hsource⟩ := h
  exact ⟨bare, l, r, hplace, hsource⟩

/-- **What lies in the source has its children lie there.** -/
theorem LiesIn.child (h : LiesIn source depth n) (hc : c ∈ n.children) :
    LiesIn source (n.childDepth depth) c := by
  obtain ⟨bare, l, r, rfl, hwritten, hsource⟩ := h
  obtain ⟨m, hm, before, after, rfl, htext⟩ := exists_of_mem_children_place hc
  rw [childDepth_place]
  refine ⟨m, l ++ before, after ++ r, rfl, hwritten.child hm, ?_⟩
  rw [hsource, htext]
  simp only [String.append_assoc]

/-- **Every node of a laid out tree lies in the print.** -/
theorem liesIn_of_stands {tree : Node} (htree : tree.IsWritten)
    (h : Stands tree.laidOut depth n) : LiesIn tree.print depth n := by
  induction h with
  | root => exact ⟨tree, "", "", rfl, htree, by simp [print]⟩
  | child _ hc ih => exact ih.child hc

/-- What lies in the source has a span with bytes, where the source reads as
its print. -/
theorem LiesIn.slice? (h : LiesIn source depth n) :
    n.span.start < n.span.stop ∧ n.span.slice? source = some (n.text depth) := by
  refine ⟨?_, h.placedIn.slice?.2⟩
  obtain ⟨bare, l, r, rfl, hwritten, -⟩ := h
  have hpos : 0 < bare.width depth := width_pos hwritten
  rw [span_place]
  dsimp only
  omega

/-- A child spans part of its parent, and not all of it. -/
theorem LiesIn.span_child (h : LiesIn source depth n) (hc : c ∈ n.children) :
    n.span.start ≤ c.span.start ∧ c.span.stop ≤ n.span.stop ∧
      c.span.stop - c.span.start < n.span.stop - n.span.start :=
  h.placedIn.span_child hc

/-! ## Pieces one after another -/

/-- Placed pieces start where the first is placed, or later. -/
theorem le_start_of_mem_place {ps : List Piece} {offset : Nat}
    (hc : c ∈ Piece.nodes (Piece.place depth offset ps)) : offset ≤ c.span.start := by
  induction ps generalizing offset with
  | nil => exact absurd hc List.not_mem_nil
  | cons p ps ih =>
    cases p with
    | own t => exact Nat.le_of_add_right_le (ih hc)
    | part n =>
      rcases List.mem_cons.1 hc with rfl | hc
      · exact Nat.le_of_eq (congrArg Span.start (span_place depth offset n)).symm
      · exact Nat.le_of_add_right_le (ih hc)

theorem pairwise_nodes_place (depth offset : Nat) (ps : List Piece) :
    (Piece.nodes (Piece.place depth offset ps)).Pairwise fun a b =>
      a.span.stop ≤ b.span.start := by
  induction ps generalizing offset with
  | nil => exact .nil
  | cons p ps ih =>
    cases p with
    | own t => exact ih _
    | part n =>
      refine List.pairwise_cons.2 ⟨fun c hc => ?_, ih _⟩
      rw [span_place]
      exact le_start_of_mem_place hc

/-! ## Nodes that a scan meets -/

theorem Stands.skipParens (h : Stands root depth n) : Stands root depth n.skipParens := by
  induction n using inductionOnChildren with
  | h n ih =>
    cases n
    case paren _ expr => exact ih expr List.mem_cons_self (h.child List.mem_cons_self)
    all_goals exact h

theorem Stands.stripParen (h : Stands root depth n) : Stands root depth n.stripParen := by
  cases n
  case paren => exact h.child List.mem_cons_self
  all_goals exact h

/-- The nodes that a scan goes on to stand in the tree too. -/
theorem Stands.scanChild (h : Stands root depth n) (hc : c ∈ n.scanChildren) :
    Stands root (n.childDepth depth) c := by
  cases n
  case ifElse _ cond thenBranch elseBranch =>
    rcases List.mem_cons.1 hc with rfl | hc
    · exact (h.child List.mem_cons_self).stripParen
    · exact h.child (List.mem_cons_of_mem _ hc)
  case whileLoop _ cond body =>
    rcases List.mem_cons.1 hc with rfl | hc
    · exact (h.child List.mem_cons_self).stripParen
    · exact h.child (List.mem_cons_of_mem _ hc)
  case synchronized _ lock body =>
    rcases List.mem_cons.1 hc with rfl | hc
    · exact (h.child List.mem_cons_self).stripParen
    · exact h.child (List.mem_cons_of_mem _ hc)
  case doWhile _ body cond =>
    rcases List.mem_cons.1 hc with rfl | hc
    · exact h.child List.mem_cons_self
    · obtain rfl := List.mem_singleton.1 hc
      exact (h.child (List.mem_cons_of_mem _ (List.mem_singleton_self _))).stripParen
  all_goals exact h.child hc

/-- **Every node that a scan visits stands in the tree.** -/
theorem exists_stands_of_mem_scanVisits {visit : Visit} (h : visit ∈ root.scanVisits) :
    ∃ depth, Stands root depth visit.node := by
  have hunder : ∀ (n : Node) (ancestors : List Node) (depth : Nat), Stands root depth n →
      visit ∈ n.scanVisitsUnder ancestors → ∃ depth, Stands root depth visit.node := by
    intro n
    induction hsize : sizeOf n using Nat.strongRecOn generalizing n with
    | ind size ih =>
      intro ancestors depth hstands hvisit
      rw [scanVisitsUnder_eq] at hvisit
      -- The scan meets the node itself, and then what it meets below.
      rcases List.mem_cons.1 hvisit with rfl | hvisit
      · exact ⟨depth, hstands⟩
      · obtain ⟨c, hc, hvisit⟩ := List.mem_flatMap.1 hvisit
        have hlt : sizeOf c < size := hsize ▸ sizeOf_lt_of_mem_scanChildren hc
        exact ih _ hlt c rfl _ _ (hstands.scanChild hc) hvisit
  exact hunder root [] 0 .root h

end Node

end Codemod
