import Codemod.Proofs.Tree.Nesting
import Codemod.Proofs.Tree.Spacing
/-!
# Laid out trees are faithful

The spans of a laid out tree say where its parts are in the print
(`Node.faithful_laidOut`). Each selects a piece of the text, the one that is
printed of the node as deep as it stands, with the children of the node in order
within it; and the tree is the one that lies in this text, as to lay it out again
changes nothing (`Node.place_place`). But for spans it is the tree that was laid
out, node for node (`Node.unplaced_laidOut`). How deep a node stands is how many blocks
and class bodies are around it (`Place.nesting`). This matters to what has lines
of its own: expressions are printed alike at every depth
(`Node.text_eq_of_isExpression`).
-/

namespace Codemod

open Layout Text

namespace Span

variable {s : Span} {source : String}

/-- What is read in a text lies between characters of it. -/
theorem IsReadIn.splits (h : s.IsReadIn source) :
    Splits source s.start ∧ Splits source s.stop ∧ s.stop ≤ byteCount source := by
  obtain ⟨text, htext⟩ := h
  obtain ⟨l, r, rfl, hstart, hstop⟩ := slice?_eq_some_iff.1 htext
  refine ⟨splits_iff.2 ⟨l, text ++ r, String.append_assoc .., hstart⟩,
    splits_iff.2 ⟨l ++ text, r, rfl, by rw [hstop, byteCount_append]⟩, ?_⟩
  rw [hstop, byteCount_append, byteCount_append]
  exact Nat.le_add_right _ _

end Span

/-- What a node carries, wherever the node lies. -/
def NodeInfo.unplaced (i : NodeInfo) : NodeInfo := { i with span := ⟨0, 0⟩ }

namespace Node

variable {source : String} {n : Node} {depth : Nat}

/-! ## Expressions at every depth -/

theorem textOf_congr {depth' : Nat} {ps : List Piece}
    (h : ∀ c ∈ Piece.nodes ps, c.text depth = c.text depth') :
    Piece.textOf depth ps = Piece.textOf depth' ps := by
  induction ps with
  | nil => rfl
  | cons p ps ih =>
    rw [Piece.textOf_cons, Piece.textOf_cons]
    cases p with
    | own t => rw [ih h, Piece.text, Piece.text]
    | part c =>
      rw [ih fun m hm => h m (List.mem_cons_of_mem _ hm), Piece.text, Piece.text,
        h c List.mem_cons_self]

/-- **Expressions are printed alike at every depth**: only statements and
declarations begin lines. -/
theorem text_eq_of_isExpression (h : ∀ m ∈ n.preorder, m.isExpression = true)
    (depth depth' : Nat) : n.text depth = n.text depth' := by
  induction n using inductionOnChildren with
  | h n ih =>
    rw [preorder_eq, List.forall_mem_cons, List.forall_mem_flatMap] at h
    obtain ⟨hn, hbelow⟩ := h
    -- The pieces of an expression are the same at both depths.
    have hpieces : n.pieces depth = n.pieces depth' := by
      cases n <;> first | rfl | exact absurd hn nofun
    have hchild (d : Nat) : n.childDepth d = d := by
      cases n <;> first | rfl | exact absurd hn nofun
    rw [text_eq, text_eq depth', hchild, hchild, hpieces]
    refine textOf_congr fun c hc => ?_
    rw [← children_eq] at hc
    exact ih c hc (hbelow c hc)

/-! ## Laying out again -/

theorem width_place (depth offset : Nat) (n : Node) :
    (n.place depth offset).width depth = n.width depth := by
  rw [width_eq, width_eq, text_place]

theorem placedInfo_place (depth offset offset' : Nat) (n : Node) :
    placedInfo depth offset (n.place depth offset') = placedInfo depth offset n := by
  rw [placedInfo, width_place, info_place]
  rfl

theorem conditionShift_place (depth offset : Nat) (n : Node) :
    conditionShift (n.place depth offset) = conditionShift n := by
  rw [conditionShift, isParen_place, conditionShift]

theorem conditionWidth_place (depth offset : Nat) (n : Node) :
    conditionWidth (n.place depth offset) = conditionWidth n := by
  funext width
  rw [conditionWidth, isParen_place, conditionWidth]

mutual

/-- **Where a node was placed before does not matter** to where it is placed. -/
theorem place_place (depth offset offset' : Nat) (n : Node) :
    (n.place depth offset').place depth offset = n.place depth offset := by
  have hinfo := placedInfo_place depth offset offset' n
  cases n
  case ident | literal => simp only [place] at hinfo ⊢; rw [hinfo]
  case call =>
    simp only [place] at hinfo ⊢
    simp only [hinfo, place_place depth, placeJoined_placeJoined depth, width_place]
  case block | classDecl =>
    simp only [place] at hinfo ⊢
    simp only [hinfo, placeLines_placeLines (depth + 1)]
  case unit =>
    simp only [place] at hinfo ⊢
    simp only [hinfo, placeJoined_placeJoined depth]
  case ret _ e | localVar _ _ _ e | methodDecl _ _ e =>
    cases e <;> simp only [place] at hinfo ⊢ <;> simp only [hinfo, place_place depth]
  case ifElse _ cond thenBranch elseBranch =>
    cases elseBranch <;> simp only [place] at hinfo ⊢ <;>
      simp only [hinfo, place_place depth, width_place, conditionShift_place,
        conditionWidth_place]
  all_goals
    simp only [place] at hinfo ⊢
    simp only [hinfo, place_place depth, width_place, conditionShift_place, conditionWidth_place]

theorem placeJoined_placeJoined (depth offset offset' : Nat) (ns : List Node) :
    placeJoined depth offset (placeJoined depth offset' ns) = placeJoined depth offset ns := by
  cases ns with
  | nil => rfl
  | cons n rest =>
    simp only [placeJoined, place_place depth, placeJoined_placeJoined depth, width_place]

theorem placeLines_placeLines (depth offset offset' : Nat) (ns : List Node) :
    placeLines depth offset (placeLines depth offset' ns) = placeLines depth offset ns := by
  cases ns with
  | nil => rfl
  | cons n rest =>
    simp only [placeLines, place_place depth, placeLines_placeLines depth, width_place]

end

/-! ## What laying out keeps -/

mutual

/-- The node without its spans. -/
def unplaced : Node → Node
  | .ident i name => .ident i.unplaced name
  | .literal i value => .literal i.unplaced value
  | .select i target name _ => .select i.unplaced (unplaced target) name ⟨0, 0⟩
  | .call i callee args => .call i.unplaced (unplaced callee) (allUnplaced args)
  | .methodRef i target name => .methodRef i.unplaced (unplaced target) name
  | .unary i op operand => .unary i.unplaced op (unplaced operand)
  | .binary i op lhs rhs => .binary i.unplaced op (unplaced lhs) (unplaced rhs)
  | .cast i target expr => .cast i.unplaced target (unplaced expr)
  | .paren i expr => .paren i.unplaced (unplaced expr)
  | .block i stmts => .block i.unplaced (allUnplaced stmts)
  | .exprStmt i expr => .exprStmt i.unplaced (unplaced expr)
  | .ret i none => .ret i.unplaced none
  | .ret i (some expr) => .ret i.unplaced (some (unplaced expr))
  | .localVar i name declared none => .localVar i.unplaced name declared none
  | .localVar i name declared (some init) =>
    .localVar i.unplaced name declared (some (unplaced init))
  | .ifElse i cond thenBranch none => .ifElse i.unplaced (unplaced cond) (unplaced thenBranch) none
  | .ifElse i cond thenBranch (some elseBranch) =>
    .ifElse i.unplaced (unplaced cond) (unplaced thenBranch) (some (unplaced elseBranch))
  | .whileLoop i cond body => .whileLoop i.unplaced (unplaced cond) (unplaced body)
  | .doWhile i body cond => .doWhile i.unplaced (unplaced body) (unplaced cond)
  | .synchronized i lock body => .synchronized i.unplaced (unplaced lock) (unplaced body)
  | .methodDecl i head none => .methodDecl i.unplaced head none
  | .methodDecl i head (some body) => .methodDecl i.unplaced head (some (unplaced body))
  | .classDecl i head members => .classDecl i.unplaced head (allUnplaced members)
  | .unit i items => .unit i.unplaced (allUnplaced items)
termination_by structural n => n

/-- The nodes, each without its spans. -/
def allUnplaced : List Node → List Node
  | [] => []
  | n :: rest => unplaced n :: allUnplaced rest
termination_by structural ns => ns

end

mutual

/-- **To place a node changes spans and nothing else.** -/
theorem unplaced_place (depth offset : Nat) (n : Node) :
    (n.place depth offset).unplaced = n.unplaced := by
  have hinfo (n : Node) (offset : Nat) :
      (placedInfo depth offset n).unplaced = n.info.unplaced := rfl
  cases n
  case ident | literal => rfl
  case call => simp only [place, unplaced, hinfo, info, unplaced_place, allUnplaced_placeJoined]
  case ret _ e => cases e <;> simp only [place, unplaced, hinfo, info, unplaced_place]
  case localVar _ _ _ init =>
    cases init <;> simp only [place, unplaced, hinfo, info, unplaced_place]
  case methodDecl _ _ body =>
    cases body <;> simp only [place, unplaced, hinfo, info, unplaced_place]
  case ifElse _ _ _ elseBranch =>
    cases elseBranch <;> simp only [place, unplaced, hinfo, info, unplaced_place]
  case block | classDecl => simp only [place, unplaced, hinfo, info, allUnplaced_placeLines]
  case unit => simp only [place, unplaced, hinfo, info, allUnplaced_placeJoined]
  all_goals simp only [place, unplaced, hinfo, info, unplaced_place]

theorem allUnplaced_placeJoined (depth offset : Nat) (ns : List Node) :
    allUnplaced (placeJoined depth offset ns) = allUnplaced ns := by
  cases ns with
  | nil => rfl
  | cons n ns => simp only [placeJoined, allUnplaced, unplaced_place, allUnplaced_placeJoined]

theorem allUnplaced_placeLines (depth offset : Nat) (ns : List Node) :
    allUnplaced (placeLines depth offset ns) = allUnplaced ns := by
  cases ns with
  | nil => rfl
  | cons n ns => simp only [placeLines, allUnplaced, unplaced_place, allUnplaced_placeLines]

end

/-- **The laid out tree has the nodes of the tree**, with everything they carry but
their spans. -/
theorem unplaced_laidOut (tree : Node) : tree.laidOut.unplaced = tree.unplaced :=
  unplaced_place 0 0 tree

/-! ## What the spans say -/

/-- The spans of the node say where its parts are in a text that it is printed in
at a nesting depth. -/
structure IsFaithful (source : String) (depth : Nat) (n : Node) : Prop where
  ordered : n.span.start ≤ n.span.stop
  within : n.span.stop ≤ byteCount source
  start_splits : Splits source n.span.start
  stop_splits : Splits source n.span.stop
  /-- The text at the span is the print of the node. -/
  reads : n.span.slice? source = some (n.text depth)
  /-- What is an expression throughout reads as it does alone. -/
  reads_alone : (∀ m ∈ n.preorder, m.isExpression = true) → n.span.slice? source = some n.print
  children_within : ∀ c ∈ n.children, n.span.contains c.span = true
  children_in_order : n.children.Pairwise fun a b => a.span.stop ≤ b.span.start
  /-- The name of a selection ends it, behind what it is selected on. -/
  selection : ∀ info target name nameSpan, n = .select info target name nameSpan →
    target.span.IsBefore nameSpan ∧ nameSpan.stop = n.span.stop ∧
      nameSpan.slice? source = some name

theorem PlacedIn.children_in_order (h : n.PlacedIn source depth) :
    n.children.Pairwise fun a b => a.span.stop ≤ b.span.start := by
  obtain ⟨bare, l, r, rfl, -⟩ := h
  rw [children_eq depth, pieces_place]
  exact pairwise_nodes_place _ _ _

/-- **What is placed in a text has faithful spans.** -/
theorem PlacedIn.isFaithful (h : n.PlacedIn source depth) : n.IsFaithful source depth where
  ordered := h.slice?.1
  within := h.isReadIn.splits.2.2
  start_splits := h.isReadIn.splits.1
  stop_splits := h.isReadIn.splits.2.1
  reads := h.slice?.2
  reads_alone hexpr := by rw [h.slice?.2, text_eq_of_isExpression hexpr depth 0, print]
  children_within _ hc := h.contains_child hc
  children_in_order := h.children_in_order
  selection := by
    rintro info target name nameSpan rfl
    exact ⟨h.select.target_before, h.stop_select, h.select.reads⟩

/-- **A laid out tree is faithful to its print.** At every place the spans say
what is printed there, as deep as the place is; and laid out again, the tree has
the same spans and the same print. -/
theorem faithful_laidOut (tree : Node) :
    (∀ place ∈ tree.laidOut.places, place.node.IsFaithful tree.print place.nesting) ∧
      tree.laidOut.laidOut = tree.laidOut ∧ tree.laidOut.print = tree.print :=
  ⟨fun _ hplace => (placedIn_of_stands (stands_of_mem_places hplace)).isFaithful,
    place_place 0 0 0 tree, text_place 0 0 tree⟩

end Node

end Codemod
