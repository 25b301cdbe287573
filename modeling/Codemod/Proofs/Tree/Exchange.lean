import Codemod.Proofs.Edit.Composition
import Codemod.Proofs.Tree.Faithfulness
import Codemod.Proofs.Tree.Operands
import Codemod.Proofs.Tree.Rewriting
/-!
# Exchanging one node

Where one node of a tree is exchanged for another, the print of the tree has the
print of the other in the same gap (`Node.Under.exists_gap`), so that one edit of
the gap makes the print of the tree after the exchange
(`Node.exists_script_of_replace`). Whether every node of that tree binds as
tightly as its position requires is known from the position alone
(`Node.bindsTightly_replace_iff`).
-/

namespace Codemod

open Layout Text

/-- How tightly what stands at the place must bind. A whole tree may bind as it
likes. -/
def Place.required (callee : Nat) (place : Place) : Nat :=
  match place.above with
  | [] => 0
  | parent :: _ => parent.node.required callee parent.child

/-! ## Pieces with another part -/

namespace Piece

variable {depth offset i : Nat} {m : Node}

/-- The pieces with another node for one of the children, counted from zero. -/
def setPart (m : Node) : Nat → List Piece → List Piece
  | _, [] => []
  | i, .own text :: ps => .own text :: setPart m i ps
  | 0, .part _ :: ps => .part m :: ps
  | i + 1, .part n :: ps => .part n :: setPart m i ps

/-- Text behind the parts stays. -/
theorem setPart_append_own (ps : List Piece) (t : String) :
    setPart m i (ps ++ [.own t]) = setPart m i ps ++ [.own t] := by
  induction ps generalizing i with
  | nil => rfl
  | cons p ps ih =>
    cases p with
    | own t => exact congrArg (_ :: ·) ih
    | part n =>
      cases i with
      | zero => rfl
      | succ i => exact congrArg (_ :: ·) ih

theorem setPart_lined (ns : List Node) :
    setPart m i (lined depth ns) = lined depth (ns.set i m) := by
  have hlined : ∀ n rest, lined depth (n :: rest) = .own (newline depth) :: .part n ::
    lined depth rest := fun _ _ => rfl
  induction ns generalizing i with
  | nil => rfl
  | cons n rest ih =>
    cases i with
    | zero => rfl
    | succ i => rw [List.set_cons_succ, hlined, hlined, setPart, setPart, ih]

theorem setPart_joined (sep : String) (ns : List Node) :
    setPart m i (joined sep ns) = joined sep (ns.set i m) := by
  have hjoined : ∀ n c rest, joined sep (n :: c :: rest) = .part n :: .own sep ::
    joined sep (c :: rest) := fun _ _ _ => rfl
  induction ns generalizing i with
  | nil => rfl
  | cons n rest ih =>
    cases rest with
    | nil => cases i <;> rfl
    | cons c rest =>
      match i with
      | 0 => rfl
      | 1 => rw [hjoined, setPart, setPart, ih]; rfl
      | i + 2 => rw [hjoined, setPart, setPart, ih]; rfl

theorem enclosed_of_isParen {cond : Node} (h : cond.isParen = true) :
    enclosed cond = [.part cond] :=
  if_pos h

/-- **A part is printed in a gap between texts**, which other parts fill as
well. -/
theorem exists_gap {ps : List Piece} {c : Node}
    (hc : (nodes (place depth offset ps))[i]? = some c) :
    ∃ l r, c.span.start = offset + byteCount l ∧
      textOf depth (place depth offset ps) = l ++ c.text depth ++ r ∧
      ∀ m, textOf depth (setPart m i (place depth offset ps)) = l ++ m.text depth ++ r := by
  induction ps generalizing i offset with
  | nil => exact absurd hc nofun
  | cons p ps ih =>
    cases p with
    | own t =>
      obtain ⟨l, r, hstart, htext, hset⟩ := ih hc
      refine ⟨t ++ l, r, by rw [hstart, byteCount_append, Nat.add_assoc], ?_, fun m => ?_⟩
      · rw [place, textOf_cons, htext, text]
        simp only [String.append_assoc]
      · rw [place, setPart, textOf_cons, hset, text]
        simp only [String.append_assoc]
    | part n =>
      cases i with
      | zero =>
        -- This is the part, and all pieces behind it come after the gap.
        obtain rfl := Option.some.inj hc
        refine ⟨"", textOf depth (place depth (offset + n.width depth) ps), ?_, ?_, fun m => ?_⟩
        · rw [Node.span_place, byteCount_empty, Nat.add_zero]
        · rw [place, textOf_cons, text, String.empty_append]
        · rw [place, setPart, textOf_cons, text, String.empty_append]
      | succ i =>
        obtain ⟨l, r, hstart, htext, hset⟩ := ih hc
        refine ⟨n.text depth ++ l, r, ?_, ?_, fun m => ?_⟩
        · rw [hstart, byteCount_append, Node.width_eq, Nat.add_assoc]
        · rw [place, textOf_cons, htext, text, Node.text_place]
          simp only [String.append_assoc]
        · rw [place, setPart, textOf_cons, hset, text, Node.text_place]
          simp only [String.append_assoc]

end Piece

/-- A finding with one edit of a stretch of the source makes a script of that
edit. -/
theorem EditScript.exists_script_of_edit {f : Finding} {e : Edit} {source text : String}
    (hf : f.edits = [e]) (hslice : e.span.slice? source = some text) :
    ∃ script, compose [f] source = .ok script ∧ script.edits = [e] := by
  have hproposals : [f].flatMap (fun f => f.edits.map (f.rule, ·)) = [(f.rule, e)] := by
    rw [List.flatMap_singleton, hf, List.map_singleton]
  have hdistinct : distinct [(f.rule, e)] = [e] :=
    distinct_eq (fun _ => Iff.rfl) (List.pairwise_singleton _ _)
  rw [compose, hproposals, ofProposals_eq_ok]
  · exact ⟨_, rfl, hdistinct⟩
  · exact List.forall_mem_singleton.2 (checkBounds_eq_ok hslice)
  · exact List.forall_mem_singleton.2 (List.forall_mem_singleton.2 (Edit.conflictsWith_self _))

namespace Node

open Piece

variable {depth i callee : Nat} {c m n root tree : Node} {above : List Ancestor} {place : Place}

/-! ## Prints with another child -/

theorem childDepth_withChildren (cs : List Node) :
    (n.withChildren cs).childDepth depth = n.childDepth depth := by
  unfold withChildren
  split <;> rfl

theorem isParen_withChildren (cs : List Node) : (n.withChildren cs).isParen = n.isParen := by
  unfold withChildren
  split <;> rfl

/-- **A node with another child is printed with another part.** A condition is
exchanged for what stands in parentheses only. -/
theorem pieces_withChild (hspelled : n.IsSpelled) (hc : n.children[i]? = some c)
    (hm : c.isParen = true → m.isParen = true) :
    (n.withChild i m).pieces depth = Piece.setPart m i (n.pieces depth) := by
  cases n
  case ident | literal => simp [children] at hc
  case call =>
    cases i with
    | zero => rfl
    | succ i =>
      simp [withChild, withChildren, children, pieces, setPart, setPart_append_own,
        setPart_joined]
  case block | classDecl =>
    simp [withChild, withChildren, children, pieces, setPart, setPart_append_own, setPart_lined]
  case unit =>
    simp [withChild, withChildren, children, pieces, setPart_append_own, setPart_joined]
  case binary =>
    rcases i with _ | _ | i
    · rfl
    · rfl
    · simp [children] at hc
  case ret _ e | localVar _ _ _ e | methodDecl _ _ e =>
    cases e with
    | none => simp [children] at hc
    | some e =>
      rcases i with _ | i
      · rfl
      · simp [children] at hc
  case ifElse _ cond _ elseBranch =>
    have hcond := enclosed_of_isParen (show cond.isParen = true from hspelled)
    rcases i with _ | _ | _ | i
    · have hnew := enclosed_of_isParen (hm (Option.some.inj hc ▸ hspelled))
      cases elseBranch <;>
        simp [withChild, withChildren, children, pieces, setPart, hcond, hnew]
    · cases elseBranch <;> simp [withChild, withChildren, children, pieces, setPart, hcond]
    · cases elseBranch with
      | none => simp [children] at hc
      | some _ => simp [withChild, withChildren, children, pieces, setPart, hcond]
    · cases elseBranch <;> simp [children] at hc
  case whileLoop _ cond _ | synchronized _ cond _ =>
    have hcond := enclosed_of_isParen (show cond.isParen = true from hspelled)
    rcases i with _ | _ | i
    · have hnew := enclosed_of_isParen (hm (Option.some.inj hc ▸ hspelled))
      simp [withChild, withChildren, children, pieces, setPart, hcond, hnew]
    · simp [withChild, withChildren, children, pieces, setPart, hcond]
    · simp [children] at hc
  case doWhile _ _ cond =>
    have hcond := enclosed_of_isParen (show cond.isParen = true from hspelled)
    rcases i with _ | _ | i
    · rfl
    · have hnew := enclosed_of_isParen (hm (Option.some.inj hc ▸ hspelled))
      simp [withChild, withChildren, children, pieces, setPart, hcond, hnew]
    · simp [children] at hc
  all_goals
    rcases i with _ | i
    · rfl
    · simp [children] at hc

/-- **What lies in a text has a gap for each child**, which other children fill as
well. -/
theorem LiesIn.exists_gap {source : String} (h : n.LiesIn source depth)
    (hc : n.children[i]? = some c) :
    ∃ l r, c.span.start = n.span.start + byteCount l ∧
      n.text depth = l ++ c.text (n.childDepth depth) ++ r ∧
      ∀ m : Node, (c.isParen = true → m.isParen = true) →
        (n.withChild i m).text depth = l ++ m.text (n.childDepth depth) ++ r := by
  obtain ⟨bare, before, after, hplace, hwritten, -⟩ := h
  have hspelled : n.IsSpelled := hplace ▸ isSpelled_place depth _ hwritten.isSpelled
  have hpieces : n.pieces depth =
      Piece.place (n.childDepth depth) n.span.start (bare.pieces depth) := by
    rw [hplace, childDepth_place, span_place, pieces_place]
  have hchild := hc
  rw [children_eq depth, hpieces] at hchild
  obtain ⟨l, r, hstart, htext, hset⟩ := Piece.exists_gap hchild
  refine ⟨l, r, hstart, by rw [text_eq, hpieces, htext], fun m hm => ?_⟩
  rw [text_eq, withChild, childDepth_withChildren, ← withChild, pieces_withChild hspelled hc hm,
    hpieces, hset]

/-- **A place is printed in a gap of the print of the tree**, and whatever is put
there is printed in that gap. Parentheses have to stay parentheses, as they may be
those of a condition. -/
theorem Under.exists_gap (htree : tree.IsWritten) (h : tree.laidOut.Under n above) :
    ∃ l r, n.span.start = byteCount l ∧
      tree.print = l ++ n.text (Place.mk n above).nesting ++ r ∧
      ∀ m : Node, (n.isParen = true → m.isParen = true) →
        (Place.replace ⟨n, above⟩ m).print = l ++ m.text (Place.mk n above).nesting ++ r := by
  induction h with
  | root =>
    refine ⟨"", "", ?_, ?_, fun m _ => ?_⟩
    · rw [laidOut, span_place, byteCount_empty]
    · rw [String.empty_append, String.append_empty, laidOut]
      exact (text_place 0 0 tree).symm
    · rw [String.empty_append, String.append_empty]
      rfl
  | @child n c above i hn hc ih =>
    obtain ⟨l, r, hstart, hprint, hreplace⟩ := ih
    obtain ⟨l', r', hstart', htext, hwith⟩ := (liesIn_of_stands htree hn.stands).exists_gap hc
    rw [nesting_child]
    refine ⟨l ++ l', r' ++ r, ?_, ?_, fun m hm => ?_⟩
    · rw [hstart', hstart, byteCount_append]
    · rw [hprint, htext]
      simp only [String.append_assoc]
    · have hparen : n.isParen = true → (n.withChild i m).isParen = true := fun h => by
        rwa [withChild, isParen_withChildren]
      refine (hreplace _ hparen).trans ?_
      rw [hwith m hm]
      simp only [String.append_assoc]

/-! ## The edit of a gap -/

/-- **One edit exchanges the print of a node.** A finding that proposes no more
than the print of another node where a node stands makes a script, which turns the
print of the tree into the print of the tree after the exchange. -/
theorem exists_script_of_replace (htree : tree.IsWritten) (h : place ∈ tree.laidOut.places)
    (hm : place.node.isParen = true → m.isParen = true) {f : Finding}
    (hf : f.edits = [⟨place.node.span, m.text place.nesting⟩]) :
    ∃ script, EditScript.compose [f] tree.print = .ok script ∧
      script.apply tree.print = (place.replace m).print := by
  obtain ⟨l, r, hstart, hprint, hreplace⟩ := (under_of_mem_places h).exists_gap htree
  have hslice := (placedIn_of_stands (stands_of_mem_places h)).slice?.2
  have hspan : place.node.span = ⟨0 + byteCount l, 0 + byteCount l +
      byteCount (place.node.text place.nesting)⟩ := by
    obtain ⟨before, -, -, hbegin, hend⟩ := slice?_eq_some_iff.1 hslice
    rw [hbegin] at hstart
    rw [hstart] at hbegin hend
    rw [Nat.zero_add]
    exact congrArg₂ Span.mk hbegin hend
  -- The text before the gap is kept, then the gap is filled, then the rest is kept.
  have hturns : Turns 0 [⟨place.node.span, m.text place.nesting⟩] tree.print
      (place.replace m).print := by
    rw [hspan, hprint, hreplace m hm, String.append_assoc, String.append_assoc]
    exact Turns.append (.keep l) (.append (.replace _ _) (.keep r))
  obtain ⟨script, hcompose, hedits⟩ := EditScript.exists_script_of_edit hf hslice
  refine ⟨script, hcompose, ?_⟩
  rw [EditScript.apply, hedits]
  exact hturns.applyFrom_eq

/-! ## Binding after the exchange -/

/-- What is put at a place is part of the tree after the exchange. -/
theorem BindsTightly.of_replace (h : root.Under n above)
    (hbinds : (Place.replace ⟨n, above⟩ m).BindsTightly callee) : m.BindsTightly callee := by
  induction h generalizing m with
  | root => exact hbinds
  | @child n c above i _ hc ih =>
    obtain ⟨hi, -⟩ := List.getElem?_eq_some_iff.1 hc
    have hparent : (n.withChild i m).BindsTightly callee := ih hbinds
    refine hparent.child ?_
    rw [children_withChild]
    exact List.mem_set hi m

/-- **A tree after an exchange has every node bind as tightly as its position
requires** if and only if what was put in does, throughout and at its place. -/
theorem bindsTightly_replace_iff (hroot : root.BindsTightly callee) (h : place ∈ root.places) :
    (place.replace m).BindsTightly callee ↔
      m.BindsTightly callee ∧ place.required callee ≤ m.precedence := by
  have hunder := under_of_mem_places h
  obtain ⟨n, above⟩ := place
  cases hunder with
  | root => exact ⟨fun hm => ⟨hm, Nat.zero_le _⟩, And.left⟩
  | @child n c above i hn hc =>
    obtain ⟨hi, -⟩ := List.getElem?_eq_some_iff.1 hc
    constructor
    · intro hbinds
      have hparent : (n.withChild i m).BindsTightly callee := .of_replace hn hbinds
      have hchild : (n.withChild i m).children[i]? = some m := by
        rw [children_withChild, List.getElem?_set_self hi]
      have hle := (bindsTightly_iff.1 hparent).1 i m hchild
      rw [required_withChild] at hle
      exact ⟨.of_replace (hn.child hc) hbinds, hle⟩
    · rintro ⟨hm, hle⟩
      obtain ⟨hwith, hprecedence⟩ := (hroot.of_under hn).withChild hc hm hle
      have hreplaced : (Place.replace ⟨n, above⟩ (n.withChild i m)).BindsTightly callee :=
        hroot.replace hn hwith (Nat.le_of_eq hprecedence.symm)
      exact hreplaced

end Node

end Codemod
