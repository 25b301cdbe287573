import Codemod.Proofs.Scan.PlainPass
import Codemod.Proofs.Tree.Grouping
/-!
# Candidates

A scan meets parentheses and what they enclose, but only what stands in none is a
candidate for a match (`Node.candidates`). Trees of one ungrouped form have
corresponding candidates, one by one (`Node.forall₂_candidates`): nodes of one
ungrouped form, below statements and declarations of the same ungrouped forms.
-/

namespace Codemod

open Template

/-- Two scans meet nodes of one ungrouped form, below nodes that are the same but
for grouping, and if parentheses around what is returned are kept apart, either
both may be returned or neither may. -/
structure Visit.Corresponds (keep : Bool) (v w : Visit) : Prop where
  left : v.node.isParen = false
  right : w.node.isParen = false
  node : v.node.ungroup keep = w.node.ungroup keep
  around : (v.ancestors.filter (!·.isParen)).map (Node.ungroup keep) =
    (w.ancestors.filter (!·.isParen)).map (Node.ungroup keep)
  mayReturn : keep = true → Template.mayReturn v.ancestors.head? =
    Template.mayReturn w.ancestors.head?

namespace Node

variable {keep : Bool} {n m : Node} {above below : List Node}

/-- What a scan meets below some ancestors that does not stand for parentheses. -/
def candidatesUnder (above : List Node) (n : Node) : List Visit :=
  (n.scanVisitsUnder above).filter (!·.node.isParen)

/-- The candidates of a scan, in the order in which it meets them. -/
def candidates (n : Node) : List Visit := n.candidatesUnder []

theorem candidatesUnder_eq (h : n.isParen = false) (above : List Node) :
    n.candidatesUnder above =
      ⟨n, above⟩ :: n.scanChildren.flatMap (candidatesUnder (n :: above)) := by
  rw [candidatesUnder, scanVisitsUnder_eq, List.filter_cons_of_pos (by simp [h]),
    List.filter_flatMap]
  rfl

theorem candidatesUnder_paren (i : NodeInfo) (expr : Node) (above : List Node) :
    (Node.paren i expr).candidatesUnder above = expr.candidatesUnder (.paren i expr :: above) := by
  have hchildren : (Node.paren i expr).scanChildren = [expr] := rfl
  rw [candidatesUnder, scanVisitsUnder_eq, hchildren, List.flatMap_singleton]
  rfl

/-! ## Behind parentheses -/

/-- **The candidates in parentheses are those of what they enclose**, below the
same nodes but for parentheses. Directly in parentheses nothing is returned. -/
theorem exists_candidatesUnder_skipParens (n : Node) (above : List Node) :
    ∃ ancestors, n.candidatesUnder above = n.skipParens.candidatesUnder ancestors ∧
      ancestors.filter (!·.isParen) = above.filter (!·.isParen) ∧
      Template.mayReturn ancestors.head? =
        (!n.isParen && Template.mayReturn above.head?) := by
  cases hparen : n.isParen with
  | false =>
    rw [skipParens_eq_self hparen]
    exact ⟨above, rfl, rfl, by simp⟩
  | true =>
    cases n
    case paren i expr =>
      obtain ⟨ancestors, hsame, haround, hreturn⟩ :=
        exists_candidatesUnder_skipParens expr (.paren i expr :: above)
      exact ⟨ancestors, (candidatesUnder_paren i expr above).trans hsame, haround,
        hreturn.trans (Bool.and_false _)⟩
    all_goals exact absurd hparen (by simp [isParen])

/-! ## Side by side -/

/-- What a scan meets behind the parentheses around a child, and whether it may
be returned there. -/
def behindParens (keep : Bool) (parent c : Node) : Node × Bool :=
  (c.skipParens, keep && !c.isParen && Template.mayReturn (some parent))

theorem skipParens_stripParen (n : Node) : n.stripParen.skipParens = n.skipParens := by
  cases n <;> rfl

/-- **A scan goes on to the same** in a node and in its ungrouped form. -/
theorem map_behindParens_scanChildren (h : n.isParen = false) :
    (n.ungroup keep).scanChildren.map (behindParens keep (n.ungroup keep)) =
      n.scanChildren.map fun c => (behindParens keep n c).map (ungroup keep) id := by
  cases n
  case paren => exact absurd h (by simp [isParen])
  case ret i e =>
    cases e with
    | none => rfl
    | some e =>
      have hparen : (keep && !(regroup keep e (e.ungroup keep)).isParen) =
          (keep && !e.isParen) := by
        cases keep with
        | false => rfl
        | true => exact congrArg (!·) (isParen_ungrouped e)
      simp [scanChildren, children, ungroup, behindParens, skipParens_regroup, skipParens_ungroup,
        Template.mayReturn, hparen]
  case call =>
    simp [scanChildren, children, ungroup, behindParens, skipParens_regroup, skipParens_ungroup,
      ungroups_eq_map, Template.mayReturn, Function.comp_def]
  case block | classDecl | unit =>
    simp [scanChildren, children, ungroup, behindParens, skipParens_ungroup, ungroups_eq_map,
      Template.mayReturn, Function.comp_def]
  case localVar _ _ _ init =>
    cases init <;>
      simp [scanChildren, children, ungroup, behindParens, skipParens_ungroup, Template.mayReturn]
  case methodDecl _ _ body =>
    cases body <;>
      simp [scanChildren, children, ungroup, behindParens, skipParens_ungroup, Template.mayReturn]
  case ifElse _ _ _ elseBranch =>
    cases elseBranch <;>
      simp [scanChildren, ungroup, behindParens, skipParens_ungroup, skipParens_stripParen,
        Template.mayReturn]
  all_goals
    simp [scanChildren, children, ungroup, behindParens, skipParens_ungroup,
      skipParens_stripParen, Template.mayReturn]

/-- What a scan goes on to is met behind its parentheses in corresponding places. -/
theorem corresponds_behindParens (h : Visit.Corresponds keep ⟨n, above⟩ ⟨m, below⟩) {c d : Node}
    (hcd : (behindParens keep n c).map (ungroup keep) id =
      (behindParens keep m d).map (ungroup keep) id) :
    ∃ ancestors ancestors',
      c.candidatesUnder (n :: above) = c.skipParens.candidatesUnder ancestors ∧
      d.candidatesUnder (m :: below) = d.skipParens.candidatesUnder ancestors' ∧
      Visit.Corresponds keep ⟨c.skipParens, ancestors⟩ ⟨d.skipParens, ancestors'⟩ := by
  obtain ⟨ancestors, hsame, haround, hreturn⟩ :=
    exists_candidatesUnder_skipParens c (n :: above)
  obtain ⟨ancestors', hsame', haround', hreturn'⟩ :=
    exists_candidatesUnder_skipParens d (m :: below)
  refine ⟨ancestors, ancestors', hsame, hsame', isParen_skipParens c, isParen_skipParens d,
    congrArg Prod.fst hcd, ?_, ?_⟩
  · rw [haround, haround', List.filter_cons_of_pos (by simp [h.left]),
      List.filter_cons_of_pos (by simp [h.right]), List.map_cons, List.map_cons, h.node, h.around]
  · rintro rfl
    have hmay : (!c.isParen && Template.mayReturn (some n)) =
        (!d.isParen && Template.mayReturn (some m)) := congrArg Prod.snd hcd
    rw [hreturn, hreturn']
    exact hmay

theorem sizeOf_skipParens_le (n : Node) : sizeOf n.skipParens ≤ sizeOf n := by
  cases n
  case paren i expr =>
    have hexpr := sizeOf_skipParens_le expr
    rw [skipParens, Node.paren.sizeOf_spec]
    omega
  all_goals exact Nat.le_refl _

/-- **Corresponding nodes have corresponding candidates below them.** -/
theorem forall₂_candidatesUnder {n m : Node} {above below : List Node}
    (h : Visit.Corresponds keep ⟨n, above⟩ ⟨m, below⟩) :
    List.Forall₂ (Visit.Corresponds keep) (n.candidatesUnder above) (m.candidatesUnder below) := by
  rw [candidatesUnder_eq h.left, candidatesUnder_eq h.right]
  have hviews : n.scanChildren.map (fun c => (behindParens keep n c).map (ungroup keep) id) =
      m.scanChildren.map fun d => (behindParens keep m d).map (ungroup keep) id := by
    rw [← map_behindParens_scanChildren h.left, h.node, map_behindParens_scanChildren h.right]
  rw [← List.forall₂_eq_eq_eq, List.forall₂_map_left_iff, List.forall₂_map_right_iff] at hviews
  have hchildren := (List.forall₂_and_left _ _).2 ⟨fun c hc => hc, hviews⟩
  refine .cons h (List.rel_flatMap hchildren ?_)
  rintro c d ⟨hc, hcd⟩
  obtain ⟨ancestors, ancestors', hsame, hsame', hcore⟩ := corresponds_behindParens h hcd
  have hlt : sizeOf c.skipParens < sizeOf n :=
    Nat.lt_of_le_of_lt (sizeOf_skipParens_le c) (sizeOf_lt_of_mem_scanChildren hc)
  rw [hsame, hsame']
  exact forall₂_candidatesUnder hcore
termination_by n

/-- **Trees of one ungrouped form have corresponding candidates.** -/
theorem forall₂_candidates (h : n.ungrouped keep = m.ungrouped keep) :
    List.Forall₂ (Visit.Corresponds keep) n.candidates m.candidates := by
  obtain ⟨ancestors, hsame, haround, hreturn⟩ := exists_candidatesUnder_skipParens n []
  obtain ⟨ancestors', hsame', haround', hreturn'⟩ := exists_candidatesUnder_skipParens m []
  rw [candidates, candidates, hsame, hsame']
  refine forall₂_candidatesUnder ⟨isParen_skipParens n, isParen_skipParens m, ?_, ?_, ?_⟩
  · rw [← skipParens_ungrouped, h, skipParens_ungrouped]
  · rw [haround, haround']
  · rintro rfl
    rw [hreturn, hreturn', ← isParen_ungrouped, h, isParen_ungrouped]

/-! ## Around a candidate -/

theorem declaresClass_ungroup (h : n.isParen = false) (name : String) :
    Scan.declaresClass name (n.ungroup keep) = Scan.declaresClass name n := by
  cases n
  case paren => exact absurd h (by simp [isParen])
  case ret _ e => cases e <;> rfl
  case localVar _ _ _ init => cases init <;> rfl
  case methodDecl _ _ body => cases body <;> rfl
  case ifElse _ _ _ elseBranch => cases elseBranch <;> rfl
  all_goals rfl

end Node

namespace Visit.Corresponds

variable {keep : Bool} {v w : Visit}

/-- What shows in the ungrouped form of a node is found around both candidates or
around neither. -/
theorem any_eq (h : Visit.Corresponds keep v w) {test : Node → Bool}
    (hparen : ∀ info expr, test (.paren info expr) = false)
    (htest : ∀ n, n.isParen = false → test (n.ungroup keep) = test n) :
    (v.node :: v.ancestors).any test = (w.node :: w.ancestors).any test := by
  have hungroup (ns : List Node) :
      (ns.filter (!·.isParen)).any test =
        ((ns.filter (!·.isParen)).map (Node.ungroup keep)).any test := by
    rw [List.any_map, Bool.eq_iff_iff, List.any_eq_true, List.any_eq_true]
    refine exists_congr fun n => and_congr_right fun hn => ?_
    have hn : n.isParen = false := by simpa using (List.mem_filter.1 hn).2
    rw [Function.comp_apply, htest n hn]
  have hsame : ((v.node :: v.ancestors).filter (!·.isParen)).map (Node.ungroup keep) =
      ((w.node :: w.ancestors).filter (!·.isParen)).map (Node.ungroup keep) := by
    rw [List.filter_cons_of_pos (by simp [h.left]), List.filter_cons_of_pos (by simp [h.right]),
      List.map_cons, List.map_cons, h.node, h.around]
  rw [any_eq_any_filter hparen, hungroup, hsame, ← hungroup, ← any_eq_any_filter hparen]

/-- **Rules are passed over at both candidates or at neither.** -/
theorem passesOver_eq (h : Visit.Corresponds keep v w) {s : Scan}
    (hsuppression : s.suppression = .nowhere ∨ s.suppression = .annotated) (source : String)
    (rule : Rule) : s.passesOver rule v.node v.ancestors =
      { s with source }.passesOver rule w.node w.ancestors := by
  have hdeclares : (v.node :: v.ancestors).any (Scan.declaresClass rule.name) =
      (w.node :: w.ancestors).any (Scan.declaresClass rule.name) :=
    h.any_eq (fun _ _ => rfl) fun n hn => Node.declaresClass_ungroup hn rule.name
  have hsuppressed : s.suppression rule v.node v.ancestors =
      s.suppression rule w.node w.ancestors := by
    rcases hsuppression with hs | hs <;> rw [hs]
    · rfl
    · refine h.any_eq (fun _ _ => rfl) fun n hn => ?_
      unfold Suppression.namesAt
      rw [(Node.kept_ungroup hn).annotations]
  rw [Scan.passesOver, Scan.passesOver, hdeclares, hsuppressed]

end Visit.Corresponds

end Codemod
