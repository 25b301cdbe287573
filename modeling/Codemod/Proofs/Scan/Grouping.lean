import Codemod.Proofs.Scan.Candidates
import Codemod.Proofs.Scan.Reports
import Codemod.Proofs.Template.Grouping
import Codemod.Proofs.Template.Rendering
import Codemod.Proofs.Template.Windows
/-!
# Scans of grouped code

Trees of one ungrouped form are scanned alike, each in its own print: both scans
fail for the same reason, or make corresponding findings one by one
(`Scan.related_findings`). What parentheses do change is what may be returned,
since the parent of what stands in them is a parenthesis. Where a template is a
placeholder for what is returned, the parentheses around returned expressions
belong to the form.
-/

namespace Codemod

open Outcome Template

/-- Two findings say the same of corresponding candidates of two trees. -/
structure Finding.Corresponds (keep : Bool) (a b : Node) (f g : Finding) : Prop where
  rule : f.rule = g.rule
  nodeKind : f.nodeKind = g.nodeKind
  place : ∃ v w, (v, w) ∈ a.candidates.zip b.candidates ∧
    v.node.ungroup keep = w.node.ungroup keep ∧ SamePart v.node w.node f.span g.span
  bindings : f.bindings.ungroup keep = g.bindings.ungroup keep
  imports : f.fixes.map (·.imports) = g.fixes.map (·.imports)

/-! ## Comments -/

/-- **The same part of two nodes** contains a comment in both or in neither. -/
theorem SamePart.contains_eq {keep : Bool} {n m : Node} {x y : Span} (h : SamePart n m x y)
    (hsame : n.ungroup keep = m.ungroup keep) (hn : n.HasStatements) (hm : m.HasStatements)
    {source source' : String} {depth depth' : Nat} (hplaced : n.PlacedIn source depth)
    (hplaced' : m.PlacedIn source' depth') :
    ∃ text text', x.slice? source = some text ∧ y.slice? source' = some text' ∧
      Comment.contains text = Comment.contains text' := by
  cases h with
  | whole =>
    exact ⟨_, _, hplaced.slice?.2, hplaced'.slice?.2, hn.contains_text_eq hm hsame depth depth'⟩
  | @run i i' ns ms j k hk hns hms =>
    have hrun {ns : List Node} (hns : j + k ≤ ns.length) :
        (ns.drop j).take k ∈ windows k ns := by
      rw [windows_eq_map hk]
      exact List.mem_map.2 ⟨j, List.mem_range.2 (by omega), rfl⟩
    have hk : k ≠ 0 := Nat.pos_iff_ne_zero.1 hk
    refine ⟨_, _, slice?_spanOf_of_placedIn hplaced hk (hrun hns),
      slice?_spanOf_of_placedIn hplaced' hk (hrun hms), ?_⟩
    have hpart {i : NodeInfo} {ns : List Node} (hblock : (Node.block i ns).HasStatements) :
        ∀ c ∈ (ns.drop j).take k, c.HasStatements ∧ c.isExpression = false := fun c hc => by
      have hmem : c ∈ ns := List.mem_of_mem_drop (List.mem_of_mem_take hc)
      obtain ⟨hkinds, hchildren⟩ := Node.hasStatements_iff.1 hblock
      exact ⟨hchildren c hmem, hkinds c hmem⟩
    obtain ⟨-, hcodes⟩ := Node.block.inj hsame
    rw [Node.ungroups_eq_map, Node.ungroups_eq_map] at hcodes
    have hsame : ((ns.drop j).take k).map (Node.ungroup keep) =
        ((ms.drop j).take k).map (Node.ungroup keep) := by
      rw [List.map_take, List.map_drop, hcodes, List.map_take, List.map_drop]
    exact Node.contains_lines_eq (hpart hn) (hpart hm) hsame _ _

/-! ## At a candidate -/

namespace Scan

variable {s : Scan} {keep : Bool} {a b : Node} {v w : Visit} {source : String} {rule : Rule}

/-- What is proposed for corresponding instances imports the same. -/
theorem related_fixes {n m : Node} {i j : Instance} (h : Instance.Corresponds keep n m i j) :
    Related (List.Forall₂ fun fix fix' => fix.imports = fix'.imports) (s.fixes rule n i)
      ({ s with source }.fixes rule m j) := by
  obtain ⟨-, -, htypes⟩ := Bindings.ungroup_eq_iff.1 h.bindings
  have hbound (name : String) :
      (i.bindings.get? name).isSome = (j.bindings.get? name).isSome := by
    rw [← Option.isSome_map, ← Bindings.get?_ungroup, h.bindings, Bindings.get?_ungroup,
      Option.isSome_map]
  unfold fixes
  split
  · exact .ok (.cons rfl .nil)
  · refine Related.mapM (R := Eq) (List.forall₂_same.2 fun _ _ => rfl) ?_
    rintro t _ rfl
    exact (Template.related_render htypes hbound _ _ _ _ _ _ _).bind
      fun _ _ himports => .ok himports

/-- **Corresponding instances are reported alike.** -/
theorem related_findingOf (hvw : (v, w) ∈ a.candidates.zip b.candidates)
    (h : Visit.Corresponds keep v w) {i j : Instance}
    (hij : Instance.Corresponds keep v.node w.node i j) :
    Related (Finding.Corresponds keep a b) (s.findingOf rule v.node i)
      ({ s with source }.findingOf rule w.node j) := by
  have hkind : v.node.kindName = w.node.kindName := by
    rw [← (Node.kept_ungroup h.left).kindName, h.node, (Node.kept_ungroup h.right).kindName]
  refine (related_fixes hij).bind fun fixes fixes' hfixes => .ok ⟨rfl, hkind, ?_, hij.bindings, ?_⟩
  · exact ⟨v, w, hvw, h.node, hij.part⟩
  · rwa [← List.forall₂_eq_eq_eq, List.forall₂_map_left_iff, List.forall₂_map_right_iff]

theorem forall₂_firstNonempty {α β : Type} {R : α → β → Prop} {ls : List (List α)}
    {ms : List (List β)} (h : List.Forall₂ (List.Forall₂ R) ls ms) :
    List.Forall₂ R (firstNonempty ls) (firstNonempty ms) := by
  induction h with
  | nil => exact .nil
  | cons hfirst _ ih =>
    cases hfirst with
    | nil => exact ih
    | cons hab hrest => exact .cons hab hrest

/-- **At corresponding candidates a rule makes corresponding findings**, if it
rejects none of them or both. -/
theorem related_plainFindingsAt (hvw : (v, w) ∈ a.candidates.zip b.candidates)
    (h : Visit.Corresponds keep v w)
    (hsuppression : s.suppression = .nowhere ∨ s.suppression = .annotated)
    (hguards : ∀ t ∈ rule.before, t.asksForReturn = true → keep = true)
    (hrejects : ∀ i j, Instance.Corresponds keep v.node w.node i j →
      s.rejects rule i = { s with source }.rejects rule j) :
    Related (List.Forall₂ (Finding.Corresponds keep a b))
      (s.plainFindingsAt rule v.node v.ancestors)
      ({ s with source }.plainFindingsAt rule w.node w.ancestors) := by
  have hinstances : List.Forall₂ (List.Forall₂ (Instance.Corresponds keep v.node w.node))
      (rule.before.map fun t => t.instances s.oracle v.node v.ancestors.head?)
      (rule.before.map fun t => t.instances s.oracle w.node w.ancestors.head?) := by
    rw [List.forall₂_map_left_iff, List.forall₂_map_right_iff, List.forall₂_same]
    exact fun t ht => forall₂_instances h.left h.right h.node fun hasks =>
      h.mayReturn (hguards t ht hasks)
  have hpasses := h.passesOver_eq hsuppression source rule
  unfold plainFindingsAt
  rw [← hpasses]
  split
  · exact .ok .nil
  · refine Related.mapM (List.rel_filter ?_ (forall₂_firstNonempty hinstances))
      fun i j hij => related_findingOf hvw h hij
    intro i j hij
    dsimp only
    rw [hrejects i j hij]

/-- Where statements stand in their places, a rule rejects a comment in both of
two corresponding instances or in neither. -/
theorem rejects_eq {n m : Node} {i j : Instance} {depth depth' : Nat}
    (hij : Instance.Corresponds keep n m i j) (hsame : n.ungroup keep = m.ungroup keep)
    (hn : n.PlacedIn s.source depth) (hm : m.PlacedIn source depth')
    (hcomments : rule.descriptor.rejectComments = true → n.HasStatements) :
    s.rejects rule i = { s with source }.rejects rule j := by
  unfold rejects
  cases hrejects : rule.descriptor.rejectComments with
  | false => rfl
  | true =>
    have hstatements := hcomments hrejects
    obtain ⟨text, text', htext, htext', hcontains⟩ :=
      hij.part.contains_eq hsame hstatements (hstatements.congr hsame) hn hm
    rw [htext, htext']
    exact congrArg (true && ·) hcontains

/-! ## Whole scans -/

/-- **All findings are made at candidates.** -/
theorem findings_eq_candidates
    (hsuppression : s.suppression = .nowhere ∨ s.suppression = .annotated) (root : Node) :
    s.findings root = concat (root.candidates.map fun visit =>
      concat (s.rules.map fun rule => s.plainFindingsAt rule visit.node visit.ancestors)) := by
  have hignores : s.suppression.IgnoresParens := by
    rcases hsuppression with hs | hs <;> rw [hs]
    · exact Suppression.ignoresParens_nowhere
    · exact Suppression.ignoresParens_annotated
  have hat (visit : Visit) : s.rules.map (s.findingsAt visit) =
      s.rules.map fun rule => s.plainFindingsAt rule visit.node visit.ancestors :=
    List.map_congr_left fun rule _ => (plainFindingsAt_eq hignores ⟨rfl, rfl⟩).symm
  rw [findings_eq_concat]
  simp only [hat]
  refine concat_map_filter (fun visit hparen => ?_) _
  obtain ⟨n, ancestors⟩ := visit
  cases n
  case paren info expr =>
    rw [concat_map_filter (p := fun _ => false)
      (fun rule _ => plainFindingsAt_paren info expr ancestors), List.filter_false]
    rfl
  all_goals exact absurd hparen (by simp [Node.isParen])

/-- **Trees of one ungrouped form are scanned alike**, each in its own print. -/
theorem related_findings (h : a.ungrouped keep = b.ungrouped keep)
    (hsuppression : s.suppression = .nowhere ∨ s.suppression = .annotated)
    (hguards : ∀ rule ∈ s.rules, ∀ t ∈ rule.before, t.asksForReturn = true → keep = true)
    (hcomments : ∀ rule ∈ s.rules, rule.descriptor.rejectComments = true → a.HasStatements) :
    Related (List.Forall₂ (Finding.Corresponds keep a.laidOut b.laidOut))
      ({ s with source := a.print }.findings a.laidOut)
      ({ s with source := b.print }.findings b.laidOut) := by
  have hcandidates := Node.forall₂_candidates
    ((Node.ungrouped_laidOut a).trans (h.trans (Node.ungrouped_laidOut b).symm))
  rw [findings_eq_candidates (s := { s with source := a.print }) hsuppression,
    findings_eq_candidates (s := { s with source := b.print }) hsuppression]
  refine Related.concat ?_
  rw [List.forall₂_map_left_iff, List.forall₂_map_right_iff, List.forall₂_iff_zip]
  refine ⟨hcandidates.length_eq, fun {v w} hvw => ?_⟩
  have hcorresponds := List.forall₂_zip hcandidates hvw
  obtain ⟨hv, hw⟩ := List.of_mem_zip hvw
  obtain ⟨depth, hstands⟩ := Node.exists_stands_of_mem_scanVisits (List.mem_of_mem_filter hv)
  obtain ⟨depth', hstands'⟩ := Node.exists_stands_of_mem_scanVisits (List.mem_of_mem_filter hw)
  refine Related.concat ?_
  rw [List.forall₂_map_left_iff, List.forall₂_map_right_iff, List.forall₂_same]
  intro rule hrule
  refine related_plainFindingsAt (s := { s with source := a.print }) hvw hcorresponds hsuppression
    (hguards rule hrule) fun i j hij => ?_
  refine rejects_eq hij hcorresponds.node (Node.placedIn_of_stands hstands)
    (Node.placedIn_of_stands hstands') fun hrejects => ?_
  have hplace : a.ungroup keep = a.laidOut.ungroup keep := (Node.ungroup_place 0 0 a).symm
  exact ((hcomments rule hrule hrejects).congr hplace).of_stands hstands

/-! ## A condition, and what is returned -/

/-- `if ((x)) (y);` -/
def groupedBranch : Node :=
  Fresh.ifElse (Fresh.paren (Fresh.paren truth)) (Fresh.exprStmt (Fresh.paren count)) none

/-- A scan for truths in a text. -/
def truthScan (source : String) : Scan :=
  ⟨[flagRule "com.example.Truths" "boolean"], Hierarchy.javaLang.oracle, source, .nowhere⟩

/-- The condition of `if (x) y;` is pointed out. -/
def branchFinding : Finding where
  rule := "com.example.Truths"
  span := ⟨4, 5⟩
  nodeKind := "identifier"
  bindings := Bindings.empty.bindExpr "a" ⟨truth.place 0 4, .plain "boolean"⟩
  fixes := [⟨[⟨⟨4, 4⟩, matchFoundMarker⟩], .empty⟩]

theorem findings_branch :
    (truthScan branch.print).findings branch.laidOut = .ok [branchFinding] := by
  have hbranch : branch.laidOut.scanChildren =
      [truth.place 0 4, (Fresh.exprStmt count).place 0 7] := rfl
  have htruth : (truth.place 0 4).scanChildren = [] := rfl
  have hstmt : ((Fresh.exprStmt count).place 0 7).scanChildren = [count.place 0 7] := rfl
  have hcount : (count.place 0 7).scanChildren = [] := rfl
  unfold findings run
  simp only [Node.scanVisits, Node.scanVisitsUnder_eq, hbranch, htruth, hstmt, hcount,
    List.flatMap_cons, List.flatMap_nil]
  with_unfolding_all rfl

/-- More parentheses do not hide it. -/
theorem exists_findings_groupedBranch : ∃ g,
    (truthScan groupedBranch.print).findings groupedBranch.laidOut = .ok [g] ∧
      Finding.Corresponds false branch.laidOut groupedBranch.laidOut branchFinding g := by
  have hform : branch.ungrouped false = groupedBranch.ungrouped false := rfl
  have hstatements : branch.HasStatements := by
    have htruth := (Node.hasStatements_paren (.ofTy truth.ty?) truth).2
      (Node.hasStatements_of_children_eq_nil rfl)
    have hcount : (Fresh.exprStmt count).HasStatements := Node.hasStatements_iff.2
      ⟨List.forall_mem_nil _,
        List.forall_mem_singleton.2 (Node.hasStatements_of_children_eq_nil rfl)⟩
    exact Node.hasStatements_iff.2 ⟨List.forall_mem_singleton.2 rfl,
      List.forall_mem_cons.2 ⟨htruth, List.forall_mem_singleton.2 hcount⟩⟩
  have hrelated := related_findings (s := truthScan "") hform (.inl rfl)
    (fun rule hrule t ht hasks => by
      obtain rfl := List.mem_singleton.1 hrule
      obtain rfl := List.mem_singleton.1 ht
      exact absurd hasks (by decide))
    fun _ _ _ => hstatements
  have hbranch : { truthScan "" with source := branch.print }.findings branch.laidOut =
      .ok [branchFinding] := findings_branch
  rw [hbranch] at hrelated
  generalize hgs : { truthScan "" with source := groupedBranch.print }.findings
    groupedBranch.laidOut = gs at hrelated
  cases hrelated with
  | ok hfs =>
    cases hfs with
    | cons hg hnil =>
      cases hnil
      exact ⟨_, hgs, hg⟩

/-- A rule that points out the numbers which are returned. -/
def returnedNumbers : ClassDeclaration where
  head := ⟨"com.example.Returned", [], []⟩
  members :=
    let int := Ty.plain "int"
    let guard : Annotation :=
      ⟨Marker.guard, Dict.ofList [("value", .type (.plain Marker.parentIsReturn))]⟩
    [Fresh.methodDecl ⟨"before", [⟨Marker.before, ∅⟩], [], [⟨"a", int, [guard]⟩], int⟩
      (some (Fresh.block [Fresh.ret (some ((Fresh.ident "a").resolved (.ofParam "a")))]))]

/-- The rule that it declares. -/
def returnedNumbersRule : Rule where
  name := "com.example.Returned"
  before := [⟨"before", [], [⟨"a", .plain "int", some .parentIsReturn⟩], .plain "int",
    .expr (.placeholder "a")⟩]
  after := []
  descriptor := ⟨true, none, none, none⟩

theorem rule_returnedNumbers : returnedNumbers.rule true = .ok returnedNumbersRule := rfl

/-- `return y;` and `return (y);` -/
def returned : Node := Fresh.ret (some count)

/-- `return (y);` -/
def returnedGrouped : Node := Fresh.ret (some (Fresh.paren count))

/-- A scan for returned numbers. -/
def returnedScan (source : String) : Scan :=
  ⟨[returnedNumbersRule], Hierarchy.javaLang.oracle, source, .nowhere⟩

/-- The returned number is pointed out. -/
def returnedFinding : Finding where
  rule := "com.example.Returned"
  span := ⟨7, 8⟩
  nodeKind := "identifier"
  bindings := Bindings.empty.bindExpr "a" ⟨count.place 0 7, .plain "int"⟩
  fixes := [⟨[⟨⟨7, 7⟩, matchFoundMarker⟩], .empty⟩]

theorem findings_returned :
    (returnedScan returned.print).findings returned.laidOut = .ok [returnedFinding] := by
  have hret : returned.laidOut.scanChildren = [count.place 0 7] := rfl
  have hcount : (count.place 0 7).scanChildren = [] := rfl
  unfold findings run
  simp only [Node.scanVisits, Node.scanVisitsUnder_eq, hret, hcount, List.flatMap_cons,
    List.flatMap_nil]
  with_unfolding_all rfl

theorem findings_returnedGrouped :
    (returnedScan returnedGrouped.print).findings returnedGrouped.laidOut = .ok [] := by
  have hret : returnedGrouped.laidOut.scanChildren = [(Fresh.paren count).place 0 7] := rfl
  have hparen : ((Fresh.paren count).place 0 7).scanChildren = [count.place 0 8] := rfl
  have hcount : (count.place 0 8).scanChildren = [] := rfl
  unfold findings run
  simp only [Node.scanVisits, Node.scanVisitsUnder_eq, hret, hparen, hcount, List.flatMap_cons,
    List.flatMap_nil]
  with_unfolding_all rfl

/-- **What is returned in parentheses is not found**, although it would be without
them: a guard can ask for what the parentheses hide. -/
theorem not_related_findings :
    ¬ ∀ (c : ClassDeclaration) (rule : Rule) (s : Scan) (a b : Node),
      c.rule true = .ok rule → s.rules = [rule] → s.suppression = .nowhere →
      a.ungrouped false = b.ungrouped false → a.HasStatements →
      Related (List.Forall₂ (Finding.Corresponds false a.laidOut b.laidOut))
        ({ s with source := a.print }.findings a.laidOut)
        ({ s with source := b.print }.findings b.laidOut) := by
  intro h
  have hstatements : returned.HasStatements := Node.hasStatements_iff.2
    ⟨List.forall_mem_nil _,
      List.forall_mem_singleton.2 (Node.hasStatements_of_children_eq_nil rfl)⟩
  have hrelated : Related _ ((returnedScan returned.print).findings returned.laidOut)
      ((returnedScan returnedGrouped.print).findings returnedGrouped.laidOut) :=
    h returnedNumbers returnedNumbersRule (returnedScan "") returned returnedGrouped
      rule_returnedNumbers rfl rfl rfl hstatements
  rw [findings_returned, findings_returnedGrouped] at hrelated
  cases hrelated with
  | ok hfound => cases hfound

end Scan

end Codemod
