import Codemod.Proofs.Scan.Reports
import Codemod.Proofs.Template.Agreement
import Codemod.Proofs.Template.Windows
import Codemod.Proofs.Tree.Spacing
/-!
# How far findings extend

In code that lies in the source, whatever a rule finds spans a part of that
code, and its fix is one edit there (`Scan.exists_edit_of_mem_findings`).
-/

namespace Codemod

open Text

/-- **What a template matches** in code that lies in the source is a part of that
code, and text of the source. -/
theorem Template.extent_of_mem_instances {t : Template} {o : TypeOracle} {source : String}
    {depth : Nat} {n : Node} {parent : Option Node} {i : Instance}
    (hn : n.PlacedIn source depth) (h : i ∈ t.instances o n parent) :
    i.span.IsReadIn source ∧ n.span.contains i.span = true := by
  cases hbody : t.body with
  | expr e =>
    obtain ⟨-, -, ds, b, -, -, rfl⟩ := (mem_instances_expr_iff hbody).1 h
    exact ⟨hn.isReadIn, Span.contains_self _⟩
  | block stmts =>
    obtain ⟨hne, info, codes, rfl, window, hwindow, ds, b, -, -, rfl⟩ :=
      (mem_instances_block_iff hbody).1 h
    have hlength : stmts.length ≠ 0 := fun hzero => hne (List.length_eq_zero_iff.1 hzero)
    obtain ⟨-, m, ms, l, r, hrun, hsource⟩ := exists_run_of_placedIn hn hlength hwindow
    refine ⟨⟨_, hrun ▸ slice?_spanOf hsource⟩, ?_⟩
    -- The run begins and ends with statements of the block.
    have hpart : ∀ c ∈ window, (Node.block info codes).span.contains c.span = true := fun c hc =>
      have hchild : c ∈ (Node.block info codes).children := subset_of_mem_windows hwindow hc
      Span.contains_iff.2 ⟨(hn.span_child hchild).1, (hn.span_child hchild).2.1⟩
    obtain ⟨first, rest, rfl⟩ : ∃ first rest, window = first :: rest := ⟨_, _, hrun⟩
    refine Span.contains_hull (hpart first List.mem_cons_self) (hpart _ ?_)
    cases hlast : rest.getLast? with
    | none => exact List.mem_cons_self
    | some last => exact List.mem_cons_of_mem _ (List.mem_of_getLast? hlast)

namespace Scan

variable {s : Scan} {root : Node} {depth : Nat} {fs : List Finding} {f : Finding}

/-- **The preferred fix of a finding is one edit** of the scanned code. -/
theorem exists_edit_of_mem_findings (hroot : root.PlacedIn s.source depth)
    (h : s.findings root = .ok fs) (hf : f ∈ fs) :
    ∃ e, f.edits = [e] ∧ e.span.IsReadIn s.source ∧ root.span.contains e.span = true := by
  obtain ⟨visit, rule, i, fixes, happlies, hfixes, rfl⟩ := exists_of_mem_findings h hf
  obtain ⟨_, hstands⟩ := Node.exists_stands_of_mem_scanVisits happlies.visited
  obtain ⟨⟨depth', hplaced⟩, hbelow⟩ := hroot.of_stands hstands
  obtain ⟨t, -, hi⟩ := exists_template_of_mem_instances happlies.matched
  obtain ⟨hreads, hwithin⟩ := Template.extent_of_mem_instances hplaced hi
  have hcontains := Span.contains_trans hbelow hwithin
  cases hafter : rule.after with
  | nil =>
    have hflag : fixes = [.ofEdits [.insertion i.span.start matchFoundMarker]] := by
      rw [Scan.fixes, Rule.isFlagOnly, hafter, List.isEmpty_nil, if_pos rfl] at hfixes
      exact (Except.ok.inj hfixes).symm
    subst hflag
    refine ⟨_, rfl, hreads.point, Span.contains_trans hcontains ?_⟩
    exact Span.contains_iff.2 ⟨Nat.le_refl _, hreads.start_le_stop⟩
  | cons first rest =>
    obtain ⟨replacement, -, hfirst⟩ := head?_of_fixes_eq_ok hfixes (congrArg List.head? hafter)
    refine ⟨⟨i.span, replacement.text⟩, ?_, hreads, hcontains⟩
    rw [Finding.edits, Finding.preferredFix?, hfirst]

end Scan

end Codemod
