import Codemod.Proofs.Scan.Reports
import Codemod.Proofs.Template.Rendering
import Codemod.Tree.Fresh
/-!
# When a scan fails

A declared rule may use in its After-Templates what any of its Before-Templates
declares. That is checked when the rule is read, and it does not say that a
match binds it: a Before-Template may declare a parameter and not use it, or
leave it to another Before-Template (`Scan.exists_findings_eq_unresolved`). What
is true is that a match binds all that the template refers to, so a scan fails
for a placeholder only where a template matched that does not refer to it
(`Scan.of_findings_eq_unresolved`).
-/

namespace Codemod

namespace Scan

variable {s : Scan} {root : Node}

/-- The rules were all read from declarations. -/
def HasDeclaredRules (s : Scan) : Prop :=
  ∀ r ∈ s.rules, ∃ (c : ClassDeclaration) (rejectComments : Bool), c.rule rejectComments = .ok r

/-- **A scan with declared rules fails for a placeholder only where it was never
used.** The failure names a rule, one of its After-Templates and a placeholder
which that refers to. Some Before-Template of the rule declares the placeholder,
but the one that matched does not refer to it. -/
theorem of_findings_eq_unresolved (hdeclared : s.HasDeclaredRules)
    {rule template placeholder : String}
    (h : s.findings root = .error (.unresolvedPlaceholder rule template placeholder)) :
    ∃ r ∈ s.rules, r.name = rule ∧
      (∃ t ∈ r.after, t.name = template ∧ placeholder ∈ t.referenced) ∧
      (∃ t ∈ r.before, placeholder ∈ t.paramNames) ∧
      (∃ visit found, s.Applies root visit r found ∧ ∃ t ∈ r.before,
        found ∈ t.instances s.oracle visit.node visit.ancestors.head? ∧
        placeholder ∉ t.referenced) := by
  obtain ⟨visit, r, found, happlies, hfixes⟩ := exists_of_failure (findings_eq_error_iff.1 h)
  obtain ⟨after, hafter, hrender⟩ := exists_of_fixes_eq_error hfixes
  obtain ⟨hname, htemplate, hused, hunbound⟩ := Template.of_render_eq_unresolved hrender
  obtain ⟨before, hbefore, hfound⟩ := exists_template_of_mem_instances happlies.matched
  obtain ⟨c, rejectComments, hrule⟩ := hdeclared r happlies.scanned
  have hscoped : r.IsScoped := ClassDeclaration.isScoped_of_rule hrule
  have hafterScoped : after.IsScoped := hscoped.templates after (List.mem_append_right _ hafter)
  have hbeforeScoped : before.IsScoped :=
    hscoped.templates before (List.mem_append_left _ hbefore)
  refine ⟨r, happlies.scanned, hname.symm, ⟨after, hafter, htemplate.symm, hused⟩, ?_, ?_⟩
  · exact hscoped.declared after hafter placeholder (hafterScoped.referenced_subset hused)
  · refine ⟨visit, found, happlies, before, hbefore, hfound, fun hreferenced => ?_⟩
    -- What the matching template refers to would be bound.
    have hbound := hbeforeScoped.isSome_of_mem_instances hfound hreferenced
    rw [hunbound] at hbound
    exact absurd hbound (by simp)

/-- A rule whose Before-Template declares a parameter that only its
After-Template uses. -/
def unusedParameter : ClassDeclaration where
  head := ⟨"com.example.Keep", [], []⟩
  members :=
    let int := Ty.plain "int"
    let returned (name : String) : Node :=
      Fresh.block [Fresh.ret (some ((Fresh.ident name).resolved (.ofParam name)))]
    [Fresh.methodDecl
        ⟨"before", [⟨Marker.before, ∅⟩], [], [⟨"a", int, []⟩, ⟨"b", int, []⟩], int⟩
        (some (returned "a")),
      Fresh.methodDecl ⟨"after", [⟨Marker.after, ∅⟩], [], [⟨"b", int, []⟩], int⟩
        (some (returned "b"))]

/-- The rule that it declares. -/
def unusedParameterRule : Rule where
  name := "com.example.Keep"
  before := [⟨"before", [], [⟨"a", .plain "int", none⟩, ⟨"b", .plain "int", none⟩], .plain "int",
    .expr (.placeholder "a")⟩]
  after := [⟨"after", [], [⟨"b", .plain "int", none⟩], .plain "int", .expr (.placeholder "b")⟩]
  descriptor := ⟨false, none, none, none⟩

/-- A number, as it lies in its text. -/
def unusedParameterTree : Node := ((Fresh.ident "x").typed (.plain "int")).laidOut

/-- A scan for that rule alone. -/
def unusedParameterScan : Scan :=
  ⟨[unusedParameterRule], Hierarchy.javaLang.oracle, "x", Suppression.nowhere⟩

theorem rule_unusedParameter : unusedParameter.rule false = .ok unusedParameterRule := rfl

theorem findings_unusedParameterScan :
    unusedParameterScan.findings unusedParameterTree =
      .error (.unresolvedPlaceholder "com.example.Keep" "after" "b") := by
  unfold findings run
  rw [Node.scanVisits, Node.scanVisitsUnder_eq]
  rfl

/-- So a declared rule need not be one that can always be applied. -/
theorem exists_findings_eq_unresolved :
    ¬ ∀ (c : ClassDeclaration) (rejectComments : Bool) (r : Rule) (s : Scan) (root : Node),
      c.rule rejectComments = .ok r → s.rules = [r] →
      ∀ rule template placeholder,
        s.findings root ≠ .error (.unresolvedPlaceholder rule template placeholder) := by
  intro h
  exact h unusedParameter false unusedParameterRule unusedParameterScan unusedParameterTree
    rule_unusedParameter rfl _ _ _ findings_unusedParameterScan

/-- And where it fails, the template that matched does not refer to the unused
parameter. -/
theorem applies_without_unusedParameter :
    ∃ visit found, unusedParameterScan.Applies unusedParameterTree visit unusedParameterRule
        found ∧
      ∃ t ∈ unusedParameterRule.before, "b" ∉ t.referenced := by
  have hdeclared : unusedParameterScan.HasDeclaredRules := by
    intro r hr
    obtain rfl := List.mem_singleton.1 hr
    exact ⟨unusedParameter, false, rule_unusedParameter⟩
  obtain ⟨r, hr, -, -, -, visit, found, happlies, t, ht, -, hunused⟩ :=
    of_findings_eq_unresolved hdeclared findings_unusedParameterScan
  obtain rfl := List.mem_singleton.1 hr
  exact ⟨visit, found, happlies, t, ht, hunused⟩

end Scan

end Codemod
