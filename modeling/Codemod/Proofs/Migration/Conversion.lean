import Codemod.Migration.CallSite
import Codemod.Proofs.Edit.Selection
import Codemod.Proofs.Migration.Pair
import Codemod.Proofs.Scan.Reports
import Codemod.Proofs.Template.Agreement
import Codemod.Proofs.Tree.Nesting
import Codemod.Proofs.Types.Inference
/-!
# The conversion of a value

A value is converted by a scan with the forward rule of a pair. Where the
Before-Template of the rule is nothing but its parameter, the scan matches the
value itself whenever the type fits, unless the rule has a reason to spare it
(`CallSiteMigration.Spares`): a comment in the value, a guard of the parameter,
or a return type of the Before-Template that does not fit. What is found in the
value is no longer than the value, so if it is not the value that is converted,
it is something of the same span
(`CallSiteMigration.exists_edit_of_convert`).
-/

namespace Codemod

open Outcome

/-! ## Templates that are only a parameter -/

namespace Template

variable {o : TypeOracle} {t : Template} {p : Placeholder} {n : Node} {parent : Option Node}

/-- The template is nothing but its only parameter. -/
def IsParameter (t : Template) (p : Placeholder) : Prop :=
  t.params = [p] ∧ t.body = .expr (.placeholder p.name)

theorem IsParameter.placeholder?_eq (h : t.IsParameter p) : t.placeholder? p.name = some p := by
  rw [placeholder?, h.1]
  simp

/-- **A parameter matches what has its type**, passes its guard and has the
return type as well. -/
theorem IsParameter.exists_mem_instances (h : t.IsParameter p) (hexpr : n.isExpression = true)
    (hparen : n.isParen = false) {ty : Ty} {types : Dict Ty} (hty : n.ty? = some ty)
    (hassign : o.assign? p.ty ty ∅ = some types)
    (hguard : ∀ guard, p.guard = some guard → guard.holds n parent = true)
    (hreturn : t.returnType.isNamed Name.void = true ∨
      ∃ types', o.assign? t.returnType ty types = some types') :
    ∃ i ∈ t.instances o n parent, i.span = n.span := by
  have hmatch : t.matchExpr? o (.placeholder p.name) n parent .empty =
      some ({ Bindings.empty with types }.bindExpr p.name ⟨n, ty⟩) := by
    have hnew : Bindings.empty.get? p.name = none := rfl
    have hassign : o.assign? p.ty ty Bindings.empty.types = some types := hassign
    rw [matchExpr?, Node.skipParens_eq_self hparen, matchPlaceholder?, h.placeholder?_eq]
    cases hg : p.guard with
    | none => simp [hexpr, hnew, hty, hassign, hg]
    | some guard => simp [hexpr, hnew, hty, hassign, hg, hguard guard hg]
  unfold instances
  rw [h.2]
  dsimp only
  rw [hexpr, hparen, hmatch, hty]
  by_cases hvoid : t.returnType.isNamed Name.void = true
  · simp [hvoid]
  · obtain ⟨types', hassign'⟩ := hreturn.resolve_left hvoid
    simp [hvoid, Bindings.bindExpr, hassign']

end Template

/-- The forward rule of the pair takes every value of the first type: its
Before-Template is nothing but its parameter. -/
def MigrationPair.TakesEveryValue (pair : MigrationPair) : Prop :=
  ∃ before p, pair.forward.before = [before] ∧ before.IsParameter p

namespace CallSiteMigration

variable {m : CallSiteMigration} {rule : Rule} {value : Node} {fix : Fix}

/-- The scan of a value. -/
def valueScan (m : CallSiteMigration) (rule : Rule) : Scan :=
  ⟨[rule], m.oracle, m.source, .nowhere⟩

/-- The edit puts what an After-Template of the rule makes of code in the place
of that code. -/
def IsConversion (m : CallSiteMigration) (rule : Rule) (e : Edit) : Prop :=
  ∃ t ∈ rule.after, ∃ bindings precedence replacement,
    t.render m.oracle m.source rule.name bindings e.span precedence = .ok replacement ∧
      e.replacement = replacement.text

/-- The rule spares a value whose type it takes. -/
inductive Spares (m : CallSiteMigration) (rule : Rule) (value : Node) : Prop
  /-- It rejects comments, and there is one in the value. -/
  | comment {text : String} :
      rule.descriptor.rejectComments = true → value.skipParens.span.slice? m.source = some text →
      Comment.contains text = true → Spares m rule value
  /-- Its parameter has a guard, which the value does not pass where nothing is
  around it but its parentheses. -/
  | guard {t : Template} {p : Template.Placeholder} {guard : Template.Guard} :
      t ∈ rule.before → p ∈ t.params → p.guard = some guard →
      guard.holds value.skipParens (if value.isParen then some value else none) = false →
      Spares m rule value
  /-- Its Before-Template does not return what it takes, but an equivalent type
  with other variables, which the type of the value does not fit as they were
  inferred. -/
  | result {t : Template} {p : Template.Placeholder} {ty : Ty} {types : Dict Ty} :
      t ∈ rule.before → p ∈ t.params → p.ty.equivalent t.returnType = true →
      t.returnType ≠ p.ty → value.skipParens.ty? = some ty →
      m.oracle.assign? p.ty ty ∅ = some types → m.oracle.assign? t.returnType ty types = none →
      Spares m rule value

/-! ## The fix of a value -/

theorem edits_foldl_merge (fs : List Finding) (fix : Fix) :
    (fs.foldl (fun fix f => fix.merge (f.preferredFix?.getD .empty)) fix).edits =
      fix.edits ++ fs.flatMap Finding.edits := by
  induction fs generalizing fix with
  | nil => simp
  | cons f fs ih =>
    rw [List.foldl_cons, ih, Fix.merge, List.flatMap_cons, Finding.edits]
    cases f.preferredFix? <;> simp [Fix.empty]

/-- The edits are those that the scan of the value alone prefers, in the findings
that are selected of it. -/
def IsEditedBy (m : CallSiteMigration) (rule : Rule) (value : Node) (es : List Edit) : Prop :=
  ∃ found, (m.valueScan rule).findings value = .ok found ∧
    es = (Finding.selectCompatible found).flatMap Finding.edits

theorem isEditedBy_of_convert (h : m.convert rule value = .ok fix) :
    m.IsEditedBy rule value fix.edits := by
  obtain ⟨found, hfound, h⟩ := bind_eq_ok_iff.1 h
  obtain rfl := pure_eq_ok_iff.1 h
  exact ⟨found, hfound, by rw [edits_foldl_merge, Fix.empty, List.nil_append]⟩

variable {ty : Ty} {before after : Template} {p : Template.Placeholder}

/-- What is found in a value is a node in it that stands in no parentheses, and
it is replaced as a whole. -/
theorem exists_edits_of_mem_findings (hconverts : MigrationPair.Converts rule ty before after p)
    (hbare : before.IsParameter p) {found : List Finding}
    (hfound : (m.valueScan rule).findings value = .ok found) {f : Finding} (hf : f ∈ found) :
    ∃ e, f.edits = [e] ∧ e.span = f.span ∧ m.IsConversion rule e ∧
      ∃ depth n, value.skipParens.Stands depth n ∧ f.span = n.span := by
  obtain ⟨visit, rule', i, fixes, happlies, hfixes, rfl⟩ := Scan.exists_of_mem_findings hfound hf
  obtain rfl := List.mem_singleton.1 happlies.scanned
  obtain ⟨replacement, hrender, hfirst⟩ :=
    Scan.head?_of_fixes_eq_ok hfixes (congrArg List.head? hconverts.after_eq)
  refine ⟨⟨i.span, replacement.text⟩, ?_, rfl,
    ⟨after, ?_, i.bindings, visit.node.precedence, replacement, hrender, rfl⟩, ?_⟩
  · rw [Finding.edits, Finding.preferredFix?, hfirst]
  · rw [hconverts.after_eq]
    exact List.mem_singleton_self _
  · obtain ⟨t, ht, hi⟩ := Scan.exists_template_of_mem_instances happlies.matched
    rw [hconverts.before_eq] at ht
    obtain rfl := List.mem_singleton.1 ht
    obtain ⟨-, hparen, ds, b, -, -, rfl⟩ := (Template.mem_instances_expr_iff hbare.2).1 hi
    obtain ⟨depth, hstands⟩ := Node.exists_stands_of_mem_scanVisits happlies.visited
    obtain ⟨depth', hbelow⟩ := hstands.isParen_or_stands.resolve_left (by simp [hparen])
    exact ⟨depth', visit.node, hbelow, rfl⟩

/-- A guard only asks whether there is something around a value, if that is
parentheses. -/
theorem holds_eq_of_isParen {guard : Template.Guard} {n : Node} {ancestors : List Node}
    (hparens : ∀ a ∈ ancestors, a.isParen = true) (hnil : ancestors = [] ↔ value.isParen = false) :
    guard.holds n ancestors.head? = guard.holds n (if value.isParen then some value else none) := by
  cases hancestors : ancestors with
  | nil =>
    rw [hnil.1 hancestors]
    rfl
  | cons a rest =>
    have hvalue : value.isParen = true := by
      rw [← Bool.not_eq_false, ← hnil, hancestors]
      exact nofun
    have ha := hparens a (by simp [hancestors])
    rw [hvalue, if_pos rfl, List.head?_cons]
    cases guard with
    | throws => rfl
    | parentIsReturn =>
      cases a
      case paren =>
        cases value
        case paren => rfl
        all_goals exact absurd hvalue nofun
      all_goals exact absurd ha nofun

/-- **A rule applies to a value** whose type it takes, unless it spares it. -/
theorem exists_applies_of_not_spares (hconverts : MigrationPair.Converts rule ty before after p)
    (hbare : before.IsParameter p) (hexpr : value.skipParens.isExpression = true) {valueTy : Ty}
    (hty : value.skipParens.ty? = some valueTy) (haccepts : m.oracle.accepts ty valueTy = true)
    (hspares : ¬ m.Spares rule value) :
    ∃ visit i, (m.valueScan rule).Applies value visit rule i ∧
      i.span = value.skipParens.span := by
  obtain ⟨ancestors, hvisit, hparens, hnil⟩ := Node.exists_scanVisit_skipParens value
  obtain ⟨types, hassign⟩ := Option.isSome_iff_exists.1 haccepts
  rw [← hconverts.ty_eq] at hassign
  have hbefore : before ∈ rule.before := by
    rw [hconverts.before_eq]
    exact List.mem_singleton_self _
  have hp : p ∈ before.params := by
    rw [hbare.1]
    exact List.mem_singleton_self _
  have hguard : ∀ guard, p.guard = some guard →
      guard.holds value.skipParens ancestors.head? = true := by
    intro guard hguard
    rw [holds_eq_of_isParen hparens hnil, ← Bool.not_eq_false]
    exact fun hfails => hspares (.guard hbefore hp hguard hfails)
  have hreturn : ∃ types', m.oracle.assign? before.returnType valueTy types = some types' := by
    by_cases hsame : before.returnType = p.ty
    · rw [hsame]
      exact ⟨types, TypeOracle.assign?_again hassign⟩
    · rw [← Option.ne_none_iff_exists']
      have hgives : p.ty.equivalent before.returnType = true := by
        rw [hconverts.ty_eq]
        exact hconverts.gives
      exact fun hfails => hspares (.result hbefore hp hgives hsame hty hassign hfails)
  obtain ⟨i, hi, hspan⟩ := hbare.exists_mem_instances hexpr (Node.isParen_skipParens value) hty
    hassign hguard (.inr hreturn)
  refine ⟨⟨value.skipParens, ancestors⟩, i,
    ⟨hvisit, List.mem_singleton_self _, ?_, rfl, ?_, ?_⟩, hspan⟩
  · -- Around the value are parentheses and no class.
    have hclass : ∀ n ∈ value.skipParens :: ancestors, Scan.declaresClass rule.name n = false := by
      refine List.forall_mem_cons.2 ⟨?_, fun a ha => ?_⟩
      · cases hcore : value.skipParens
        case classDecl => exact absurd (hcore ▸ hexpr) nofun
        all_goals rfl
      · have hparen := hparens a ha
        cases a
        case paren => rfl
        all_goals exact absurd hparen nofun
    rw [Scan.isActive, List.any_eq_false.2 fun n hn => Bool.eq_false_iff.1 (hclass n hn)]
    simp [Rule.appliesTo, hconverts.before_eq, Template.isExpression, hbare.2, hexpr]
  · rw [Scan.instances_of_before_eq hconverts.before_eq]
    exact hi
  · rw [← Bool.not_eq_true]
    intro hrejects
    rw [Scan.rejects, Bool.and_eq_true, hspan] at hrejects
    obtain ⟨hdescriptor, htext⟩ := hrejects
    split at htext
    · rename_i text hslice
      exact hspares (.comment hdescriptor hslice htext)
    · exact absurd htext nofun

/-- **A value is converted as a whole** when the rule takes its type and does not
spare it. -/
theorem exists_edit_of_convert (hconverts : MigrationPair.Converts rule ty before after p)
    (hbare : before.IsParameter p) (hspans : value.SpansNest)
    (hexpr : value.skipParens.isExpression = true) {valueTy : Ty}
    (hty : value.skipParens.ty? = some valueTy) (haccepts : m.oracle.accepts ty valueTy = true)
    (hspares : ¬ m.Spares rule value) (h : m.convert rule value = .ok fix) :
    ∃ e ∈ fix.edits, e.span = value.skipParens.span := by
  obtain ⟨found, hfound, hedits⟩ := isEditedBy_of_convert h
  obtain ⟨visit, i, happlies, hspan⟩ :=
    exists_applies_of_not_spares hconverts hbare hexpr hty haccepts hspares
  obtain ⟨fixes, -, hf⟩ := happlies.exists_mem_findings hfound
  -- What is selected in its stead is no shorter, and lies within the value.
  obtain ⟨g, hg, hlength⟩ : ∃ g ∈ Finding.selectCompatible found,
      value.skipParens.span.length ≤ g.span.length := by
    rcases Finding.mem_selectCompatible_or_clashes hf with hselected | ⟨g, hg, -, hbefore⟩
    · exact ⟨_, hselected, Nat.le_of_eq (congrArg Span.length hspan.symm)⟩
    · rw [Finding.considered_iff] at hbefore
      dsimp only at hbefore
      rw [hspan] at hbefore
      exact ⟨g, hg, by omega⟩
  obtain ⟨e, heq, hesp, -, depth, n, hstands, hgspan⟩ :=
    exists_edits_of_mem_findings hconverts hbare hfound (Finding.mem_of_mem_selectCompatible hg)
  refine ⟨e, hedits ▸ List.mem_flatMap.2 ⟨g, hg, by simp [heq]⟩, ?_⟩
  rw [hesp, hgspan]
  refine (hspans.of_stands (.skipParens .root)).span_eq_of_length_le hstands ?_
  rw [← hgspan]
  exact hlength

/-- Nothing in a value is edited but by conversions. -/
theorem isConversion_of_mem_convert (hconverts : MigrationPair.Converts rule ty before after p)
    (hbare : before.IsParameter p) (h : m.convert rule value = .ok fix) {e : Edit}
    (he : e ∈ fix.edits) : m.IsConversion rule e := by
  obtain ⟨found, hfound, hedits⟩ := isEditedBy_of_convert h
  obtain ⟨f, hf, he⟩ := List.mem_flatMap.1 (hedits ▸ he)
  obtain ⟨e', heq, -, hconversion, -⟩ :=
    exists_edits_of_mem_findings hconverts hbare hfound (Finding.mem_of_mem_selectCompatible hf)
  rw [heq] at he
  exact List.mem_singleton.1 he ▸ hconversion

end CallSiteMigration

end Codemod
