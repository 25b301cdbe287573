import Codemod.Proofs.Scan.Counting
import Codemod.Proofs.Scan.PlainPass
import Codemod.Proofs.Template.Agreement
import Codemod.Proofs.Tree.Nesting
import Codemod.Proofs.Tree.Quiet
/-!
# Scans of printed trees

A tree that is laid out has no comment in its text, nor in that of any node or
run of statements, where no name has a slash or a quote. A scan of it rejects
nothing for a comment, and rules that reject comments find what they would find
if they did not (`Scan.uncommented_of_hasHarmlessNames`).
-/

namespace Codemod

open Comment Template

/-! ## What a scan looks at -/

namespace Node

variable {tree n : Node} {depth : Nat}

/-- **The text of a node is code with no comment in it.** -/
theorem HasHarmlessNames.exists_slice? (htree : tree.HasHarmlessNames)
    (hn : tree.laidOut.Stands depth n) :
    ∃ text, n.span.slice? tree.print = some text ∧ IsQuiet text :=
  ⟨_, (placedIn_of_stands hn).slice?.2, isQuiet_text (htree.laidOut.of_stands hn) depth⟩

/-- So is the text of a run of statements. -/
theorem HasHarmlessNames.exists_slice?_run {info : NodeInfo} {codes window : List Node} {k : Nat}
    (htree : tree.HasHarmlessNames) (hblock : tree.laidOut.Stands depth (.block info codes))
    (hk : k ≠ 0) (hwindow : window ∈ windows k codes) :
    ∃ text, (spanOf window).slice? tree.print = some text ∧ IsQuiet text := by
  obtain ⟨-, hcodes⟩ := hasHarmlessNames_iff.1 (htree.laidOut.of_stands hblock)
  have hstmts : ∀ c ∈ window, c.HasHarmlessNames := fun c hc =>
    hcodes c (subset_of_mem_windows hwindow hc)
  exact ⟨_, slice?_spanOf_of_placedIn (placedIn_of_stands hblock) hk hwindow,
    isQuiet_intercalate_texts hstmts (depth + 1)⟩

end Node

namespace Scan

variable {s : Scan} {tree : Node} {rule : Rule} {visit : Visit} {found : Instance}

/-- **What a rule matches in a printed tree is code with no comment in it.** -/
theorem exists_slice?_of_mem_instances (htree : tree.HasHarmlessNames)
    (hvisit : visit ∈ tree.laidOut.scanVisits) (h : found ∈ s.instances rule visit) :
    ∃ text, found.span.slice? tree.print = some text ∧ IsQuiet text := by
  obtain ⟨depth, hstands⟩ := Node.exists_stands_of_mem_scanVisits hvisit
  obtain ⟨t, -, hfound⟩ := exists_template_of_mem_instances h
  cases hbody : t.body with
  | expr e =>
    obtain ⟨-, -, ds, b, -, -, rfl⟩ := (mem_instances_expr_iff hbody).1 hfound
    exact htree.exists_slice? hstands
  | block stmts =>
    obtain ⟨hne, info, codes, hcode, window, hwindow, ds, b, -, -, rfl⟩ :=
      (mem_instances_block_iff hbody).1 hfound
    rw [hcode] at hstands
    exact htree.exists_slice?_run hstands (fun hzero => hne (List.length_eq_zero_iff.1 hzero))
      hwindow

/-- So no rule rejects it. -/
theorem rejects_eq_false (htree : tree.HasHarmlessNames) (hsource : s.source = tree.print)
    (hvisit : visit ∈ tree.laidOut.scanVisits) (h : found ∈ s.instances rule visit) :
    s.rejects rule found = false := by
  obtain ⟨text, htext, hquiet⟩ := exists_slice?_of_mem_instances htree hvisit h
  rw [rejects, hsource, htext]
  dsimp only
  rw [hquiet.contains_eq_false, Bool.and_false]

/-! ## Counting rejections -/

/-- A rejection is reported only of what is rejected. -/
theorem rejectedComment_mem_evaluate {name : String}
    (h : (name, .rejectedComment) ∈ (s.evaluate visit rule).events) :
    ∃ found ∈ s.instances rule visit, s.rejects rule found = true := by
  obtain ⟨-, -, found, hfound, hevent⟩ := exists_of_mem_evaluate h nofun nofun
  refine ⟨found, hfound, ?_⟩
  unfold report at hevent
  split at hevent
  · assumption
  · split at hevent
    · exact absurd (List.mem_singleton.1 hevent) nofun
    · exact absurd hevent List.not_mem_nil

/-- A log without rejections counts none. -/
theorem commentRejections_eq_zero {log : ScanLog} {name : String}
    (h : (name, .rejectedComment) ∉ log.events) : (log.counters name).commentRejections = 0 := by
  have hcounters : log.counters name =
      RuleCounters.zero.countAll (log.events.filter (·.1 == name)) := rfl
  rw [hcounters, RuleCounters.countAll_eq]
  refine (Nat.zero_add _).trans (List.countP_eq_zero.2 fun e he hrejected => h ?_)
  obtain ⟨hmem, hname⟩ := List.mem_filter.1 he
  obtain ⟨rule, event⟩ := e
  obtain rfl : rule = name := by simpa using hname
  cases event
  case rejectedComment => exact hmem
  all_goals exact absurd hrejected (by simp [ScanEvent.isRejected])

/-! ## Rules that accept comments -/

end Scan

/-- The rule, applied to commented code as well. -/
def Rule.acceptingComments (r : Rule) : Rule :=
  { r with descriptor := { r.descriptor with rejectComments := false } }

namespace Scan

/-- The scan with rules that reject no comments. -/
def acceptingComments (s : Scan) : Scan := { s with rules := s.rules.map Rule.acceptingComments }

variable {s : Scan} {tree : Node} {rule : Rule} {visit : Visit}

/-- At a node a rule does the same, if it rejects nothing there. -/
theorem evaluate_acceptingComments
    (hsuppression : s.suppression rule.acceptingComments = s.suppression rule)
    (haccepts : ∀ found ∈ s.instances rule visit, s.rejects rule found = false) :
    s.acceptingComments.evaluate visit rule.acceptingComments = s.evaluate visit rule := by
  have hreport : ∀ found ∈ s.instances rule visit,
      s.acceptingComments.report rule.acceptingComments visit.node found =
        s.report rule visit.node found := by
    intro found hfound
    have haccepted : s.acceptingComments.rejects rule.acceptingComments found = false := rfl
    have hfixes : s.acceptingComments.fixes rule.acceptingComments visit.node found =
        s.fixes rule visit.node found := rfl
    rw [report, report, haccepted, haccepts found hfound, hfixes]
    rfl
  have hreports : (s.acceptingComments.instances rule.acceptingComments visit).map
      (s.acceptingComments.report rule.acceptingComments visit.node) =
        (s.instances rule visit).map (s.report rule visit.node) := List.map_congr_left hreport
  have hactive : isActive rule.acceptingComments visit = isActive rule visit := rfl
  have hsuppressed : s.acceptingComments.suppression rule.acceptingComments =
      s.suppression rule := hsuppression
  rw [evaluate, evaluate, hreports, hactive, hsuppressed]
  rfl

/-- **Printed trees are scanned as if there were no comments to reject.** There is
none in the print, nor in the text of a node or of a run of statements, so a scan
rejects nothing for one, and does what it would do with rules that accept
comments and are switched off at the same places. -/
theorem uncommented_of_hasHarmlessNames (htree : tree.HasHarmlessNames) :
    contains tree.print = false ∧
    (∀ n ∈ tree.laidOut.preorder, ∃ text, n.span.slice? tree.print = some text ∧
      contains text = false) ∧
    (∀ info before run after, Node.block info (before ++ run ++ after) ∈ tree.laidOut.preorder →
      run ≠ [] → ∃ text, (spanOf run).slice? tree.print = some text ∧ contains text = false) ∧
    ∀ s : Scan, s.source = tree.print →
      (∀ name, ((s.run tree.laidOut).counters name).commentRejections = 0) ∧
      ((∀ rule ∈ s.rules, s.suppression rule.acceptingComments = s.suppression rule) →
        s.acceptingComments.run tree.laidOut = s.run tree.laidOut) := by
  refine ⟨(Node.isQuiet_text htree 0).contains_eq_false, fun n hn => ?_,
    fun info before run after hblock hrun => ?_, fun s hsource => ⟨fun name => ?_, fun hsame => ?_⟩⟩
  · obtain ⟨depth, hstands⟩ := Node.exists_stands_of_mem_preorder hn
    obtain ⟨text, htext, hquiet⟩ := htree.exists_slice? hstands
    exact ⟨text, htext, hquiet.contains_eq_false⟩
  · obtain ⟨depth, hstands⟩ := Node.exists_stands_of_mem_preorder hblock
    obtain ⟨text, htext, hquiet⟩ := htree.exists_slice?_run hstands
      (fun hzero => hrun (List.length_eq_zero_iff.1 hzero)) (mem_windows_of_append hrun before)
    exact ⟨text, htext, hquiet.contains_eq_false⟩
  · refine commentRejections_eq_zero fun hevent => ?_
    obtain ⟨visit, hvisit, rule, -, hevent⟩ := exists_of_mem_run hevent
    obtain ⟨found, hfound, hrejects⟩ := rejectedComment_mem_evaluate hevent
    rw [rejects_eq_false htree hsource hvisit hfound] at hrejects
    exact Bool.noConfusion hrejects
  · have hvisits : ∀ visit ∈ tree.laidOut.scanVisits,
        s.acceptingComments.rules.map (s.acceptingComments.evaluate visit) =
          s.rules.map (s.evaluate visit) := by
      intro visit hvisit
      rw [acceptingComments, List.map_map]
      exact List.map_congr_left fun rule hrule => evaluate_acceptingComments (hsame rule hrule)
        fun found hfound => rejects_eq_false htree hsource hvisit hfound
    exact congrArg ScanLog.inOrder (List.flatMap_congr hvisits)

/-! ## Texts that look like comments -/

/-- Two statements, `java.lang.String s = "";` and `return "/* \"";`. -/
def slashedTexts : Node :=
  Fresh.block [Fresh.localVar "s" (.plain "java.lang.String") (some (Fresh.literal (.str ""))),
    Fresh.ret (some (Fresh.literal (.str "/* \"")))]

/-- A scan for texts that rejects comments. -/
def textScan : Scan :=
  ⟨[flagRule "com.example.Texts" "java.lang.String"], Hierarchy.javaLang.oracle,
    slashedTexts.print, .annotated⟩

/-- What the text says is a comment, what it is written as is none. -/
theorem uncommented_slashedTexts :
    contains "/* \"" = true ∧ contains slashedTexts.print = false ∧
      ((textScan.run slashedTexts.laidOut).counters "com.example.Texts").commentRejections = 0 ∧
      textScan.acceptingComments.run slashedTexts.laidOut = textScan.run slashedTexts.laidOut := by
  have hharmless : slashedTexts.HasHarmlessNames := by
    have hnone {n : Node} (hnames : n.writtenNames = []) (hleaf : n.children = []) :
        n.HasHarmlessNames :=
      Node.hasHarmlessNames_iff.2 ⟨hnames ▸ List.forall_mem_nil _, hleaf ▸ List.forall_mem_nil _⟩
    have hvar : (Fresh.localVar "s" (.plain "java.lang.String")
        (some (Fresh.literal (.str "")))).HasHarmlessNames :=
      Node.hasHarmlessNames_iff.2
        ⟨areHarmless_cons.2 ⟨by decide, List.forall_mem_singleton.2 (by decide)⟩,
          List.forall_mem_singleton.2 (hnone rfl rfl)⟩
    have hret : (Fresh.ret (some (Fresh.literal (.str "/* \"")))).HasHarmlessNames :=
      Node.hasHarmlessNames_iff.2
        ⟨List.forall_mem_nil _, List.forall_mem_singleton.2 (hnone rfl rfl)⟩
    exact Node.hasHarmlessNames_iff.2 ⟨List.forall_mem_nil _,
      List.forall_mem_cons.2 ⟨hvar, List.forall_mem_singleton.2 hret⟩⟩
  obtain ⟨hprint, -, -, hscan⟩ := uncommented_of_hasHarmlessNames hharmless
  obtain ⟨hcounts, hsame⟩ := hscan textScan rfl
  have hcomment : contains "/* \"" = true := by with_unfolding_all rfl
  exact ⟨hcomment, hprint, hcounts "com.example.Texts", hsame fun _ _ => rfl⟩

end Scan

end Codemod
