import Codemod.Proofs.Outcome
import Codemod.Scan.Basic
/-!
# What a scan reports

All that a scan reports goes back to a place where a rule applies: a node that
the scan visits, a rule that may speak there, and an instance of the first of
its Before-Templates that matches (`Scan.Applies`). A finding shows such an
instance with the fixes for it (`Scan.exists_of_mem_findings`), and a failure is
that the fixes for one cannot be rendered (`Scan.exists_of_failure`). In turn a
scan that does not fail finds every place where a rule applies
(`Scan.Applies.exists_mem_findings`).
-/

namespace Codemod

open Outcome

/-! ## Logs one after another -/

namespace ScanLog

/-- Two logs one after the other fail when the first does, or the second after
it. -/
theorem failure_andThen (a b : ScanLog) : (a.andThen b).failure = a.failure.or b.failure := by
  unfold andThen
  cases hfailure : a.failure <;> simp [hfailure]

theorem events_andThen_subset (a b : ScanLog) : (a.andThen b).events ⊆ a.events ++ b.events := by
  unfold andThen
  split
  · exact List.subset_append_left _ _
  · exact List.Subset.refl _

/-- A failure of several logs is the failure of one of them. -/
theorem exists_of_failure_inOrder {logs : List ScanLog} {e : RenderError}
    (h : (inOrder logs).failure = some e) : ∃ log ∈ logs, log.failure = some e := by
  induction logs with
  | nil => exact absurd h nofun
  | cons log logs ih =>
    rw [inOrder, List.foldr_cons, failure_andThen, Option.or_eq_some_iff] at h
    rcases h with hfirst | ⟨-, hrest⟩
    · exact ⟨log, List.mem_cons_self, hfirst⟩
    · obtain ⟨log', hlog', he⟩ := ih hrest
      exact ⟨log', List.mem_cons_of_mem _ hlog', he⟩

/-- An event of several logs is an event of one of them. -/
theorem exists_of_mem_events_inOrder {logs : List ScanLog} {event : String × ScanEvent}
    (h : event ∈ (inOrder logs).events) : ∃ log ∈ logs, event ∈ log.events := by
  induction logs with
  | nil => exact absurd h List.not_mem_nil
  | cons log logs ih =>
    rcases List.mem_append.1 (events_andThen_subset _ _ h) with hfirst | hrest
    · exact ⟨log, List.mem_cons_self, hfirst⟩
    · obtain ⟨log', hlog', hevent⟩ := ih hrest
      exact ⟨log', List.mem_cons_of_mem _ hlog', hevent⟩

/-- When several logs do not fail, none of them does, and all their events are
logged. -/
theorem of_failure_inOrder_eq_none {logs : List ScanLog} (h : (inOrder logs).failure = none) :
    ∀ log ∈ logs, log.failure = none ∧ log.events ⊆ (inOrder logs).events := by
  induction logs with
  | nil => exact nofun
  | cons first logs ih =>
    rw [inOrder, List.foldr_cons, failure_andThen, Option.or_eq_none_iff] at h
    obtain ⟨hfirst, hrest⟩ := h
    have hevents : (inOrder (first :: logs)).events = first.events ++ (inOrder logs).events := by
      rw [inOrder, List.foldr_cons, andThen, hfirst]
      rfl
    intro log hlog
    rw [hevents]
    rcases List.mem_cons.1 hlog with rfl | hlog
    · exact ⟨hfirst, List.subset_append_left _ _⟩
    · obtain ⟨hfailure, hsub⟩ := ih hrest log hlog
      exact ⟨hfailure, List.subset_append_of_subset_right _ hsub⟩

theorem mem_findings_iff {log : ScanLog} {f : Finding} :
    f ∈ log.findings ↔ ∃ rule, (rule, .found f) ∈ log.events := by
  unfold findings
  rw [List.mem_filterMap]
  constructor
  · rintro ⟨⟨rule, event⟩, hevent, hf⟩
    cases event with
    | found f' =>
      obtain rfl := Option.some.inj hf
      exact ⟨rule, hevent⟩
    | _ => exact absurd hf nofun
  · rintro ⟨rule, hevent⟩
    exact ⟨_, hevent, rfl⟩

end ScanLog

namespace Scan

variable {s : Scan} {root : Node} {visit : Visit} {rule : Rule} {found : Instance}

/-- **The rule applies at a node that the scan visits**, with an instance of one
of its Before-Templates. -/
structure Applies (s : Scan) (root : Node) (visit : Visit) (rule : Rule) (found : Instance) :
    Prop where
  visited : visit ∈ root.scanVisits
  scanned : rule ∈ s.rules
  active : isActive rule visit = true
  unsuppressed : s.suppression rule visit.node visit.ancestors = false
  matched : found ∈ s.instances rule visit
  accepted : s.rejects rule found = false

/-- The instances at a node are those of a Before-Template. -/
theorem exists_template_of_mem_instances (h : found ∈ s.instances rule visit) :
    ∃ t ∈ rule.before, found ∈ t.instances s.oracle visit.node visit.ancestors.head? := by
  unfold instances at h
  cases hfind : (rule.before.map fun t =>
      t.instances s.oracle visit.node visit.ancestors.head?).find? (!·.isEmpty) with
  | none =>
    rw [hfind] at h
    exact absurd h List.not_mem_nil
  | some is =>
    rw [hfind] at h
    obtain ⟨t, ht, rfl⟩ := List.mem_map.1 (List.mem_of_find?_eq_some hfind)
    exact ⟨t, ht, h⟩

/-- A rule with one Before-Template finds the instances of that. -/
theorem instances_of_before_eq {t : Template} (h : rule.before = [t]) :
    s.instances rule visit = t.instances s.oracle visit.node visit.ancestors.head? := by
  rw [instances, h, List.map_singleton, List.find?_singleton]
  split
  · rfl
  · rename_i hempty
    rw [Bool.not_eq_true, Bool.not_eq_false', List.isEmpty_iff] at hempty
    rw [hempty, Option.getD_none]

/-- **Of what rules with different names bring, each brings what goes by its name.** -/
theorem filter_flatMap_name {α : Type} {rules : List Rule} (hnames : (rules.map (·.name)).Nodup)
    (hrule : rule ∈ rules) {bring : Rule → List α} {nameOf : α → String}
    (h : ∀ r ∈ rules, ∀ a ∈ bring r, nameOf a = r.name) :
    (rules.flatMap bring).filter (nameOf · == rule.name) = bring rule := by
  induction rules with
  | nil => exact absurd hrule List.not_mem_nil
  | cons first rest ih =>
    obtain ⟨hfirst, hrest⟩ := List.forall_mem_cons.1 h
    obtain ⟨hnew, hnames⟩ := List.nodup_cons.1 hnames
    rw [List.flatMap_cons, List.filter_append]
    rcases List.mem_cons.1 hrule with rfl | hlater
    · rw [List.filter_eq_self.2 fun a ha => beq_iff_eq.2 (hfirst a ha), List.filter_eq_nil_iff.2,
        List.append_nil]
      intro a ha hname
      obtain ⟨r, hr, ha⟩ := List.mem_flatMap.1 ha
      exact hnew (List.mem_map.2 ⟨r, hr, (hrest r hr a ha).symm.trans (beq_iff_eq.1 hname)⟩)
    · rw [List.filter_eq_nil_iff.2, List.nil_append]
      · exact ih hnames hlater hrest
      · intro a ha hname
        exact hnew (List.mem_map.2 ⟨rule, hlater,
          (beq_iff_eq.1 hname).symm.trans (hfirst a ha)⟩)

/-! ## At one node -/

theorem failure_report {node : Node} {e : RenderError}
    (h : (s.report rule node found).failure = some e) :
    s.rejects rule found = false ∧ s.fixes rule node found = .error e := by
  unfold report at h
  split at h
  · exact absurd h nofun
  · rename_i haccepted
    refine ⟨Bool.not_eq_true _ ▸ haccepted, ?_⟩
    split at h
    · exact absurd h nofun
    · rename_i e' hfixes
      rw [hfixes, Option.some.inj h]

theorem found_mem_report {node : Node} {name : String} {f : Finding}
    (h : (name, .found f) ∈ (s.report rule node found).events) :
    s.rejects rule found = false ∧ name = rule.name ∧ ∃ fixes,
      s.fixes rule node found = .ok fixes ∧
      f = ⟨rule.name, found.span, node.kindName, found.bindings, fixes⟩ := by
  unfold report at h
  split at h
  · exact absurd (List.mem_singleton.1 h) nofun
  · rename_i haccepted
    refine ⟨Bool.not_eq_true _ ▸ haccepted, ?_⟩
    split at h
    · rename_i fixes hfixes
      obtain ⟨rfl, hf⟩ := Prod.mk.inj (List.mem_singleton.1 h)
      exact ⟨rfl, fixes, hfixes, ScanEvent.found.inj hf⟩
    · exact absurd h List.not_mem_nil

theorem failure_evaluate {e : RenderError} (hvisited : visit ∈ root.scanVisits)
    (hrule : rule ∈ s.rules) (h : (s.evaluate visit rule).failure = some e) :
    ∃ found, s.Applies root visit rule found ∧ s.fixes rule visit.node found = .error e := by
  unfold evaluate at h
  split at h
  · exact absurd h nofun
  rename_i hactive
  split at h
  · exact absurd h nofun
  rename_i hunsuppressed
  -- The attempt is logged without failing.
  rw [ScanLog.failure_andThen, Option.none_or] at h
  obtain ⟨log, hlog, he⟩ := ScanLog.exists_of_failure_inOrder h
  obtain ⟨found, hfound, rfl⟩ := List.mem_map.1 hlog
  obtain ⟨haccepted, hfixes⟩ := failure_report he
  exact ⟨found, ⟨hvisited, hrule, by simpa using hactive, by simpa using hunsuppressed, hfound,
    haccepted⟩, hfixes⟩

/-- **What is logged at a node** but a suppression or an attempt is reported of an
instance, and the rule speaks there. -/
theorem exists_of_mem_evaluate {name : String} {event : ScanEvent}
    (h : (name, event) ∈ (s.evaluate visit rule).events) (hsuppressed : event ≠ .suppressed)
    (hattempted : event ≠ .attempted) :
    isActive rule visit = true ∧ s.suppression rule visit.node visit.ancestors = false ∧
      ∃ found ∈ s.instances rule visit,
        (name, event) ∈ (s.report rule visit.node found).events := by
  unfold evaluate at h
  split at h
  · exact absurd h List.not_mem_nil
  rename_i hactive
  split at h
  · exact absurd (Prod.mk.inj (List.mem_singleton.1 h)).2 hsuppressed
  rename_i hunsuppressed
  rcases List.mem_append.1 (ScanLog.events_andThen_subset _ _ h) with hattempt | hreports
  · exact absurd (Prod.mk.inj (List.mem_singleton.1 hattempt)).2 hattempted
  obtain ⟨log, hlog, hevent⟩ := ScanLog.exists_of_mem_events_inOrder hreports
  obtain ⟨found, hfound, rfl⟩ := List.mem_map.1 hlog
  exact ⟨by simpa using hactive, by simpa using hunsuppressed, found, hfound, hevent⟩

theorem found_mem_evaluate {name : String} {f : Finding} (hvisited : visit ∈ root.scanVisits)
    (hrule : rule ∈ s.rules) (h : (name, .found f) ∈ (s.evaluate visit rule).events) :
    ∃ found fixes, s.Applies root visit rule found ∧
      s.fixes rule visit.node found = .ok fixes ∧
      f = ⟨rule.name, found.span, visit.node.kindName, found.bindings, fixes⟩ := by
  obtain ⟨hactive, hunsuppressed, found, hfound, hevent⟩ := exists_of_mem_evaluate h nofun nofun
  obtain ⟨haccepted, -, fixes, hfixes, hf⟩ := found_mem_report hevent
  exact ⟨found, fixes, ⟨hvisited, hrule, hactive, hunsuppressed, hfound, haccepted⟩, hfixes, hf⟩

/-! ## The whole scan -/

/-- What a scan logs it logs of a rule at a node. -/
theorem exists_of_mem_run {e : String × ScanEvent} (h : e ∈ (s.run root).events) :
    ∃ visit ∈ root.scanVisits, ∃ rule ∈ s.rules, e ∈ (s.evaluate visit rule).events := by
  obtain ⟨log, hlog, he⟩ := ScanLog.exists_of_mem_events_inOrder h
  obtain ⟨visit, hvisited, hlog⟩ := List.mem_flatMap.1 hlog
  obtain ⟨rule, hrule, rfl⟩ := List.mem_map.1 hlog
  exact ⟨visit, hvisited, rule, hrule, he⟩

/-- **A scan fails where a rule applies** and the fixes for it fail. -/
theorem exists_of_failure {e : RenderError} (h : (s.run root).failure = some e) :
    ∃ visit rule found, s.Applies root visit rule found ∧
      s.fixes rule visit.node found = .error e := by
  obtain ⟨log, hlog, he⟩ := ScanLog.exists_of_failure_inOrder h
  obtain ⟨visit, hvisited, hlog⟩ := List.mem_flatMap.1 hlog
  obtain ⟨rule, hrule, rfl⟩ := List.mem_map.1 hlog
  obtain ⟨found, happlies, hfixes⟩ := failure_evaluate hvisited hrule he
  exact ⟨visit, rule, found, happlies, hfixes⟩

theorem findings_eq_error_iff {e : RenderError} :
    s.findings root = .error e ↔ (s.run root).failure = some e := by
  unfold findings
  dsimp only
  cases (s.run root).failure <;> simp

/-- A scan that does not fail has findings. -/
theorem findings_eq_ok (h : (s.run root).failure = none) :
    s.findings root = .ok (s.run root).findings := by
  unfold findings
  dsimp only
  rw [h]

/-- **A finding shows where a rule applies**, and the fixes for it. -/
theorem exists_of_mem_findings {fs : List Finding} (h : s.findings root = .ok fs) {f : Finding}
    (hf : f ∈ fs) :
    ∃ visit rule found fixes, s.Applies root visit rule found ∧
      s.fixes rule visit.node found = .ok fixes ∧
      f = ⟨rule.name, found.span, visit.node.kindName, found.bindings, fixes⟩ := by
  unfold findings at h
  dsimp only at h
  split at h
  · exact absurd h nofun
  obtain rfl := Except.ok.inj h
  obtain ⟨name, hevent⟩ := ScanLog.mem_findings_iff.1 hf
  obtain ⟨visit, hvisited, rule, hrule, hevent⟩ := exists_of_mem_run hevent
  obtain ⟨found, fixes, happlies, hfixes, hf⟩ := found_mem_evaluate hvisited hrule hevent
  exact ⟨visit, rule, found, fixes, happlies, hfixes, hf⟩

/-- Where no rule applies, a scan finds nothing. -/
theorem findings_eq_ok_nil (h : ∀ visit rule found, ¬ s.Applies root visit rule found) :
    s.findings root = .ok [] := by
  cases hfindings : s.findings root with
  | error e =>
    obtain ⟨visit, rule, found, happlies, -⟩ :=
      exists_of_failure (findings_eq_error_iff.1 hfindings)
    exact absurd happlies (h visit rule found)
  | ok fs =>
    cases fs with
    | nil => rfl
    | cons f fs =>
      obtain ⟨visit, rule, found, -, happlies, -⟩ :=
        exists_of_mem_findings hfindings (List.mem_cons_self (a := f))
      exact absurd happlies (h visit rule found)

/-- **Where a rule applies, a scan that does not fail finds it.** -/
theorem Applies.exists_mem_findings {fs : List Finding} (happlies : s.Applies root visit rule found)
    (h : s.findings root = .ok fs) :
    ∃ fixes, s.fixes rule visit.node found = .ok fixes ∧
      ⟨rule.name, found.span, visit.node.kindName, found.bindings, fixes⟩ ∈ fs := by
  unfold findings at h
  dsimp only at h
  split at h
  · exact absurd h nofun
  rename_i hrun
  obtain rfl := Except.ok.inj h
  have hmem : s.evaluate visit rule ∈
      root.scanVisits.flatMap fun visit => s.rules.map (s.evaluate visit) :=
    List.mem_flatMap.2 ⟨visit, happlies.visited, List.mem_map_of_mem happlies.scanned⟩
  obtain ⟨hfailure, hevents⟩ := ScanLog.of_failure_inOrder_eq_none hrun _ hmem
  -- At the node, the attempt is logged and then a report of each instance.
  have hevaluate : s.evaluate visit rule =
      ScanLog.andThen ⟨[(rule.name, .attempted)], none⟩
        (.inOrder ((s.instances rule visit).map (s.report rule visit.node))) := by
    rw [evaluate, happlies.active, happlies.unsuppressed]
    rfl
  rw [hevaluate, ScanLog.failure_andThen, Option.none_or] at hfailure
  obtain ⟨hreport, hreported⟩ := ScanLog.of_failure_inOrder_eq_none hfailure _
    (List.mem_map_of_mem happlies.matched)
  rw [report, happlies.accepted, if_neg Bool.false_ne_true] at hreport hreported
  split at hreport
  · rename_i fixes hfixes
    rw [hfixes] at hreported
    refine ⟨fixes, hfixes, ScanLog.mem_findings_iff.2 ⟨rule.name, hevents ?_⟩⟩
    rw [hevaluate]
    exact List.mem_append_right _ (hreported (List.mem_singleton_self _))
  · exact absurd hreport nofun

/-- Fixes fail when an After-Template cannot be rendered. -/
theorem exists_of_fixes_eq_error {node : Node} {e : RenderError}
    (h : s.fixes rule node found = .error e) :
    ∃ t ∈ rule.after, t.render s.oracle s.source rule.name found.bindings found.span
      node.precedence = .error e := by
  unfold fixes at h
  split at h
  · exact absurd h nofun
  obtain ⟨t, ht, h⟩ := exists_of_mapM_eq_error h
  rcases bind_eq_error_iff.1 h with hrender | ⟨r, -, h⟩
  · exact ⟨t, ht, hrender⟩
  · exact absurd h pure_ne_error

/-- The first fix is what the first After-Template is rendered as. -/
theorem head?_of_fixes_eq_ok {rule : Rule} {node : Node} {found : Instance} {fixes : List Fix}
    {t : Template} (hfixes : s.fixes rule node found = .ok fixes)
    (ht : rule.after.head? = some t) :
    ∃ replacement, t.render s.oracle s.source rule.name found.bindings found.span
        node.precedence = .ok replacement ∧
      fixes.head? = some ⟨[⟨found.span, replacement.text⟩], replacement.imports⟩ := by
  obtain ⟨ts, hts⟩ := List.head?_eq_some_iff.1 ht
  unfold Scan.fixes at hfixes
  rw [Rule.isFlagOnly, hts, if_neg (by simp), List.mapM_cons] at hfixes
  obtain ⟨first, hfirst, hfixes⟩ := bind_eq_ok_iff.1 hfixes
  obtain ⟨rest, -, hfixes⟩ := bind_eq_ok_iff.1 hfixes
  obtain rfl := pure_eq_ok_iff.1 hfixes
  obtain ⟨replacement, hrender, hfirst⟩ := bind_eq_ok_iff.1 hfirst
  obtain rfl := pure_eq_ok_iff.1 hfirst
  exact ⟨replacement, hrender, rfl⟩

end Scan

end Codemod
