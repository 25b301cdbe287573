import Codemod.Proofs.Scan.Counting
import Codemod.Proofs.Scan.PlainPass
/-!
# What a scanner counts

The counters of a rule say how the nodes that a scanner visited came off
(`Scan.Accounts`), whatever was suppressed, rejected or matched more than once on
the way. At each node the rule is inactive, switched off, or tried, and when it is
tried every instance is either found or rejected (`Scan.evaluate_cases`). So the
accounts stay right from node to node (`Scan.Accounts.step`), and the books of the
scanner balance from tree to tree (`Scanner.Balances.run`), up to what its scans
report in all (`Scanner.exact_accounts_runAll`).
-/

namespace Codemod

/-! ## At one node -/

namespace ScanLog

/-- When several logs do not fail, all that they log is logged. -/
theorem events_inOrder {logs : List ScanLog} (h : (inOrder logs).failure = none) :
    (inOrder logs).events = logs.flatMap (·.events) := by
  induction logs with
  | nil => rfl
  | cons log logs ih =>
    rw [inOrder, List.foldr_cons, failure_andThen, Option.or_eq_none_iff] at h
    rw [inOrder, List.foldr_cons, andThen, h.1, List.flatMap_cons, ← ih h.2]
    rfl

end ScanLog

namespace Scan

variable {s : Scan} {rule : Rule} {visit : Visit} {c : RuleCounters} {visits : List Visit}

/-- The rule may speak at the node and is not switched off there. -/
def tries (s : Scan) (rule : Rule) (visit : Visit) : Bool :=
  isActive rule visit && !s.suppression rule visit.node visit.ancestors

theorem exists_event_report {node : Node} {found : Instance}
    (h : (s.report rule node found).failure = none) :
    ∃ e, ScanEvent.isOutcome e = true ∧ (s.report rule node found).events = [(rule.name, e)] := by
  unfold report at h ⊢
  split
  · exact ⟨_, rfl, rfl⟩
  · rename_i haccepted
    rw [if_neg haccepted] at h
    cases hfixes : s.fixes rule node found with
    | ok fixes => exact ⟨_, rfl, rfl⟩
    | error e =>
      rw [hfixes] at h
      exact absurd h nofun

/-- Every instance has one outcome, if none of them fails. -/
theorem exists_outcomes_reports {node : Node} {is : List Instance}
    (h : (ScanLog.inOrder (is.map (s.report rule node))).failure = none) :
    ∃ outcomes : List ScanEvent, outcomes.length = is.length ∧
      (∀ e ∈ outcomes, e.isOutcome = true) ∧
      (ScanLog.inOrder (is.map (s.report rule node))).events = outcomes.map (rule.name, ·) := by
  rw [ScanLog.events_inOrder h]
  have heach : ∀ found ∈ is, ∃ e, ScanEvent.isOutcome e = true ∧
      (s.report rule node found).events = [(rule.name, e)] := fun found hfound =>
    exists_event_report (ScanLog.of_failure_inOrder_eq_none h _ (List.mem_map_of_mem hfound)).1
  clear h
  induction is with
  | nil => exact ⟨[], rfl, nofun, rfl⟩
  | cons found is ih =>
    obtain ⟨e, he, hevents⟩ := heach found List.mem_cons_self
    obtain ⟨outcomes, hlength, houtcomes, hrest⟩ :=
      ih fun found hfound => heach found (List.mem_cons_of_mem _ hfound)
    refine ⟨e :: outcomes, congrArg (· + 1) hlength, List.forall_mem_cons.2 ⟨he, houtcomes⟩, ?_⟩
    rw [List.map_cons, List.flatMap_cons, hevents, hrest]
    rfl

/-- **Where a rule is evaluated without failing**, it is inactive, or switched off, or
tried. What is tried comes to one event for every instance. -/
theorem evaluate_cases (h : (s.evaluate visit rule).failure = none) :
    (isActive rule visit = false ∧ s.tries rule visit = false ∧
        (s.evaluate visit rule).events = []) ∨
      (isActive rule visit = true ∧ s.tries rule visit = false ∧
        (s.evaluate visit rule).events = [(rule.name, .suppressed)]) ∨
      (isActive rule visit = true ∧ s.tries rule visit = true ∧ ∃ outcomes : List ScanEvent,
        outcomes.length = (s.instances rule visit).length ∧ (∀ e ∈ outcomes, e.isOutcome = true) ∧
          (s.evaluate visit rule).events =
            (rule.name, .attempted) :: outcomes.map (rule.name, ·)) := by
  unfold evaluate tries at *
  cases hactive : isActive rule visit with
  | false => exact .inl ⟨rfl, rfl, rfl⟩
  | true =>
    rw [hactive] at h
    cases hsuppressed : s.suppression rule visit.node visit.ancestors with
    | true => exact .inr (.inl ⟨rfl, rfl, rfl⟩)
    | false =>
      rw [hsuppressed] at h
      -- The attempt is logged first, and cannot fail.
      have hreports : (ScanLog.inOrder
          ((s.instances rule visit).map (s.report rule visit.node))).failure = none := h
      obtain ⟨outcomes, hlength, houtcomes, hevents⟩ := exists_outcomes_reports hreports
      refine .inr (.inr ⟨rfl, rfl, outcomes, hlength, houtcomes, ?_⟩)
      exact congrArg ((rule.name, ScanEvent.attempted) :: ·) hevents

theorem countP_outcomes (name : String) {outcomes : List ScanEvent}
    (h : ∀ e ∈ outcomes, e.isOutcome = true) :
    (outcomes.map (name, ·)).countP (·.2.isAttempted) = 0 ∧
      (outcomes.map (name, ·)).countP (·.2.isSuppressed) = 0 ∧
      (outcomes.map (name, ·)).countP (·.2.isFound) +
        (outcomes.map (name, ·)).countP (·.2.isRejected) = outcomes.length := by
  induction outcomes with
  | nil => exact ⟨rfl, rfl, rfl⟩
  | cons e outcomes ih =>
    obtain ⟨he, houtcomes⟩ := List.forall_mem_cons.1 h
    obtain ⟨hattempted, hsuppressed, hall⟩ := ih houtcomes
    rw [List.map_cons, List.countP_cons, List.countP_cons, List.countP_cons, List.countP_cons,
      hattempted, hsuppressed, List.length_cons, ← hall]
    cases e
    case suppressed | attempted => exact absurd he (by decide)
    case rejectedComment => exact ⟨rfl, rfl, rfl⟩
    case found f => exact ⟨rfl, rfl, Nat.succ_add _ _⟩

/-- **What is counted at a node.** Where the rule is active it is attempted or
suppressed, once, and an attempt finds or rejects every instance. -/
theorem countP_evaluate (h : (s.evaluate visit rule).failure = none) :
    (s.evaluate visit rule).events.countP (·.2.isAttempted) +
        (s.evaluate visit rule).events.countP (·.2.isSuppressed) =
          (if isActive rule visit then 1 else 0) ∧
      (s.evaluate visit rule).events.countP (·.2.isAttempted) =
        (if s.tries rule visit then 1 else 0) ∧
      (s.evaluate visit rule).events.countP (·.2.isFound) +
        (s.evaluate visit rule).events.countP (·.2.isRejected) =
          (if s.tries rule visit then (s.instances rule visit).length else 0) := by
  rcases evaluate_cases h with ⟨hactive, htries, hevents⟩ | ⟨hactive, htries, hevents⟩ |
    ⟨hactive, htries, outcomes, hlength, houtcomes, hevents⟩
  · rw [hevents, hactive, htries]
    exact ⟨rfl, rfl, rfl⟩
  · rw [hevents, hactive, htries]
    exact ⟨rfl, rfl, rfl⟩
  · obtain ⟨hattempted, hsuppressed, hall⟩ := countP_outcomes rule.name houtcomes
    rw [hevents, hactive, htries, List.countP_cons, List.countP_cons, List.countP_cons,
      List.countP_cons, hattempted, hsuppressed]
    exact ⟨rfl, rfl, hall.trans hlength⟩

/-! ## From node to node -/

/-- **The counters of a rule are right for the nodes visited.** Attempts and
suppressions make up the nodes at which the rule is active, attempts those at
which it is tried, and what was found or rejected the instances there. -/
structure Accounts (s : Scan) (rule : Rule) (visits : List Visit) (c : RuleCounters) : Prop where
  active : c.attempts + c.suppressions = visits.countP (isActive rule)
  tried : c.attempts = visits.countP (s.tries rule)
  instances : c.found + c.commentRejections =
    ((visits.filter (s.tries rule)).map fun visit => (s.instances rule visit).length).sum

theorem Accounts.zero : s.Accounts rule [] .zero := ⟨rfl, rfl, rfl⟩

/-- **One more node keeps the accounts right.** -/
theorem Accounts.step (hc : s.Accounts rule visits c)
    (h : (s.evaluate visit rule).failure = none) :
    s.Accounts rule (visits ++ [visit]) (c.countAll (s.evaluate visit rule).events) := by
  obtain ⟨hcActive, hcTried, hcInstances⟩ := hc
  obtain ⟨hactive, htried, hinstances⟩ := countP_evaluate h
  rw [RuleCounters.countAll_eq]
  refine ⟨?_, ?_, ?_⟩ <;> dsimp only
  · rw [List.countP_append, List.countP_singleton, ← hactive, ← hcActive]
    omega
  · rw [List.countP_append, List.countP_singleton, ← htried, ← hcTried]
  · have hlast : (([visit].filter (s.tries rule)).map fun visit =>
        (s.instances rule visit).length).sum =
          if s.tries rule visit then (s.instances rule visit).length else 0 := by
      rw [List.filter_singleton]
      cases s.tries rule visit <;> rfl
    rw [List.filter_append, List.map_append, List.sum_append, hlast, ← hinstances, ← hcInstances]
    omega

theorem Accounts.steps (hc : s.Accounts rule visits c) (ws : List Visit)
    (h : ∀ visit ∈ ws, (s.evaluate visit rule).failure = none) :
    s.Accounts rule (visits ++ ws)
      (c.countAll (ws.flatMap fun visit => (s.evaluate visit rule).events)) := by
  induction ws generalizing visits c with
  | nil => rwa [List.append_nil]
  | cons visit ws ih =>
    obtain ⟨hfirst, hrest⟩ := List.forall_mem_cons.1 h
    rw [List.flatMap_cons, RuleCounters.countAll_append, List.append_cons]
    exact ih (hc.step hfirst) hrest

/-! ## A whole tree -/

variable {root : Node}

theorem failure_evaluate_of_run (h : (s.run root).failure = none) (hvisit : visit ∈ root.scanVisits)
    (hrule : rule ∈ s.rules) : (s.evaluate visit rule).failure = none :=
  (ScanLog.of_failure_inOrder_eq_none h _
    (List.mem_flatMap.2 ⟨visit, hvisit, List.mem_map_of_mem hrule⟩)).1

theorem fst_of_mem_evaluate {e : String × ScanEvent} (h : (s.evaluate visit rule).failure = none)
    (he : e ∈ (s.evaluate visit rule).events) : e.1 = rule.name := by
  rcases evaluate_cases h with ⟨-, -, hevents⟩ | ⟨-, -, hevents⟩ | ⟨-, -, outcomes, -, -, hevents⟩
  · rw [hevents] at he
    exact absurd he List.not_mem_nil
  · rw [hevents] at he
    rw [List.mem_singleton.1 he]
  · rw [hevents] at he
    rcases List.mem_cons.1 he with rfl | he
    · rfl
    · obtain ⟨outcome, -, rfl⟩ := List.mem_map.1 he
      rfl

/-- **What is logged under the name of a rule** is what it came to at the nodes
visited. -/
theorem filter_events_run (hnames : (s.rules.map (·.name)).Nodup) (hrule : rule ∈ s.rules)
    (h : (s.run root).failure = none) :
    (s.run root).events.filter (·.1 == rule.name) =
      root.scanVisits.flatMap fun visit => (s.evaluate visit rule).events := by
  have hevents : (s.run root).events =
      root.scanVisits.flatMap fun visit =>
        s.rules.flatMap fun r => (s.evaluate visit r).events := by
    rw [run, ScanLog.events_inOrder h, List.flatMap_assoc]
    simp only [List.flatMap_map]
  rw [hevents, List.filter_flatMap]
  exact List.flatMap_congr fun visit hvisit => filter_flatMap_name hnames hrule fun r hr _ he =>
    fst_of_mem_evaluate (failure_evaluate_of_run h hvisit hr) he

/-- What is found is found under the name of its rule. -/
theorem rule_of_found_mem_run {name : String} {f : Finding}
    (h : (name, .found f) ∈ (s.run root).events) : f.rule = name := by
  obtain ⟨visit, -, rule, -, h⟩ := exists_of_mem_run h
  obtain ⟨-, -, found, -, h⟩ := exists_of_mem_evaluate h nofun nofun
  obtain ⟨-, rfl, fixes, -, rfl⟩ := found_mem_report h
  rfl

/-- **The findings of a rule** are as many as its events that say so. -/
theorem countP_findings_run (name : String) :
    (s.run root).findings.countP (·.rule == name) =
      ((s.run root).events.filter (·.1 == name)).countP (·.2.isFound) := by
  rw [ScanLog.findings, List.countP_filterMap, List.countP_filter]
  refine List.countP_congr fun e he => ?_
  obtain ⟨rule, event⟩ := e
  cases event with
  | found f =>
    obtain rfl := rule_of_found_mem_run he
    simp [ScanEvent.isFound]
  | _ => simp [ScanEvent.isFound]

end Scan

theorem ScanLog.length_findings (log : ScanLog) :
    log.findings.length = log.events.countP (·.2.isFound) := by
  rw [findings, List.length_filterMap_eq_countP]
  refine List.countP_congr fun e _ => ?_
  obtain ⟨rule, event⟩ := e
  cases event <;> simp [ScanEvent.isFound]

/-! ## From tree to tree -/

namespace Scanner

open Scan

variable {scanner : Scanner} {visits : List Visit} {delivered : List Finding}

/-- **The books of a scanner balance** for the nodes it visited and the findings it
handed over. -/
structure Balances (scanner : Scanner) (visits : List Visit) (delivered : List Finding) :
    Prop where
  names : scanner.statistics.entries.map (·.1) = scanner.scan.rules.map (·.name)
  counters : ∀ rule ∈ scanner.scan.rules, ∃ c, scanner.statistics.get? rule.name = some c ∧
    scanner.scan.Accounts rule visits c ∧ c.found = delivered.countP (·.rule == rule.name)
  total : scanner.statistics.totalFound = delivered.length

theorem Balances.new {s : Scan} (hnames : (s.rules.map (·.name)).Nodup) :
    (Scanner.new s).Balances [] [] where
  names := RuleStatistics.names_ofRules hnames
  counters _ hrule := ⟨.zero, RuleStatistics.get?_ofRules hrule, Accounts.zero, rfl⟩
  total := RuleStatistics.totalFound_ofRules s.rules

theorem reported_run (root : Node) :
    (scanner.run root).1.reported = (scanner.scan.findings root).map List.length := by
  unfold run Scan.findings
  dsimp only
  cases (scanner.scan.run root).failure <;> rfl

theorem reported_run_eq_ok_iff {root : Node} {n : Nat} :
    (scanner.run root).1.reported = .ok n ↔
      (scanner.scan.run root).failure = none ∧ (scanner.run root).1.delivered.length = n := by
  unfold run
  dsimp only
  cases (scanner.scan.run root).failure <;> simp

/-- **One more tree keeps the books balanced**, if its scan does not end early. -/
theorem Balances.run (h : scanner.Balances visits delivered)
    (hnames : (scanner.scan.rules.map (·.name)).Nodup) {root : Node} {n : Nat}
    (hok : (scanner.run root).1.reported = .ok n) :
    (scanner.run root).2.Balances (visits ++ root.scanVisits)
      (delivered ++ (scanner.run root).1.delivered) where
  names := (RuleStatistics.names_recordAll _ _).trans h.names
  counters rule hrule := by
    obtain ⟨c, hget, hc, hfound⟩ := h.counters rule hrule
    have hfailure := (reported_run_eq_ok_iff.1 hok).1
    have hevents := filter_events_run hnames hrule hfailure
    refine ⟨_, RuleStatistics.get?_recordAll.trans (by rw [hget, Option.map_some]), ?_, ?_⟩
    · rw [hevents]
      exact hc.steps _ fun visit hvisit => failure_evaluate_of_run hfailure hvisit hrule
    · rw [RuleCounters.countAll_eq, List.countP_append, ← hfound]
      exact congrArg (c.found + ·) (countP_findings_run rule.name).symm
  total := by
    have hknown : ∀ e ∈ (scanner.scan.run root).events,
        e.1 ∈ scanner.statistics.entries.map (·.1) := fun e he => by
      obtain ⟨visit, hvisit, rule, hrule, he⟩ := exists_of_mem_run he
      rw [h.names, fst_of_mem_evaluate
        (failure_evaluate_of_run (reported_run_eq_ok_iff.1 hok).1 hvisit hrule) he]
      exact List.mem_map_of_mem hrule
    rw [List.length_append, ← h.total]
    refine (RuleStatistics.totalFound_recordAll (h.names ▸ hnames) hknown).trans ?_
    exact congrArg (scanner.statistics.totalFound + ·)
      (ScanLog.length_findings (scanner.scan.run root)).symm

theorem Balances.runAll (h : scanner.Balances visits delivered)
    (hnames : (scanner.scan.rules.map (·.name)).Nodup) {roots : List Node} {counts : List Nat}
    (hok : (scanner.runAll roots).1.map (·.reported) = counts.map .ok) :
    (scanner.runAll roots).2.Balances (visits ++ roots.flatMap Node.scanVisits)
        (delivered ++ (scanner.runAll roots).1.flatMap (·.delivered)) ∧
      counts.sum = ((scanner.runAll roots).1.flatMap (·.delivered)).length := by
  induction roots generalizing scanner visits delivered counts with
  | nil =>
    obtain rfl := List.map_eq_nil_iff.1 hok.symm
    exact ⟨by simpa [Scanner.runAll] using h, rfl⟩
  | cons root roots ih =>
    cases counts with
    | nil => exact absurd hok nofun
    | cons n counts =>
      obtain ⟨hfirst, hrest⟩ := List.cons.inj hok
      obtain ⟨hbalances, hsum⟩ := ih (h.run hnames hfirst) hnames hrest
      rw [List.append_assoc, List.append_assoc] at hbalances
      refine ⟨hbalances, ?_⟩
      rw [List.sum_cons, hsum, ← (reported_run_eq_ok_iff.1 hfirst).2]
      exact List.length_append.symm

/-- A scanner goes by the same from tree to tree. -/
theorem scan_runAll (scanner : Scanner) (roots : List Node) :
    (scanner.runAll roots).2.scan = scanner.scan := by
  induction roots generalizing scanner with
  | nil => rfl
  | cons root roots ih => exact ih (scanner.run root).2

/-- **A scanner keeps exact accounts.** When it goes by rules with different names
and none of its scans ends early, the counters of each rule are right for all
nodes visited, it found of each what was handed over of it, and what the scans
report adds up to what was found in all. -/
theorem exact_accounts_runAll {s : Scan} (hnames : (s.rules.map (·.name)).Nodup)
    {roots : List Node} {results : List ScanResult} {scanner : Scanner} {counts : List Nat}
    (hrun : (Scanner.new s).runAll roots = (results, scanner))
    (hok : results.map (·.reported) = counts.map .ok) :
    (∀ rule ∈ s.rules, ∃ c, scanner.statistics.get? rule.name = some c ∧
        s.Accounts rule (roots.flatMap Node.scanVisits) c ∧
        c.found = (results.flatMap (·.delivered)).countP (·.rule == rule.name)) ∧
      counts.sum = scanner.statistics.totalFound := by
  have hscan : ((Scanner.new s).runAll roots).2.scan = s := scan_runAll _ roots
  have hall : ((Scanner.new s).runAll roots).1.map (·.reported) = counts.map .ok := by
    rw [hrun, hok]
  obtain ⟨hbalances, hsum⟩ := (Balances.new hnames).runAll hnames hall
  rw [hrun] at hscan hbalances hsum
  dsimp only at hscan hbalances hsum
  refine ⟨fun rule hrule => ?_, hsum.trans hbalances.total.symm⟩
  have hcounters := hbalances.counters rule (hscan.symm ▸ hrule)
  rwa [hscan] at hcounters

/-- Two scans point out one truth each, and count what is switched off. -/
theorem accounts_flagScan :
    (∃ c, ((Scanner.new flagScan).runAll [quietMethod, quietMethod]).2.statistics.get?
          "com.example.Counts" = some c ∧
        flagScan.Accounts (flagRule "com.example.Counts" "int")
          ([quietMethod, quietMethod].flatMap Node.scanVisits) c ∧
        c.found = (((Scanner.new flagScan).runAll [quietMethod, quietMethod]).1.flatMap
          (·.delivered)).countP (·.rule == "com.example.Counts")) ∧
      ((Scanner.new flagScan).runAll [quietMethod, quietMethod]).2.statistics.totalFound = 2 := by
  have hfirst : ((Scanner.new flagScan).run quietMethod).1.reported = .ok 1 := by
    rw [reported_run]
    exact congrArg (Except.map List.length) findings_flagScan
  have hok : ((Scanner.new flagScan).runAll [quietMethod, quietMethod]).1.map (·.reported) =
      [1, 1].map .ok := by
    have hsecond : (((Scanner.new flagScan).run quietMethod).2.run quietMethod).1.reported =
        .ok 1 := hfirst
    simp only [runAll, List.map_cons, List.map_nil, hfirst, hsecond]
  obtain ⟨hrules, htotal⟩ := exact_accounts_runAll (by decide) rfl hok
  exact ⟨hrules (flagRule "com.example.Counts" "int") (List.mem_cons_of_mem _ List.mem_cons_self),
    htotal.symm⟩

end Scanner

end Codemod
