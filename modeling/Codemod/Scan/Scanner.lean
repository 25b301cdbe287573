import Codemod.Scan.Basic
/-!
# Scanners

A scanner goes by one set of rules from tree to tree. It hands over each finding
as it is made and counts what happens to its rules, from the first tree on. A
scan that ends early has been counted, and its findings handed over, up to there.
-/

namespace Codemod

/-- What happened to rules so far: their counters under their names, in the order
of the rules. Rules of one name share theirs. -/
structure RuleStatistics where
  entries : List (String × RuleCounters)
  deriving DecidableEq, Inhabited

namespace RuleStatistics

/-- Nothing has happened to the rules yet. -/
def ofRules (rules : List Rule) : RuleStatistics :=
  ⟨((rules.map (·.name)).eraseDups).map fun name => (name, .zero)⟩

variable (t : RuleStatistics)

/-- The counters under a name. -/
def get? (name : String) : Option RuleCounters := t.entries.lookup name

/-- How often any rule applied. -/
def totalFound : Nat := t.entries.foldr (fun e n => e.2.found + n) 0

/-- Counts an event for the rule it concerns. -/
def record (e : String × ScanEvent) : RuleStatistics :=
  ⟨t.entries.map fun (name, c) => (name, if name == e.1 then c.count e.2 else c)⟩

/-- Counts one event after another. -/
def recordAll (events : List (String × ScanEvent)) : RuleStatistics := events.foldl record t

end RuleStatistics

/-- What a scanner makes of a tree. -/
structure ScanResult where
  /-- The findings that were handed over, in the order they were made. -/
  delivered : List Finding
  /-- How many there are, if the scan did not end early. -/
  reported : Except RenderError Nat

/-- A set of rules at work on one tree after another. -/
structure Scanner where
  /-- What it goes by. -/
  scan : Scan
  statistics : RuleStatistics

namespace Scanner

/-- A scanner that has seen no tree. -/
def new (s : Scan) : Scanner := ⟨s, .ofRules s.rules⟩

variable (scanner : Scanner)

/-- Scans a tree that stands in no other. -/
def run (root : Node) : ScanResult × Scanner :=
  let log := scanner.scan.run root
  let reported : Except RenderError Nat :=
    match log.failure with
    | some e => .error e
    | none => .ok log.findings.length
  (⟨log.findings, reported⟩,
    { scanner with statistics := scanner.statistics.recordAll log.events })

/-- Scans one tree after another. -/
def runAll (scanner : Scanner) : List Node → List ScanResult × Scanner
  | [] => ([], scanner)
  | root :: rest =>
    let (result, scanner) := scanner.run root
    let (results, scanner) := scanner.runAll rest
    (result :: results, scanner)

end Scanner

end Codemod
