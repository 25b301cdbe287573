import Codemod.Finding
import Codemod.Rule
import Codemod.Template.Rendering
/-!
# Scan logs

What happens in a scan is logged event by event, each under the name of the
rule it concerns, up to the first replacement that cannot be rendered. What
the scan found and how often each rule was tried can both be read off the log.
-/

namespace Codemod

/-- What happens to a rule at a node. -/
inductive ScanEvent where
  /-- It is switched off there. -/
  | suppressed
  /-- It is tried. -/
  | attempted
  /-- It matches code that contains a comment. -/
  | rejectedComment
  /-- It applies. -/
  | found (finding : Finding)

/-- What happened in a scan. -/
structure ScanLog where
  /-- Each event under the name of its rule. -/
  events : List (String × ScanEvent)
  /-- Why the scan ended early. -/
  failure : Option RenderError

namespace ScanLog

/-- Nothing happened. -/
def empty : ScanLog := ⟨[], none⟩

/-- What follows a failure does not happen. -/
def andThen (a b : ScanLog) : ScanLog :=
  match a.failure with
  | some _ => a
  | none => ⟨a.events ++ b.events, b.failure⟩

/-- One log after another. -/
def inOrder (logs : List ScanLog) : ScanLog := logs.foldr andThen empty

/-- The findings, in the order they were made. -/
def findings (log : ScanLog) : List Finding :=
  log.events.filterMap fun e =>
    match e.2 with
    | .found f => some f
    | _ => none

end ScanLog

/-- How often each thing happened to a rule. -/
structure RuleCounters where
  attempts : Nat
  found : Nat
  commentRejections : Nat
  suppressions : Nat
  deriving DecidableEq, Inhabited

namespace RuleCounters

/-- Nothing has happened to the rule yet. -/
def zero : RuleCounters := ⟨0, 0, 0, 0⟩

/-- One more event. -/
def count (c : RuleCounters) : ScanEvent → RuleCounters
  | .suppressed => { c with suppressions := c.suppressions + 1 }
  | .attempted => { c with attempts := c.attempts + 1 }
  | .rejectedComment => { c with commentRejections := c.commentRejections + 1 }
  | .found _ => { c with found := c.found + 1 }

end RuleCounters

namespace ScanLog

/-- The counters of a rule. -/
def counters (log : ScanLog) (rule : String) : RuleCounters :=
  (log.events.filter (·.1 == rule)).foldl (fun c e => c.count e.2) .zero

end ScanLog

end Codemod
