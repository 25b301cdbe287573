import Codemod.Scan.Scanner
import Mathlib.Algebra.BigOperators.Group.List.Basic
import Mathlib.Algebra.GroupWithZero.Nat
import Mathlib.Data.List.Nodup
/-!
# Counting what happens to rules

The counters of a rule count the events of each kind (`RuleCounters.countAll_eq`),
and the statistics of several rules count for each the events under its name
(`RuleStatistics.entries_recordAll`). When every event concerns one of them, all
that was found is counted once (`RuleStatistics.totalFound_recordAll`).
-/

namespace Codemod

/-! ## Counters of a rule -/

namespace ScanEvent

/-- The rule is tried. -/
def isAttempted : ScanEvent → Bool
  | .attempted => true
  | _ => false

/-- The rule is switched off. -/
def isSuppressed : ScanEvent → Bool
  | .suppressed => true
  | _ => false

/-- The rule matches code that contains a comment. -/
def isRejected : ScanEvent → Bool
  | .rejectedComment => true
  | _ => false

/-- The rule applies. -/
def isFound : ScanEvent → Bool
  | .found _ => true
  | _ => false

/-- The event is what became of an instance. -/
def isOutcome (e : ScanEvent) : Bool := e.isFound || e.isRejected

end ScanEvent

namespace RuleCounters

/-- The counters after events of one rule. -/
def countAll (c : RuleCounters) (events : List (String × ScanEvent)) : RuleCounters :=
  events.foldl (fun c e => c.count e.2) c

theorem countAll_append (c : RuleCounters) (es fs : List (String × ScanEvent)) :
    c.countAll (es ++ fs) = (c.countAll es).countAll fs :=
  List.foldl_append

/-- **Each counter counts the events of its kind.** -/
theorem countAll_eq (c : RuleCounters) (events : List (String × ScanEvent)) :
    c.countAll events =
      { attempts := c.attempts + events.countP (·.2.isAttempted)
        found := c.found + events.countP (·.2.isFound)
        commentRejections := c.commentRejections + events.countP (·.2.isRejected)
        suppressions := c.suppressions + events.countP (·.2.isSuppressed) } := by
  induction events generalizing c with
  | nil => rfl
  | cons e events ih =>
    obtain ⟨name, event⟩ := e
    rw [countAll, List.foldl_cons, ← countAll, ih]
    cases event <;> simp [count, ScanEvent.isAttempted, ScanEvent.isFound, ScanEvent.isRejected,
      ScanEvent.isSuppressed] <;> omega

end RuleCounters

/-! ## Counters of several rules -/

namespace RuleStatistics

variable {t : RuleStatistics} {name : String} {events : List (String × ScanEvent)}

/-- **The events of a rule are counted for it**, and no others. -/
theorem entries_recordAll (t : RuleStatistics) (events : List (String × ScanEvent)) :
    (t.recordAll events).entries =
      t.entries.map fun (name, c) => (name, c.countAll (events.filter (·.1 == name))) := by
  induction events generalizing t with
  | nil => exact (List.map_id _).symm
  | cons e events ih =>
    rw [recordAll, List.foldl_cons, ← recordAll, ih, record, List.map_map]
    refine List.map_congr_left fun entry _ => ?_
    dsimp only [Function.comp]
    rw [List.filter_cons, Bool.beq_comm]
    split <;> rfl

theorem names_recordAll (t : RuleStatistics) (events : List (String × ScanEvent)) :
    (t.recordAll events).entries.map (·.1) = t.entries.map (·.1) := by
  rw [entries_recordAll, List.map_map]
  rfl

theorem get?_recordAll :
    (t.recordAll events).get? name =
      (t.get? name).map fun c => c.countAll (events.filter (·.1 == name)) := by
  rw [get?, get?, entries_recordAll]
  induction t.entries with
  | nil => rfl
  | cons entry entries ih =>
    obtain ⟨first, c⟩ := entry
    rw [List.map_cons, List.lookup_cons, List.lookup_cons, ih]
    cases hfirst : name == first with
    | false => rfl
    | true => rw [eq_of_beq hfirst]; rfl

/-- Events of several rules are as many as those of each together. -/
theorem sum_countP_filter {names : List String} (hnames : names.Nodup)
    (hevents : ∀ e ∈ events, e.1 ∈ names) (p : String × ScanEvent → Bool) :
    (names.map fun name => (events.filter (·.1 == name)).countP p).sum = events.countP p := by
  induction names generalizing events with
  | nil =>
    obtain rfl := List.eq_nil_iff_forall_not_mem.2 fun e he => List.not_mem_nil (hevents e he)
    rfl
  | cons first names ih =>
    obtain ⟨hfirst, hnames⟩ := List.nodup_cons.1 hnames
    have hothers : ∀ e ∈ events.filter (!·.1 == first), e.1 ∈ names := fun e he => by
      obtain ⟨he, hne⟩ := List.mem_filter.1 he
      exact (List.mem_cons.1 (hevents e he)).resolve_left (by simpa using hne)
    -- For the other names, the events of the first may be left out.
    have hrest : ∀ name ∈ names, (events.filter (·.1 == name)).countP p =
        ((events.filter (!·.1 == first)).filter (·.1 == name)).countP p := fun name hname => by
      rw [List.filter_filter]
      refine congrArg (List.countP p) (List.filter_congr fun e _ => ?_)
      cases he : e.1 == name with
      | false => rfl
      | true =>
        have hne : e.1 ≠ first := fun h => hfirst (h ▸ eq_of_beq he ▸ hname)
        simp [hne]
    rw [List.map_cons, List.sum_cons, List.map_congr_left hrest, ih hnames hothers,
      ← List.countP_eq_countP_filter_add]

theorem totalFound_eq_sum (t : RuleStatistics) :
    t.totalFound = (t.entries.map (·.2.found)).sum := by
  rw [totalFound, List.sum, List.foldr_map]

/-- **What is found of all rules** is what events say that something is found. -/
theorem totalFound_recordAll (hnames : (t.entries.map (·.1)).Nodup)
    (hevents : ∀ e ∈ events, e.1 ∈ t.entries.map (·.1)) :
    (t.recordAll events).totalFound = t.totalFound + events.countP (·.2.isFound) := by
  rw [totalFound_eq_sum, totalFound_eq_sum, entries_recordAll, ← sum_countP_filter hnames hevents,
    List.map_map, List.map_map, ← List.sum_map_add]
  refine congrArg List.sum (List.map_congr_left fun entry _ => ?_)
  exact congrArg RuleCounters.found (RuleCounters.countAll_eq _ _)

theorem eraseDups_of_nodup {names : List String} (h : names.Nodup) : names.eraseDups = names := by
  induction names with
  | nil => rfl
  | cons name names ih =>
    obtain ⟨hname, hnames⟩ := List.nodup_cons.1 h
    have hkept : names.filter (fun other => !other == name) = names :=
      List.filter_eq_self.2 fun other hother => by
        simpa using fun heq : other = name => hname (heq ▸ hother)
    rw [List.eraseDups_cons, hkept, ih hnames]

theorem names_ofRules {rules : List Rule} (hnames : (rules.map (·.name)).Nodup) :
    (ofRules rules).entries.map (·.1) = rules.map (·.name) := by
  rw [ofRules, List.map_map, eraseDups_of_nodup hnames]
  exact List.map_id _

/-- Every rule has its counters from the start. -/
theorem get?_ofRules {rules : List Rule} {rule : Rule} (h : rule ∈ rules) :
    (ofRules rules).get? rule.name = some .zero :=
  List.lookup_graph (fun _ => RuleCounters.zero)
    (List.mem_eraseDups.2 (List.mem_map_of_mem h))

theorem totalFound_ofRules (rules : List Rule) : (ofRules rules).totalFound = 0 := by
  rw [totalFound_eq_sum, ofRules, List.map_map]
  exact List.sum_eq_zero fun n hn => by
    obtain ⟨name, -, rfl⟩ := List.mem_map.1 hn
    rfl

end RuleStatistics

end Codemod
