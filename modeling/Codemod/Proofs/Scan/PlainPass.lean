import Codemod.Proofs.Scan.Reports
import Codemod.Tree.Fresh
import Codemod.Tree.Walk
import Codemod.Types.Hierarchy
import Mathlib.Data.List.Forall2
/-!
# A plain pass over the tree

What a scan reports can be said without its short cuts: one rule at a time, at
every node of the tree in the order of the walk, parentheses of conditions
included, and whatever the kinds of its templates (`Scan.plainFindings`). The
scan of many rules reports for each just what this pass finds, and so does a
scan for that rule alone (`Scan.findings_of_rule`): rules do not interfere.

The ways around a node differ in the two passes by parentheses only. No rule is
declared or switched off by these, and a guard that asks for the parent cannot
tell them from the statements whose conditions they enclose.
-/

namespace Codemod

open Outcome

namespace Scan

/-! ## The plain pass -/

/-- The first of several lists that holds anything. -/
def firstNonempty {α : Type} : List (List α) → List α
  | [] => []
  | [] :: rest => firstNonempty rest
  | (a :: as) :: _ => a :: as

/-- A rule is passed over within the class that declares it, and where it is
switched off. -/
def passesOver (s : Scan) (rule : Rule) (node : Node) (ancestors : List Node) : Bool :=
  (node :: ancestors).any (declaresClass rule.name) || s.suppression rule node ancestors

/-- What is reported of an instance. -/
def findingOf (s : Scan) (rule : Rule) (node : Node) (found : Instance) :
    Except RenderError Finding := do
  return ⟨rule.name, found.span, node.kindName, found.bindings, ← s.fixes rule node found⟩

/-- What a rule finds at a node below its ancestors: the instances of its first
Before-Template that has any, but those with a comment that it rejects. -/
def plainFindingsAt (s : Scan) (rule : Rule) (node : Node) (ancestors : List Node) :
    Except RenderError (List Finding) :=
  if s.passesOver rule node ancestors then .ok []
  else
    ((firstNonempty (rule.before.map fun t => t.instances s.oracle node ancestors.head?)).filter
      (!s.rejects rule ·)).mapM (s.findingOf rule node)

/-- What a rule finds at all places of a tree that stands below some
ancestors. -/
def plainFindingsUnder (s : Scan) (rule : Rule) (above : List Ancestor) (n : Node) :
    Except RenderError (List Finding) :=
  concat ((n.placesUnder above).map fun p => s.plainFindingsAt rule p.node (p.above.map (·.node)))

/-- What a rule finds at all places of a tree. -/
def plainFindings (s : Scan) (rule : Rule) (root : Node) : Except RenderError (List Finding) :=
  s.plainFindingsUnder rule [] root

end Scan

/-! ## The findings of a log -/

namespace ScanLog

/-- The findings of a log, unless it ends early. -/
def result (log : ScanLog) : Except RenderError (List Finding) :=
  match log.failure with
  | some e => .error e
  | none => .ok log.findings

theorem result_andThen (a b : ScanLog) :
    (a.andThen b).result = (do return (← a.result) ++ (← b.result)) := by
  obtain ⟨events, _ | e⟩ := a
  · obtain ⟨events', _ | e'⟩ := b
    · simp [andThen, result, findings, bind, Except.bind, pure, Except.pure]
    · rfl
  · rfl

/-- **The findings of several logs** are those of each in turn. -/
theorem result_inOrder (logs : List ScanLog) :
    (inOrder logs).result = concat (logs.map result) := by
  induction logs with
  | nil => rfl
  | cons log logs ih =>
    rw [List.map_cons, concat, ← ih]
    exact result_andThen log (inOrder logs)

end ScanLog

namespace Scan

variable {s : Scan} {rule : Rule}

theorem firstNonempty_eq {α : Type} (ls : List (List α)) :
    firstNonempty ls = (ls.find? (!·.isEmpty)).getD [] := by
  induction ls with
  | nil => rfl
  | cons l ls ih =>
    cases l with
    | nil => simpa [firstNonempty] using ih
    | cons a as => simp [firstNonempty]

theorem result_report (node : Node) (found : Instance) :
    (s.report rule node found).result =
      if s.rejects rule found then .ok [] else (s.findingOf rule node found).map ([·]) := by
  unfold report findingOf
  split
  · rfl
  · cases hfixes : s.fixes rule node found <;> rfl

/-- The reports of several instances are the findings of those that are not
rejected. -/
theorem concat_reports (node : Node) (is : List Instance) :
    concat (is.map fun found => (s.report rule node found).result) =
      (is.filter (!s.rejects rule ·)).mapM (s.findingOf rule node) := by
  induction is with
  | nil => rfl
  | cons found is ih =>
    rw [List.map_cons, concat, ih, result_report]
    cases hrejects : s.rejects rule found with
    | true =>
      rw [List.filter_cons_of_neg (by simp [hrejects])]
      cases (is.filter (!s.rejects rule ·)).mapM (s.findingOf rule node) <;> rfl
    | false =>
      rw [List.filter_cons_of_pos (by simp [hrejects]), List.mapM_cons]
      cases s.findingOf rule node found with
      | error e => rfl
      | ok f => cases (is.filter (!s.rejects rule ·)).mapM (s.findingOf rule node) <;> rfl

/-- What the scan finds of a rule at a node that it visits. -/
def findingsAt (s : Scan) (visit : Visit) (rule : Rule) : Except RenderError (List Finding) :=
  (s.evaluate visit rule).result

theorem findings_eq_concat (root : Node) :
    s.findings root =
      concat (root.scanVisits.map fun visit => concat (s.rules.map (s.findingsAt visit))) := by
  have hrun : s.findings root = (s.run root).result := rfl
  rw [hrun, run, ScanLog.result_inOrder, List.map_flatMap, concat_flatMap]
  simp only [List.map_map]
  rfl

theorem findingsAt_eq (visit : Visit) :
    s.findingsAt visit rule =
      if !isActive rule visit || s.suppression rule visit.node visit.ancestors then .ok []
      else ((s.instances rule visit).filter (!s.rejects rule ·)).mapM
        (s.findingOf rule visit.node) := by
  unfold findingsAt evaluate
  cases isActive rule visit with
  | false => rfl
  | true =>
    cases s.suppression rule visit.node visit.ancestors with
    | true => rfl
    | false =>
      simp only [Bool.not_true, Bool.false_or, Bool.false_eq_true, if_false]
      have hreports : concat ((s.instances rule visit).map
          (ScanLog.result ∘ s.report rule visit.node)) = _ := concat_reports visit.node _
      rw [ScanLog.result_andThen, ScanLog.result_inOrder, List.map_map, hreports]
      -- The attempt itself is logged and finds nothing.
      cases ((s.instances rule visit).filter (!s.rejects rule ·)).mapM
        (s.findingOf rule visit.node) <;> rfl

end Scan

/-! ## What matters about the way to a node -/

namespace Template

variable {o : TypeOracle} {t : Template} {p q : Option Node}

/-- What stands below the parent may be returned: there is no parent, or it is a
`return`. -/
def mayReturn : Option Node → Bool
  | none | some (.ret ..) => true
  | some _ => false

theorem Guard.holds_congr (h : mayReturn p = mayReturn q) (guard : Guard) (n : Node) :
    guard.holds n p = guard.holds n q := by
  have hholds (p : Option Node) : Guard.parentIsReturn.holds n p = mayReturn p := by
    cases p with
    | none => rfl
    | some parent => cases parent <;> rfl
  cases guard with
  | parentIsReturn => rw [hholds, hholds, h]
  | throws => rfl

/-- Of the parent of a candidate only its guards take notice. -/
theorem matchExpr?_congr (h : mayReturn p = mayReturn q) (e : Expr) (code : Node) (b : Bindings) :
    t.matchExpr? o e code p b = t.matchExpr? o e code q b := by
  cases e
  case placeholder name =>
    rw [matchExpr?, matchExpr?]
    unfold matchPlaceholder?
    simp only [Guard.holds_congr h]
  all_goals simp only [matchExpr?]

theorem instances_congr (h : mayReturn p = mayReturn q) (n : Node) :
    t.instances o n p = t.instances o n q := by
  unfold instances
  simp only [matchExpr?_congr h]

end Template

/-- Two ways around a node differ by parentheses only, and guards cannot tell
them apart. -/
structure SameSurroundings (above ancestors : List Node) : Prop where
  outsideParens : above.filter (!·.isParen) = ancestors.filter (!·.isParen)
  mayReturn : Template.mayReturn above.head? = Template.mayReturn ancestors.head?

/-- What holds of no parentheses is found outside them. -/
theorem any_eq_any_filter {test : Node → Bool}
    (htest : ∀ info expr, test (.paren info expr) = false) (ns : List Node) :
    ns.any test = (ns.filter (!·.isParen)).any test := by
  rw [List.any_filter]
  congr 1
  funext n
  cases n
  case paren info expr => exact htest info expr
  all_goals rfl

namespace SameSurroundings

variable {above ancestors : List Node}

theorem cons (h : SameSurroundings above ancestors) (n : Node) :
    SameSurroundings (n :: above) (n :: ancestors) where
  outsideParens := by rw [List.filter_cons, List.filter_cons, h.outsideParens]
  mayReturn := rfl

/-- A statement that returns nothing may enclose what stands in it by
parentheses. -/
theorem cons_paren (h : SameSurroundings above ancestors) {n : Node}
    (hn : Template.mayReturn (some n) = false) (info : NodeInfo) (expr : Node) :
    SameSurroundings (.paren info expr :: n :: above) (n :: ancestors) where
  outsideParens := (h.cons n).outsideParens
  mayReturn := hn.symm

/-- What holds of no parentheses is found on both ways or on neither. -/
theorem any_eq (h : SameSurroundings above ancestors) {test : Node → Bool}
    (htest : ∀ info expr, test (.paren info expr) = false) :
    above.any test = ancestors.any test := by
  rw [any_eq_any_filter htest, h.outsideParens, ← any_eq_any_filter htest]

end SameSurroundings

/-- Parentheses around a node do not decide what is switched off there. -/
def Suppression.IgnoresParens (suppression : Suppression) : Prop :=
  ∀ rule node above ancestors, SameSurroundings above ancestors →
    suppression rule node above = suppression rule node ancestors

theorem Suppression.ignoresParens_nowhere : nowhere.IgnoresParens := fun _ _ _ _ _ => rfl

theorem Suppression.ignoresParens_annotated : annotated.IgnoresParens :=
  fun _ node _ _ h => (h.cons node).any_eq fun _ _ => rfl

namespace Scan

variable {s : Scan} {rule : Rule}

/-- A template has no instances at nodes of the other kinds. -/
theorem instances_eq_nil {t : Template} {o : TypeOracle} {n : Node} {parent : Option Node}
    (hexpr : t.isExpression = true → n.isExpression = false)
    (hblock : t.isExpression = false → n.isBlock = false) : t.instances o n parent = [] := by
  unfold Template.instances
  unfold Template.isExpression at hexpr hblock
  cases hbody : t.body with
  | expr e =>
    rw [hbody] at hexpr
    rw [hexpr rfl]
    rfl
  | block stmts =>
    rw [hbody] at hblock
    have hn := hblock rfl
    cases stmts with
    | nil => rfl
    | cons stmt stmts =>
      cases n
      case block => exact absurd hn nofun
      all_goals rfl

theorem firstNonempty_eq_nil {α : Type} {ls : List (List α)} (h : ∀ l ∈ ls, l = []) :
    firstNonempty ls = [] := by
  induction ls with
  | nil => rfl
  | cons l ls ih =>
    obtain rfl := h l List.mem_cons_self
    exact ih fun l hl => h l (List.mem_cons_of_mem _ hl)

/-- **At a node the two passes find the same**, however they came there. -/
theorem plainFindingsAt_eq (hsuppression : s.suppression.IgnoresParens) {n : Node}
    {above ancestors : List Node} (h : SameSurroundings above ancestors) :
    s.plainFindingsAt rule n above = s.findingsAt ⟨n, ancestors⟩ rule := by
  have hinstances : s.instances rule ⟨n, ancestors⟩ =
      firstNonempty (rule.before.map fun t => t.instances s.oracle n above.head?) := by
    rw [instances, ← firstNonempty_eq]
    simp only [Template.instances_congr h.mayReturn]
  have hdeclares : (n :: above).any (declaresClass rule.name) =
      (n :: ancestors).any (declaresClass rule.name) := (h.cons n).any_eq fun _ _ => rfl
  rw [findingsAt_eq, plainFindingsAt, passesOver, isActive, hinstances, hdeclares,
    hsuppression rule n above ancestors h]
  cases happlies : rule.appliesTo n with
  | true => simp
  | false =>
    -- Where no template could match, none does.
    have hnone : firstNonempty (rule.before.map fun t => t.instances s.oracle n above.head?) =
        [] := by
      refine firstNonempty_eq_nil (List.forall_mem_map.2 fun t ht => ?_)
      rw [Rule.appliesTo, Bool.or_eq_false_iff, Bool.and_eq_false_iff, Bool.and_eq_false_iff,
        List.any_eq_false, List.any_eq_false] at happlies
      refine instances_eq_nil (fun hexpr => ?_) fun hblock => ?_
      · exact happlies.1.resolve_left fun hno => hno t ht hexpr
      · exact happlies.2.resolve_left fun hno => hno t ht (by simp [hblock])
    rw [hnone]
    simp [pure, Except.pure]

end Scan

/-! ## Both passes over a tree -/

/-- The node is a child, or what stands in its parentheses, if these belong to
a statement that returns nothing. -/
def Node.MetFor (n c d : Node) : Prop :=
  c ∈ n.children ∧ (d = c ∨ Template.mayReturn (some n) = false ∧ d = c.stripParen)

theorem Node.MetFor.sizeOf_lt {n c d : Node} (h : n.MetFor c d) : sizeOf d < sizeOf n := by
  obtain ⟨hc, rfl | ⟨-, rfl⟩⟩ := h
  · exact sizeOf_lt_of_mem_children hc
  · exact Nat.lt_of_le_of_lt (sizeOf_stripParen_le c) (sizeOf_lt_of_mem_children hc)

/-- A scan goes on to the children of a node, or to what stands in their
parentheses. -/
theorem Node.forall₂_scanChildren (n : Node) :
    List.Forall₂ (MetFor n) n.children n.scanChildren := by
  have hsame (cs : List Node) (hcs : cs ⊆ n.children) : List.Forall₂ (MetFor n) cs cs :=
    List.forall₂_same.2 fun c hc => ⟨hcs hc, .inl rfl⟩
  cases n
  case ifElse info cond thenBranch elseBranch =>
    exact .cons ⟨List.mem_cons_self, .inr ⟨rfl, rfl⟩⟩ (hsame _ (List.subset_cons_self _ _))
  case whileLoop info cond body =>
    exact .cons ⟨List.mem_cons_self, .inr ⟨rfl, rfl⟩⟩ (hsame _ (List.subset_cons_self _ _))
  case doWhile info body cond =>
    exact .cons ⟨List.mem_cons_self, .inl rfl⟩
      (.cons ⟨List.mem_cons_of_mem _ List.mem_cons_self, .inr ⟨rfl, rfl⟩⟩ .nil)
  case synchronized info lock body =>
    exact .cons ⟨List.mem_cons_self, .inr ⟨rfl, rfl⟩⟩ (hsame _ (List.subset_cons_self _ _))
  all_goals exact hsame _ (List.Subset.refl _)

theorem map_zipIdx_eq_map {α β γ : Type} {f : α × Nat → γ} {g : β → γ} {as : List α} {bs : List β}
    (h : List.Forall₂ (fun a b => ∀ i, f (a, i) = g b) as bs) (k : Nat) :
    (as.zipIdx k).map f = bs.map g := by
  induction h generalizing k with
  | nil => rfl
  | cons hfirst _ ih => rw [List.zipIdx_cons, List.map_cons, List.map_cons, hfirst, ih]

namespace Scan

variable {s : Scan} {rule : Rule}

/-- Nothing is found of parentheses themselves. -/
theorem plainFindingsAt_paren (info : NodeInfo) (expr : Node) (ancestors : List Node) :
    s.plainFindingsAt rule (.paren info expr) ancestors = .ok [] := by
  have hnone : firstNonempty (rule.before.map fun t =>
      t.instances s.oracle (.paren info expr) ancestors.head?) = [] := by
    refine firstNonempty_eq_nil (List.forall_mem_map.2 fun t _ => ?_)
    unfold Template.instances
    cases t.body with
    | expr e => rfl
    | block stmts => cases stmts <;> rfl
  rw [plainFindingsAt, hnone]
  simp [pure, Except.pure]

/-- The plain pass finds what there is at a node, and then below it. -/
theorem plainFindingsUnder_eq (above : List Ancestor) (n : Node) :
    s.plainFindingsUnder rule above n =
      (do return (← s.plainFindingsAt rule n (above.map (·.node))) ++
        (← concat (n.children.zipIdx.map fun c =>
          s.plainFindingsUnder rule (⟨n, c.2⟩ :: above) c.1))) := by
  rw [plainFindingsUnder, Node.placesUnder_eq, List.map_cons, concat, List.map_flatMap,
    concat_flatMap]
  rfl

/-- Of parenthesized code the plain pass finds what the parentheses enclose. -/
theorem plainFindingsUnder_paren (above : List Ancestor) (info : NodeInfo) (expr : Node) :
    s.plainFindingsUnder rule above (.paren info expr) =
      s.plainFindingsUnder rule (⟨.paren info expr, 0⟩ :: above) expr := by
  rw [plainFindingsUnder_eq, plainFindingsAt_paren]
  cases hexpr : s.plainFindingsUnder rule (⟨.paren info expr, 0⟩ :: above) expr <;>
    simp [Node.children, concat, hexpr, bind, Except.bind, pure, Except.pure]

/-- The plain pass finds the same of a child and of what a scan meets for it, in
surroundings that differ by parentheses only. -/
theorem exists_surroundings {n c d : Node} (hmet : n.MetFor c d) {above : List Ancestor}
    {ancestors : List Node} (h : SameSurroundings (above.map (·.node)) ancestors) (i : Nat) :
    ∃ around, s.plainFindingsUnder rule (⟨n, i⟩ :: above) c = s.plainFindingsUnder rule around d ∧
      SameSurroundings (around.map (·.node)) (n :: ancestors) := by
  obtain ⟨-, rfl | ⟨hn, rfl⟩⟩ := hmet
  · exact ⟨_, rfl, h.cons n⟩
  cases c
  case paren info expr =>
    -- The parentheses are a place of their own in the plain pass only.
    exact ⟨_, plainFindingsUnder_paren _ info expr, h.cons_paren hn info expr⟩
  all_goals exact ⟨_, rfl, h.cons n⟩

/-- What the scan finds of a rule in a tree below some ancestors. -/
def findingsUnder (s : Scan) (rule : Rule) (ancestors : List Node) (n : Node) :
    Except RenderError (List Finding) :=
  concat ((n.scanVisitsUnder ancestors).map fun visit => s.findingsAt visit rule)

theorem findingsUnder_eq (ancestors : List Node) (n : Node) :
    s.findingsUnder rule ancestors n =
      (do return (← s.findingsAt ⟨n, ancestors⟩ rule) ++
        (← concat (n.scanChildren.map (s.findingsUnder rule (n :: ancestors))))) := by
  rw [findingsUnder, Node.scanVisitsUnder_eq, List.map_cons, concat, List.map_flatMap,
    concat_flatMap]
  rfl

/-- **The two passes find the same in a tree**, whatever stands around it. -/
theorem plainFindingsUnder_eq_findingsUnder (hsuppression : s.suppression.IgnoresParens)
    (n : Node) {above : List Ancestor} {ancestors : List Node}
    (h : SameSurroundings (above.map (·.node)) ancestors) :
    s.plainFindingsUnder rule above n = s.findingsUnder rule ancestors n := by
  rw [plainFindingsUnder_eq, findingsUnder_eq, plainFindingsAt_eq hsuppression h]
  have hbelow : (n.children.zipIdx.map fun c => s.plainFindingsUnder rule (⟨n, c.2⟩ :: above) c.1) =
      n.scanChildren.map (s.findingsUnder rule (n :: ancestors)) := by
    refine map_zipIdx_eq_map (n.forall₂_scanChildren.imp ?_) 0
    intro c d hmet i
    obtain ⟨around, hplain, haround⟩ := exists_surroundings hmet h i
    exact hplain.trans (plainFindingsUnder_eq_findingsUnder hsuppression d haround)
  rw [hbelow]
termination_by sizeOf n
decreasing_by exact hmet.sizeOf_lt

/-! ## Several rules -/

/-- A finding is reported under the name of its rule. -/
theorem rule_eq_of_mem_findingsAt {visit : Visit} {fs : List Finding}
    (h : s.findingsAt visit rule = .ok fs) {f : Finding} (hf : f ∈ fs) : f.rule = rule.name := by
  rw [findingsAt_eq] at h
  split at h
  · obtain rfl := Except.ok.inj h
    exact absurd hf List.not_mem_nil
  · obtain ⟨found, -, hfound⟩ := exists_of_mapM_eq_ok h hf
    obtain ⟨fixes, -, hfixes⟩ := bind_eq_ok_iff.1 hfound
    obtain rfl := pure_eq_ok_iff.1 hfixes
    rfl

/-- **Of what several rules find at a node, one of them finds what goes by its
name.** -/
theorem findingsAt_eq_filter {visit : Visit} {rules : List Rule}
    (hnames : (rules.map (·.name)).Nodup) (hrule : rule ∈ rules) {fs : List Finding}
    (h : concat (rules.map (s.findingsAt visit)) = .ok fs) :
    s.findingsAt visit rule = .ok (fs.filter (·.rule == rule.name)) := by
  obtain ⟨found, hfound, rfl⟩ := exists_of_concat_map_eq_ok h
  rw [filter_flatMap_name hnames hrule fun r hr f => rule_eq_of_mem_findingsAt (hfound r hr)]
  exact hfound rule hrule

/-- What a rule finds at all nodes that a scan of several visits is what goes by
its name. -/
theorem concat_findingsAt_eq_filter {rules : List Rule} (hnames : (rules.map (·.name)).Nodup)
    (hrule : rule ∈ rules) {visits : List Visit} {fs : List Finding}
    (h : concat (visits.map fun visit => concat (rules.map (s.findingsAt visit))) = .ok fs) :
    concat (visits.map fun visit => s.findingsAt visit rule) =
      .ok (fs.filter (·.rule == rule.name)) := by
  induction visits generalizing fs with
  | nil =>
    obtain rfl := Except.ok.inj h
    rfl
  | cons visit visits ih =>
    obtain ⟨found, later, hfound, hlater, rfl⟩ := concat_cons_eq_ok_iff.1 h
    exact concat_cons_eq_ok_iff.2 ⟨_, _, findingsAt_eq_filter hnames hrule hfound, ih hlater,
      (List.filter_append _ _).symm⟩

/-- A scan for one rule finds what that rule finds at the nodes it visits. -/
theorem findings_singleton (rule : Rule) (root : Node) :
    { s with rules := [rule] }.findings root = s.findingsUnder rule [] root := by
  rw [findings_eq_concat, findingsUnder]
  congr 2
  funext visit
  have hone (x : Except RenderError (List Finding)) : concat [x] = x := by
    cases x <;> simp [concat, bind, Except.bind, pure, Except.pure]
  exact hone _

/-- **Rules do not interfere, and a scan takes no short cut.** When a scan of
rules with different names does not fail, what it finds of each rule is, in
order, what a scan for that rule alone finds, and what the plain pass finds. -/
theorem findings_of_rule (hnames : (s.rules.map (·.name)).Nodup)
    (hsuppression : s.suppression = .nowhere ∨ s.suppression = .annotated) {root : Node}
    {fs : List Finding} (h : s.findings root = .ok fs) (hrule : rule ∈ s.rules) :
    { s with rules := [rule] }.findings root = .ok (fs.filter (·.rule == rule.name)) ∧
      s.plainFindings rule root = .ok (fs.filter (·.rule == rule.name)) := by
  rw [findings_eq_concat] at h
  have hunder : s.findingsUnder rule [] root = .ok (fs.filter (·.rule == rule.name)) :=
    concat_findingsAt_eq_filter hnames hrule h
  have hignores : s.suppression.IgnoresParens := by
    rcases hsuppression with hs | hs <;> rw [hs]
    · exact Suppression.ignoresParens_nowhere
    · exact Suppression.ignoresParens_annotated
  refine ⟨(findings_singleton rule root).trans hunder, ?_⟩
  rw [plainFindings, plainFindingsUnder_eq_findingsUnder hignores root ⟨rfl, rfl⟩]
  exact hunder

/-! ## A condition in parentheses, and a rule that is switched off -/

/-- A rule that only points out values of a type. -/
def flagRule (name ty : String) : Rule where
  name := name
  before := [⟨"before", [], [⟨"a", .plain ty, none⟩], .plain ty, .expr (.placeholder "a")⟩]
  after := []
  descriptor := ⟨true, none, none, none⟩

/-- A name for a truth value. -/
def truth : Node := (Fresh.ident "x").typed (.plain "boolean")

/-- A name for a number. -/
def count : Node := (Fresh.ident "y").typed (.plain "int")

/-- `if (x) y;` -/
def branch : Node := Fresh.ifElse (Fresh.paren truth) (Fresh.exprStmt count) none

/-- A method that holds no more than that, and in which counts are not to be
pointed out. -/
def quietMethod : Node :=
  Fresh.methodDecl ⟨"run", [⟨"SuppressWarnings", Dict.ofList [("value", .str "Counts")]⟩], [], [],
    .plain "void"⟩ (some (Fresh.block [branch]))

/-- A scan for truths and counts. -/
def flagScan : Scan :=
  ⟨[flagRule "com.example.Truths" "boolean", flagRule "com.example.Counts" "int"],
    Hierarchy.javaLang.oracle, "", Suppression.annotated⟩

/-- The condition is pointed out. -/
def truthFinding : Finding where
  rule := "com.example.Truths"
  span := ⟨0, 0⟩
  nodeKind := "identifier"
  bindings := Bindings.empty.bindExpr "a" ⟨truth, .plain "boolean"⟩
  fixes := [⟨[⟨⟨0, 0⟩, "/* match found */ "⟩], .empty⟩]

theorem findings_flagScan : flagScan.findings quietMethod = .ok [truthFinding] := by
  have hmethod : quietMethod.scanChildren = [Fresh.block [branch]] := rfl
  have hblock : (Fresh.block [branch]).scanChildren = [branch] := rfl
  have hbranch : branch.scanChildren = [truth, Fresh.exprStmt count] := rfl
  have htruth : truth.scanChildren = [] := rfl
  have hstmt : (Fresh.exprStmt count).scanChildren = [count] := rfl
  have hcount : count.scanChildren = [] := rfl
  unfold findings run
  simp only [Node.scanVisits, Node.scanVisitsUnder_eq, hmethod, hblock, hbranch, htruth, hstmt,
    hcount, List.flatMap_cons, List.flatMap_nil]
  with_unfolding_all rfl

/-- The plain pass finds the condition too, and neither pass finds a count. -/
theorem plainFindings_quietMethod :
    flagScan.plainFindings (flagRule "com.example.Truths" "boolean") quietMethod =
        .ok [truthFinding] ∧
      flagScan.plainFindings (flagRule "com.example.Counts" "int") quietMethod = .ok [] := by
  have hnames : (flagScan.rules.map (·.name)).Nodup := by decide
  exact ⟨(findings_of_rule hnames (.inr rfl) findings_flagScan List.mem_cons_self).2,
    (findings_of_rule hnames (.inr rfl) findings_flagScan
      (List.mem_cons_of_mem _ List.mem_cons_self)).2⟩

end Scan

end Codemod
