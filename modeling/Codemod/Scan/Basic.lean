import Codemod.Comment
import Codemod.Scan.Log
import Codemod.Scan.Visits
import Codemod.Template.Matching
/-!
# Scans

A scan tries every rule at every node of a tree, in the order of the rules at
each node, and reports where they apply with the fixes they propose. At a node
the first Before-Template of a rule that matches at all speaks for the rule. A
rule says nothing within the class that declares it, nor where it is
suppressed, nor about code that contains a comment if it rejects comments.
Whether it is suppressed is decided from the rule, the node and the nodes around
it, its parent first (`Suppression`).
-/

namespace Codemod

/-! ## Suppression -/

/-- Whether a rule is switched off at a node below its ancestors. -/
abbrev Suppression := Rule → Node → List Node → Bool

namespace Suppression

/-- Nothing is switched off. -/
def nowhere : Suppression := fun _ _ _ => false

/-- The annotation that switches rules off. -/
def annotationName : String := "SuppressWarnings"

/-- The rules that a node's own annotation names. -/
def namesAt (n : Node) : List String :=
  match Annotation.find? n.annotations annotationName with
  | some annotation =>
    match annotation.value? with
    | some value => value.strings
    | none => []
  | none => []

/-- A rule is switched off within a declaration whose annotation names it, in
full or by its simple name, or names all rules. -/
def annotated : Suppression := fun rule node ancestors =>
  (node :: ancestors).any fun n =>
    (namesAt n).any fun name => name == "all" || name == rule.name || name == rule.simpleName

end Suppression

/-! ## Scans -/

/-- What a scan goes by. -/
structure Scan where
  rules : List Rule
  oracle : TypeOracle
  /-- The text that the spans of the tree point into. -/
  source : String
  suppression : Suppression

namespace Scan

variable (s : Scan)

/-- What is inserted before code that a rule only flags. -/
def matchFoundMarker : String := "/* match found */ "

/-- The node is the class of the name. -/
def declaresClass (name : String) : Node → Bool
  | .classDecl _ head _ => head.name == name
  | _ => false

/-- The rule may speak at the node: the node is of a kind that its templates
match, outside the class that declares the rule. -/
def isActive (rule : Rule) (visit : Visit) : Bool :=
  !(visit.node :: visit.ancestors).any (declaresClass rule.name) && rule.appliesTo visit.node

/-- What the first Before-Template that matches makes of a node. -/
def instances (rule : Rule) (visit : Visit) : List Instance :=
  ((rule.before.map fun t => t.instances s.oracle visit.node visit.ancestors.head?).find?
    (!·.isEmpty)).getD []

/-- The code contains a comment that the rule rejects. -/
def rejects (rule : Rule) (found : Instance) : Bool :=
  rule.descriptor.rejectComments &&
    match found.span.slice? s.source with
    | some text => Comment.contains text
    | none => false

/-- The fixes that a rule proposes, one for each After-Template. -/
def fixes (rule : Rule) (node : Node) (found : Instance) : Except RenderError (List Fix) :=
  if rule.isFlagOnly then
    .ok [.ofEdits [.insertion found.span.start matchFoundMarker]]
  else
    rule.after.mapM fun t => do
      let replacement ←
        t.render s.oracle s.source rule.name found.bindings found.span node.precedence
      return ⟨[⟨found.span, replacement.text⟩], replacement.imports⟩

/-- What becomes of one instance of a rule's templates. -/
def report (rule : Rule) (node : Node) (found : Instance) : ScanLog :=
  if s.rejects rule found then ⟨[(rule.name, .rejectedComment)], none⟩
  else
    match s.fixes rule node found with
    | .ok fixes =>
      ⟨[(rule.name, .found ⟨rule.name, found.span, node.kindName, found.bindings, fixes⟩)], none⟩
    | .error e => ⟨[], some e⟩

/-- What happens to a rule at a node. -/
def evaluate (visit : Visit) (rule : Rule) : ScanLog :=
  if !isActive rule visit then .empty
  else if s.suppression rule visit.node visit.ancestors then ⟨[(rule.name, .suppressed)], none⟩
  else
    ScanLog.andThen ⟨[(rule.name, .attempted)], none⟩
      (.inOrder ((s.instances rule visit).map (s.report rule visit.node)))

/-- The scan of a tree that stands in no other. -/
def run (root : Node) : ScanLog :=
  .inOrder (root.scanVisits.flatMap fun visit => s.rules.map (s.evaluate visit))

/-- The findings of a scan that does not fail. -/
def findings (root : Node) : Except RenderError (List Finding) :=
  let log := s.run root
  match log.failure with
  | some e => .error e
  | none => .ok log.findings

end Scan

end Codemod
