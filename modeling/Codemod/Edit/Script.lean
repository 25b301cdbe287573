import Codemod.Finding
import Codemod.Text.Printable
/-!
# Edit scripts

Many findings propose edits of one text. A script holds all their preferred
edits in ascending order, an edit that several propose once, and replaces them
in one pass. There is no script when an edit does not fit the text or when two
edits conflict; it is never left to the order of the findings which of two
edits wins.
-/

namespace Codemod

/-- Why edits make no script. -/
inductive ComposeError where
  /-- Edits of two rules conflict. -/
  | overlap (firstRule : String) (first : Span) (secondRule : String) (second : Span)
  /-- An edit ends after the text, or before it starts. -/
  | outOfBounds (rule : String) (span : Span) (length : Nat)
  /-- An edit starts or ends inside a character. -/
  | notCharBoundary (rule : String) (span : Span)
  deriving DecidableEq, Inhabited

namespace ComposeError

/-- What is reported. -/
def message : ComposeError → String
  | .overlap firstRule first secondRule second =>
    "Overlapping edits: " ++ firstRule ++ " at " ++ first.describe ++ " and " ++ secondRule ++
      " at " ++ second.describe
  | .outOfBounds rule span length =>
    "Edit from " ++ rule ++ " at " ++ span.describe ++ " lies outside the source (" ++
      toString length ++ " bytes)"
  | .notCharBoundary rule span =>
    "Edit from " ++ rule ++ " at " ++ span.describe ++ " splits a character"

end ComposeError

/-- Edits to apply in one pass, with the imports they need. -/
structure EditScript where
  edits : List Edit
  imports : NameSet
  deriving Inhabited

namespace EditScript

/-! ## Composing -/

/-- An edit and the rule that proposes it. -/
abbrev Proposal := String × Edit

/-- The edit lies within the source and cuts no character. -/
def checkBounds (source : String) (p : Proposal) : Except ComposeError Unit :=
  let (rule, edit) := p
  let span := edit.span
  let length := Text.byteCount source
  if span.stop < span.start ∨ length < span.stop then
    .error (.outOfBounds rule span length)
  else if Text.Splits source span.start ∧ Text.Splits source span.stop then .ok ()
  else .error (.notCharBoundary rule span)

/-- Of equal edits next to one another, the first. -/
def collapse : List Proposal → List Proposal
  | [] => []
  | p :: rest => p :: after p.2 rest
where
  after (edit : Edit) : List Proposal → List Proposal
    | [] => []
    | p :: rest => if p.2 = edit then after edit rest else p :: after p.2 rest

/-- The first two neighbours that conflict. -/
def firstConflict? : List Proposal → Option (Proposal × Proposal)
  | p :: q :: rest =>
    if p.2.conflictsWith q.2 then some (p, q) else firstConflict? (q :: rest)
  | _ => none

/-- The script of proposed edits. Edits that do not fit the source are
reported in the order they were proposed in, conflicts in the order of the
text. -/
def ofProposals (source : String) (proposals : List Proposal) (imports : NameSet) :
    Except ComposeError EditScript := do
  proposals.forM (checkBounds source)
  let sorted := collapse (proposals.mergeSort fun p q => p.2.le q.2)
  match firstConflict? sorted with
  | some (p, q) => .error (.overlap p.1 p.2.span q.1 q.2.span)
  | none => return ⟨sorted.map (·.2), imports⟩

/-- The script of the preferred fixes of findings. -/
def compose (findings : List Finding) (source : String) : Except ComposeError EditScript :=
  ofProposals source (findings.flatMap fun f => f.edits.map (f.rule, ·))
    (findings.foldl (fun imports f => imports.union f.imports) .empty)

/-! ## Applying -/

/-- The text from an offset on, with the edits applied. -/
def applyFrom (source : String) (offset : Nat) : List Edit → String
  | [] => (Text.slice? source offset (Text.byteCount source)).getD ""
  | e :: rest =>
    (Text.slice? source offset e.span.start).getD "" ++ e.replacement ++
      applyFrom source e.span.stop rest

/-- The text with all edits applied. -/
def apply (script : EditScript) (source : String) : String := applyFrom source 0 script.edits

/-- The edits as a report shows them, one to a line. -/
def describe (script : EditScript) : String :=
  String.join (script.edits.map fun e =>
    e.span.describe ++ " -> " ++ Text.shown e.replacement ++ "\n")

end EditScript

end Codemod
