import Codemod.Edit.Basic
import Codemod.Template.Bindings
/-!
# Findings

A finding says that a rule applies at a place, what its names stand for there,
and which fixes it proposes. The first fix is the preferred one.

Where the preferred fixes of findings conflict, some findings have to go. A
finding with a longer span goes before one with a shorter, then the one that
starts earlier, then the one found earlier; in that order each is kept if it
conflicts with none kept before (`Finding.selectCompatible`).
-/

namespace Codemod

/-- One place where a rule applies, and what it proposes there. -/
structure Finding where
  /-- The rule, by its qualified name. -/
  rule : String
  span : Span
  /-- The kind of node that was found. -/
  nodeKind : String
  bindings : Bindings
  fixes : List Fix
  deriving Inhabited

namespace Finding

/-- The fix to make unless another one is asked for. -/
def preferredFix? (f : Finding) : Option Fix := f.fixes.head?

/-- The edits of the preferred fix. -/
def edits (f : Finding) : List Edit :=
  match f.preferredFix? with
  | some fix => fix.edits
  | none => []

/-- The imports of the preferred fix. -/
def imports (f : Finding) : NameSet :=
  match f.preferredFix? with
  | some fix => fix.imports
  | none => .empty

/-! ## Compatible findings -/

/-- The preferred fixes hold edits that conflict. -/
def clashesWith (f g : Finding) : Bool :=
  f.edits.any fun e => g.edits.any fun e' => e.conflictsWith e'

/-- The finding is considered no later than the other. -/
def considered (f g : Finding) : Bool :=
  g.span.length < f.span.length ||
    (f.span.length == g.span.length && decide (f.span.start ≤ g.span.start))

/-- The findings that are kept, with those kept before, the latest first. -/
def keep (kept : List Finding) : List Finding → List Finding
  | [] => kept
  | f :: rest => if kept.any f.clashesWith then keep kept rest else keep (f :: kept) rest

/-- The findings kept, in the order of the text. -/
def selectCompatible (findings : List Finding) : List Finding :=
  (keep [] (findings.mergeSort considered)).reverse.mergeSort
    fun f g => !g.span.precedes f.span

end Finding

end Codemod
