import Codemod.Dict
import Codemod.Tree.Span
/-!
# Edits

An edit replaces the text at a span; at an empty span it inserts. A fix is a
list of edits that belong together, with the classes that the new text needs
imported. Two edits conflict when they cannot both be applied as they stand.
-/

namespace Codemod

/-- Puts a text in place of the text at a span. -/
structure Edit where
  span : Span
  replacement : String
  deriving DecidableEq, Inhabited

namespace Edit

/-- An edit that keeps all there is and adds a text at an offset. -/
def insertion (offset : Nat) (text : String) : Edit := ⟨.point offset, text⟩

/-- Edits are ordered by where they start, then by where they end, then by
their texts. -/
def le (a b : Edit) : Bool :=
  a.span.precedes b.span || (a.span == b.span && decide (a.replacement ≤ b.replacement))

/-- The edits cannot both be applied. One edit twice is no conflict; two
insertions conflict when they are at one place, and any other two edits when
the later starts before the earlier ends. -/
def conflictsWith (a b : Edit) : Bool :=
  if a = b then false
  else if a.span.isEmpty && b.span.isEmpty then a.span.start == b.span.start
  else if b.span.precedes a.span then a.span.start < b.span.stop
  else b.span.start < a.span.stop

end Edit

/-- Edits that belong together, and the classes their texts need imported. -/
structure Fix where
  edits : List Edit
  imports : NameSet
  deriving Inhabited

namespace Fix

/-- A fix that changes nothing. -/
def empty : Fix := ⟨[], .empty⟩

/-- Edits whose texts need no imports. -/
def ofEdits (edits : List Edit) : Fix := ⟨edits, .empty⟩

/-- The fix changes nothing. -/
def isEmpty (f : Fix) : Bool := f.edits.isEmpty

/-- The edits and imports of both. -/
def merge (f g : Fix) : Fix := ⟨f.edits ++ g.edits, f.imports.union g.imports⟩

end Fix

end Codemod
