import Codemod.Text.Offset
/-!
# Spans

A span is a range of byte offsets into the text of a compilation unit. It is
plain data: nothing keeps it from being reversed or from pointing past the
text, and `Span.slice?` says what such a span selects.
-/

namespace Codemod

/-- The bytes from `start` up to but not including `stop`. -/
structure Span where
  start : Nat
  stop : Nat
  deriving DecidableEq, Inhabited

namespace Span

/-- The empty span at an offset. -/
def point (offset : Nat) : Span := ⟨offset, offset⟩

/-- The number of bytes; a reversed span has none. -/
def length (s : Span) : Nat := s.stop - s.start

/-- The span selects no byte. -/
def isEmpty (s : Span) : Bool := s.stop ≤ s.start

/-- The other span starts and ends within this one. -/
def contains (s t : Span) : Bool := s.start ≤ t.start && t.stop ≤ s.stop

/-- Some byte is in both. -/
def intersects (s t : Span) : Bool := s.start < t.stop && t.start < s.stop

/-- The least span that contains both. -/
def hull (s t : Span) : Span := ⟨min s.start t.start, max s.stop t.stop⟩

/-- Spans are ordered by their starts, and from one start by their ends. -/
def precedes (s t : Span) : Bool := s.start < t.start || (s.start == t.start && s.stop < t.stop)

/-- The text at the span; nothing when the span is reversed, leaves the text
or cuts a character. -/
def slice? (s : Span) (source : String) : Option String :=
  Text.slice? source s.start s.stop

/-- The two offsets, as messages show them. -/
def describe (s : Span) : String := toString s.start ++ ".." ++ toString s.stop

end Span

end Codemod
