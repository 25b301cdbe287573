/-!
# UTF-8

The bytes of a text, and the text that bytes are the form of. Bytes that are
no text are reported by their first fault.
-/

namespace Codemod

/-- What a file holds. -/
abbrev Bytes := List UInt8

namespace Text

/-- The UTF-8 bytes of a text. -/
def utf8 (s : String) : Bytes := s.toUTF8.data.toList

/-- The bytes of one character. -/
theorem utf8_singleton (c : Char) : utf8 (String.singleton c) = String.utf8EncodeChar c := by
  simp [utf8, List.utf8Encode]

/-- The text with the given UTF-8 bytes. -/
def ofUtf8? (bytes : Bytes) : Option String := String.fromUTF8? ⟨bytes.toArray⟩

/-! ## Faults -/

/-- Where bytes cease to be UTF-8: a sequence that nothing can complete, with
its length, or one that the end cuts short. -/
structure Utf8Fault where
  index : Nat
  sequence : Option Nat
  deriving DecidableEq, Inhabited

namespace Utf8Fault

/-- What is reported. -/
def message (f : Utf8Fault) : String :=
  match f.sequence with
  | some n =>
    "invalid utf-8 sequence of " ++ toString n ++ " bytes from index " ++ toString f.index
  | none => "incomplete utf-8 byte sequence from index " ++ toString f.index

end Utf8Fault

/-- How many bytes a character has that begins with the byte; none begins with
a byte of width zero. -/
def utf8Width (first : UInt8) : Nat :=
  if first < 0x80 then 1
  else if first < 0xC2 then 0
  else if first < 0xE0 then 2
  else if first < 0xF0 then 3
  else if first < 0xF5 then 4
  else 0

/-- The byte may follow the first byte of a character. -/
def continues (byte : UInt8) : Bool := 0x80 ≤ byte && byte < 0xC0

/-- The byte may follow that first byte, given that longer forms than needed,
surrogates and numbers that are too great are no characters. -/
def follows (first second : UInt8) : Bool :=
  continues second &&
    (if first = 0xE0 then 0xA0 ≤ second
    else if first = 0xED then second < 0xA0
    else if first = 0xF0 then 0x90 ≤ second
    else if first = 0xF4 then second < 0x90
    else true)

/-- What is wrong at the front of bytes, or how many bytes the character there
has. -/
def utf8Front : Bytes → Except (Option Nat) Nat
  | [] => .ok 0
  | first :: rest =>
    match utf8Width first, rest with
    | 0, _ => .error (some 1)
    | 1, _ => .ok 1
    | _, [] => .error none
    | width, second :: rest =>
      if !follows first second then .error (some 1)
      else
        let more := rest.takeWhile continues
        if width ≤ more.length + 2 then .ok width
        else if more.length < rest.length then .error (some (more.length + 2))
        else .error none

/-- The first fault of bytes that are not UTF-8. -/
def utf8Fault (index : Nat) (bytes : Bytes) : Utf8Fault :=
  match bytes with
  | [] => ⟨index, none⟩
  | first :: rest =>
    match utf8Front (first :: rest) with
    | .error sequence => ⟨index, sequence⟩
    | .ok width => utf8Fault (index + max 1 width) (rest.drop (width - 1))
termination_by bytes.length

end Text

end Codemod
