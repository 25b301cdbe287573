/-!
# Comments in source text

Whether a piece of source text contains a comment is decided on its bytes:
`//` or `/*` begins one, unless it stands inside a literal. A literal ends at
its quote or at the end of the line, a text block at three quotes, and a
backslash in either takes the next byte with it. Every byte that matters is an
ASCII character, which in UTF-8 never occurs inside another character.
-/

namespace Codemod.Comment

/-- Where in the text a byte stands. -/
inductive Place where
  | code
  | literal (quote : UInt8)
  | textBlock
  deriving DecidableEq

/-- The byte that begins a comment. -/
def slash : UInt8 := 47

/-- The byte after it in a comment over several lines. -/
def star : UInt8 := 42

/-- The byte around text literals. -/
def doubleQuote : UInt8 := 34

/-- The byte around character literals. -/
def singleQuote : UInt8 := 39

/-- The byte that takes the next one with it. -/
def backslash : UInt8 := 92

/-- The byte that ends a line. -/
def lineFeed : UInt8 := 10

/-- Some comment begins in the bytes, of which the first stands at the
place. -/
def beginsIn : Place → List UInt8 → Bool
  | _, [] => false
  | .code, b :: rest =>
    if b = slash then
      match rest with
      | [] => false
      | c :: rest => c = slash || c = star || beginsIn .code (c :: rest)
    else if b = doubleQuote then
      match rest with
      | c :: d :: rest =>
        if c = doubleQuote ∧ d = doubleQuote then beginsIn .textBlock rest
        else beginsIn (.literal b) (c :: d :: rest)
      | rest => beginsIn (.literal b) rest
    else if b = singleQuote then beginsIn (.literal b) rest
    else beginsIn .code rest
  | .literal quote, b :: rest =>
    if b = backslash then
      match rest with
      | [] => false
      | _ :: rest => beginsIn (.literal quote) rest
    else if b = quote ∨ b = lineFeed then beginsIn .code rest
    else beginsIn (.literal quote) rest
  | .textBlock, b :: rest =>
    if b = backslash then
      match rest with
      | [] => false
      | _ :: rest => beginsIn .textBlock rest
    else if b = doubleQuote then
      match rest with
      | c :: d :: rest =>
        if c = doubleQuote ∧ d = doubleQuote then beginsIn .code rest
        else beginsIn .textBlock (c :: d :: rest)
      | rest => beginsIn .textBlock rest
    else beginsIn .textBlock rest

/-- The text contains a comment. -/
def contains (text : String) : Bool := beginsIn .code text.toUTF8.toList

end Codemod.Comment
