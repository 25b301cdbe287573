import Codemod.Decimal.Shortest
import Codemod.Json.Value
/-!
# Writing JSON

A value is written on one line, or indented by two blanks a level with every
item on a line of its own; empty containers stay closed up. In texts only
quotes, backslashes and control characters are escaped. What has no value is
written as null.
-/

namespace Codemod.Json

/-- A hexadecimal digit, in lower case. -/
def hexDigit (n : Nat) : Char := Nat.digitChar (n % 16)

/-- One character as it stands in a text literal. -/
def escapedChar (c : Char) : List Char :=
  match c with
  | '"' => ['\\', '"']
  | '\\' => ['\\', '\\']
  | '\x08' => ['\\', 'b']
  | '\x0c' => ['\\', 'f']
  | '\n' => ['\\', 'n']
  | '\r' => ['\\', 'r']
  | '\t' => ['\\', 't']
  | c =>
    if c.toNat < 0x20 then ['\\', 'u', '0', '0', hexDigit (c.toNat / 16), hexDigit c.toNat]
    else [c]

/-- A text literal. -/
def quote (s : String) : String :=
  String.ofList ('"' :: s.toList.flatMap escapedChar ++ ['"'])

/-- A finite double: positional when its decimal point is no more than sixteen
places after the first digit or five before it, else with an exponent that
shows its sign. Ties between shortest decimals go to the even digit. -/
def floatText (x : Double) : String :=
  if x.isNaN || x.isInfinite then "null"
  else
    let sign := if x.isNegative then "-" else ""
    if x.isZero then sign ++ "0.0"
    else
      let d := Decimal.shortest .even x
      let digits := Nat.toDigits 10 d.digits
      let point := digits.length + d.exponent
      if 0 ≤ d.exponent && point ≤ 16 then sign ++ Decimal.positional d ++ ".0"
      else if -5 < point && point ≤ 16 then sign ++ Decimal.positional d
      else
        let fraction := if digits.length ≤ 1 then [] else '.' :: digits.tail
        let mark := if 1 ≤ point then "e+" else "e"
        sign ++ String.ofList (digits.take 1 ++ fraction) ++ mark ++ toString (point - 1)

mutual

/-- The value on one line. -/
def compact : Json → String
  | .null => "null"
  | .bool b => if b then "true" else "false"
  | .int n => toString n
  | .float x => floatText x
  | .str s => quote s
  | .arr items => "[" ++ ",".intercalate (compactItems items) ++ "]"
  | .obj entries => "\x7b" ++ ",".intercalate (compactEntries entries) ++ "\x7d"
  | .unreadable => "null"

/-- Each item on one line. -/
def compactItems : List Json → List String
  | [] => []
  | v :: rest => compact v :: compactItems rest

/-- Each entry on one line. -/
def compactEntries : List (String × Json) → List String
  | [] => []
  | (k, v) :: rest => (quote k ++ ":" ++ compact v) :: compactEntries rest

end

/-- The break before a line at a depth. -/
def lineBreak (depth : Nat) : String := "\n" ++ String.join (List.replicate depth "  ")

mutual

/-- The value over several lines, at a depth. -/
def pretty (depth : Nat) : Json → String
  | .arr [] => "[]"
  | .arr (v :: rest) =>
    "[" ++ ",".intercalate (prettyItems (depth + 1) (v :: rest)) ++ lineBreak depth ++ "]"
  | .obj [] => "\x7b\x7d"
  | .obj (e :: rest) =>
    "\x7b" ++ ",".intercalate (prettyEntries (depth + 1) (e :: rest)) ++ lineBreak depth ++ "\x7d"
  | v => compact v

/-- Each item on lines of its own. -/
def prettyItems (depth : Nat) : List Json → List String
  | [] => []
  | v :: rest => (lineBreak depth ++ pretty depth v) :: prettyItems depth rest

/-- Each entry on lines of its own. -/
def prettyEntries (depth : Nat) : List (String × Json) → List String
  | [] => []
  | (k, v) :: rest =>
    (lineBreak depth ++ quote k ++ ": " ++ pretty depth v) :: prettyEntries depth rest

end

end Codemod.Json
