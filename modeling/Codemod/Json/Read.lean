import Codemod.Json.Value
/-!
# Reading JSON

A text is read in two passes over lists: its characters are grouped into
tokens, and the tokens put together to a value. Each pass keeps what it is in
the middle of as a value of its own, so neither needs recursion, and depth is
bounded only where a limit is asked for. A part that is well written but has no
value is read as unreadable, and reading goes on: whoever passes the part over
never learns of it.
-/

namespace Codemod.Json

/-! ## Tokens -/

/-- What a text is made of. -/
inductive Token where
  | openArr
  | closeArr
  | openObj
  | closeObj
  | comma
  | colon
  /-- A text, unless it holds half a surrogate pair. -/
  | str (value : Option String)
  | scalar (value : Json)

/-- What the characters read so far leave unfinished. Characters of a text
literal, a number or a word are kept latest first; those of a text with half a
surrogate pair are forgotten. -/
inductive Pending where
  | blank
  | text (cs : Option (List Char))
  | escape (cs : Option (List Char))
  /-- Hexadecimal digits of an escaped code unit, how many are still to come,
  and the high surrogate before it. -/
  | unicode (cs : Option (List Char)) (high : Option Nat) (left code : Nat)
  /-- Between a high surrogate and the escape that completes the pair. -/
  | surrogate (cs : Option (List Char)) (high : Nat)
  | surrogateEscape (cs : Option (List Char)) (high : Nat)
  | number (cs : List Char)
  | word (cs : List Char)

/-- The tokens so far, the latest first, and what is unfinished. -/
structure Lexer where
  tokens : List Token
  pending : Pending

namespace Lexer

/-- The value of a hexadecimal digit, in either case. -/
def hexDigit? (c : Char) : Option Nat :=
  if '0' ≤ c ∧ c ≤ '9' then some (c.toNat - '0'.toNat)
  else if 'a' ≤ c ∧ c ≤ 'f' then some (c.toNat - 'a'.toNat + 10)
  else if 'A' ≤ c ∧ c ≤ 'F' then some (c.toNat - 'A'.toNat + 10)
  else none

/-- The character is a decimal digit. -/
def isDigit (c : Char) : Bool := '0' ≤ c && c ≤ '9'

/-- The character may stand between tokens. -/
def isBlank (c : Char) : Bool := c == ' ' || c == '\n' || c == '\t' || c == '\r'

/-- Characters that a number may hold after its first one. -/
def continuesNumber (c : Char) : Bool :=
  isDigit c || c == '.' || c == 'e' || c == 'E' || c == '+' || c == '-'

/-- What a character stands for after a backslash. -/
def escaped? (c : Char) : Option Char :=
  match c with
  | '"' => some '"'
  | '\\' => some '\\'
  | '/' => some '/'
  | 'b' => some '\x08'
  | 'f' => some '\x0c'
  | 'n' => some '\n'
  | 'r' => some '\r'
  | 't' => some '\t'
  | _ => none

/-- The value of decimal digits. -/
def digitsValue (cs : List Char) : Nat := cs.foldl (fun n c => 10 * n + (c.toNat - '0'.toNat)) 0

/-- The exponent after its mark: digits with an optional sign. -/
def exponent? (cs : List Char) : Option Int :=
  let signed (negative : Bool) (digits : List Char) : Option Int :=
    if digits.isEmpty || !digits.all isDigit then none
    else some (if negative then -(digitsValue digits : Int) else digitsValue digits)
  match cs with
  | '-' :: digits => signed true digits
  | '+' :: digits => signed false digits
  | digits => signed false digits

/-- A number: digits without a leading zero, then a fraction and an exponent,
each of them optional. A negative zero is a double, and a number beyond every
double is unreadable. -/
def number? (cs : List Char) : Option Json :=
  let negative := cs.head? == some '-'
  let cs := if negative then cs.tail else cs
  let whole := cs.takeWhile isDigit
  let rest := cs.dropWhile isDigit
  if whole.isEmpty || (whole.head? == some '0' && 1 < whole.length) then none
  else
    let double (fraction : List Char) (exponent : Int) : Json :=
      match Double.nearest? negative (digitsValue (whole ++ fraction))
          (exponent - fraction.length) with
      | some x => .float x
      | none => .unreadable
    let withExponent (fraction rest : List Char) : Option Json :=
      match rest with
      | [] => some (double fraction 0)
      | mark :: digits =>
        if mark == 'e' || mark == 'E' then (exponent? digits).map (double fraction) else none
    match rest with
    | [] =>
      let magnitude : Int := digitsValue whole
      let value := if negative then -magnitude else magnitude
      some <| if (negative && value == 0) || value < leastInt || greatestInt < value then
          double [] 0
        else .int value
    | '.' :: rest =>
      let fraction := rest.takeWhile isDigit
      if fraction.isEmpty then none else withExponent fraction (rest.dropWhile isDigit)
    | rest => withExponent [] rest

/-- The value that a word names. -/
def word? (cs : List Char) : Option Json :=
  match String.ofList cs with
  | "null" => some .null
  | "true" => some (.bool true)
  | "false" => some (.bool false)
  | _ => none

/-- Ends a number or a word. -/
def finish? (l : Lexer) : Option (List Token) :=
  match l.pending with
  | .blank => some l.tokens
  | .number cs => (number? cs.reverse).map (.scalar · :: l.tokens)
  | .word cs => (word? cs.reverse).map (.scalar · :: l.tokens)
  | _ => none

/-- A character between tokens. -/
def start? (tokens : List Token) (c : Char) : Option Lexer :=
  let single (t : Token) : Option Lexer := some ⟨t :: tokens, .blank⟩
  match c with
  | '[' => single .openArr
  | ']' => single .closeArr
  | '\x7b' => single .openObj
  | '\x7d' => single .closeObj
  | ',' => single .comma
  | ':' => single .colon
  | '"' => some ⟨tokens, .text (some [])⟩
  | _ =>
    if isBlank c then some ⟨tokens, .blank⟩
    else if isDigit c || c == '-' then some ⟨tokens, .number [c]⟩
    else if c.isLower then some ⟨tokens, .word [c]⟩
    else none

/-- The end of an escaped code unit. A surrogate must be the first or second
half of a pair; elsewhere it spoils the text. -/
def unit (cs : Option (List Char)) (high : Option Nat) (code : Nat) : Pending :=
  match high with
  | none =>
    if 0xD800 ≤ code ∧ code < 0xDC00 then .surrogate cs code
    else if 0xDC00 ≤ code ∧ code < 0xE000 then .text none
    else .text (cs.map (Char.ofNat code :: ·))
  | some high =>
    if 0xDC00 ≤ code ∧ code < 0xE000 then
      .text (cs.map (Char.ofNat (0x10000 + (high - 0xD800) * 0x400 + (code - 0xDC00)) :: ·))
    else .text none

/-- A character of a text. -/
def textStep? (tokens : List Token) (cs : Option (List Char)) (c : Char) : Option Lexer :=
  if c = '"' then some ⟨.str (cs.map fun cs => String.ofList cs.reverse) :: tokens, .blank⟩
  else if c = '\\' then some ⟨tokens, .escape cs⟩
  else if c.toNat < 0x20 then none
  else some ⟨tokens, .text (cs.map (c :: ·))⟩

/-- The character after a backslash. -/
def escapeStep? (tokens : List Token) (cs : Option (List Char)) (c : Char) : Option Lexer :=
  if c = 'u' then some ⟨tokens, .unicode cs none 4 0⟩
  else (escaped? c).map fun e => ⟨tokens, .text (cs.map (e :: ·))⟩

/-- Reads one character. -/
def step? (l : Lexer) (c : Char) : Option Lexer :=
  let go (p : Pending) : Option Lexer := some ⟨l.tokens, p⟩
  match l.pending with
  | .blank => start? l.tokens c
  | .number cs =>
    if continuesNumber c then go (.number (c :: cs))
    else l.finish?.bind (start? · c)
  | .word cs =>
    if c.isLower then go (.word (c :: cs)) else l.finish?.bind (start? · c)
  | .text cs => textStep? l.tokens cs c
  | .escape cs => escapeStep? l.tokens cs c
  | .unicode cs high left code =>
    (hexDigit? c).bind fun d =>
      let code := 16 * code + d
      go (if left ≤ 1 then unit cs high code else .unicode cs high (left - 1) code)
  | .surrogate cs high =>
    if c = '\\' then go (.surrogateEscape cs high) else textStep? l.tokens none c
  | .surrogateEscape cs high =>
    if c = 'u' then go (.unicode cs (some high) 4 0) else escapeStep? l.tokens none c

end Lexer

/-- The tokens of a text. -/
def tokens? (text : String) : Option (List Token) :=
  ((text.toList.foldlM Lexer.step? ⟨[], .blank⟩).bind Lexer.finish?).map List.reverse

/-! ## Values -/

/-- A container around the value being read, its items so far latest first. A
key without a value of its own is kept as nothing. -/
inductive Frame where
  | arr (items : List Json)
  | obj (entries : List (Option String × Json)) (key : Option String)

/-- What may come next. -/
inductive Expected where
  | value
  | firstItem
  | afterItem (items : List Json)
  | firstKey
  | key (entries : List (Option String × Json))
  | colon (entries : List (Option String × Json)) (key : Option String)
  | afterEntry (entries : List (Option String × Json))
  | nothing (value : Json)

/-- The containers that are open, the innermost first, and what may come next. -/
structure Builder where
  frames : List Frame
  expected : Expected

namespace Builder

/-- A value is complete; it goes into the innermost container. -/
def complete (value : Json) : List Frame → Builder
  | [] => ⟨[], .nothing value⟩
  | .arr items :: frames => ⟨frames, .afterItem (value :: items)⟩
  | .obj entries key :: frames => ⟨frames, .afterEntry ((key, value) :: entries)⟩

/-- A container is complete; it has a value only if it stands in fewer others
than the limit says. -/
def close (limit : Option Nat) (value : Json) (frames : List Frame) : Builder :=
  let within := match limit with
    | some n => decide ((frames.take n).length < n)
    | none => true
  complete (if within then value else .unreadable) frames

/-- The object of entries, the latest first. -/
def object (entries : List (Option String × Json)) : Json :=
  match entries.reverse.mapM fun (key, value) => key.map (·, value) with
  | some entries => .obj entries
  | none => .unreadable

/-- The first token of a value. -/
def begin? (frames : List Frame) (t : Token) : Option Builder :=
  match t with
  | .openArr => some ⟨frames, .firstItem⟩
  | .openObj => some ⟨frames, .firstKey⟩
  | .str (some s) => some (complete (.str s) frames)
  | .str none => some (complete .unreadable frames)
  | .scalar v => some (complete v frames)
  | _ => none

/-- Reads one token. -/
def step? (limit : Option Nat) (b : Builder) (t : Token) : Option Builder :=
  match b.expected, t with
  | .value, t => begin? b.frames t
  | .firstItem, .closeArr => some (close limit (.arr []) b.frames)
  | .firstItem, t => begin? (.arr [] :: b.frames) t
  | .afterItem items, .comma => some ⟨.arr items :: b.frames, .value⟩
  | .afterItem items, .closeArr => some (close limit (.arr items.reverse) b.frames)
  | .firstKey, .closeObj => some (close limit (.obj []) b.frames)
  | .firstKey, .str key => some ⟨b.frames, .colon [] key⟩
  | .key entries, .str key => some ⟨b.frames, .colon entries key⟩
  | .colon entries key, .colon => some ⟨.obj entries key :: b.frames, .value⟩
  | .afterEntry entries, .comma => some ⟨b.frames, .key entries⟩
  | .afterEntry entries, .closeObj => some (close limit (object entries) b.frames)
  | _, _ => none

/-- The value, once nothing more is expected. -/
def value? (b : Builder) : Option Json :=
  match b.expected with
  | .nothing value => some value
  | _ => none

end Builder

/-- The value a text holds; containers that nest deeper than a limit are
unreadable. -/
def readWithin? (limit : Option Nat) (text : String) : Option Json :=
  (tokens? text).bind fun tokens =>
    (tokens.foldlM (Builder.step? limit) ⟨[], .value⟩).bind Builder.value?

/-- The value a text holds, if every part of it has one. -/
def read? (text : String) : Option Json := (readWithin? none text).filter readable

end Codemod.Json
